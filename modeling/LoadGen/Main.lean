/-
The program on the command line. It runs on virtual time and opens no connection: a request that can be built finds
nobody to talk to.
-/
import LoadGen.Command.Program

namespace LoadGen

/-- nobody answers, and a millisecond tells -/
def unreachablePeer : Peer :=
  fun _ _ => (.ofMillis 1, .error .connect)

/-- the bytes of a file, if it can be read -/
def readBytes (file : String) : IO (Option (List Nat)) := do
  try
    let bytes ← IO.FS.readBinFile file
    pure (some (bytes.toList.map UInt8.toNat))
  catch _ => pure none

end LoadGen

open LoadGen in
def main (args : List String) : IO UInt32 := do
  let bytes ← match Command.fileOf? args with
    | none => pure none
    | some file => readBytes file
  let t := Command.call args bytes unreachablePeer
  (← IO.getStdout).putStr t.out
  (← IO.getStderr).putStr t.err
  pure (UInt32.ofNat t.code.toNat)
