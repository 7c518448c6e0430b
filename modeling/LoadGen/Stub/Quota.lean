/-
Quotas: hits of each client on each path, counted in windows of one minute. A window starts with the first hit after the
last window ended; windows that have ended are forgotten only once many keys are tracked.
-/
import LoadGen.Time.Duration

namespace LoadGen.Stub

/-- who hits what -/
structure QuotaKey where
  client : String
  path : String
  deriving DecidableEq, Repr

/-- hits since the start of a window -/
structure QuotaWindow where
  key : QuotaKey
  start : Duration
  hits : Nat
  deriving DecidableEq

/-- how long a window is open -/
def windowLength : Duration := .ofSecs 60

def QuotaWindow.isOpen (w : QuotaWindow) (now : Duration) : Bool :=
  now - w.start < windowLength

/-- the windows of all keys, each key once -/
structure Quotas where
  windows : List QuotaWindow := []
  /-- keys from which on ended windows are forgotten, at least one -/
  pruneAt : Nat := 10000
  deriving DecidableEq

namespace Quotas

/-- no windows; ended ones are forgotten from `pruneAt` keys on -/
def empty (pruneAt : Nat) : Quotas :=
  ⟨[], max 1 pruneAt⟩

def find? (q : Quotas) (k : QuotaKey) : Option QuotaWindow :=
  q.windows.find? fun w => w.key = k

/-- forget the windows that have ended, if too many keys are tracked -/
def prune (q : Quotas) (now : Duration) : Quotas :=
  if q.pruneAt ≤ q.windows.length then { q with windows := q.windows.filter fun w => w.isOpen now } else q

/-- a window in place of that of its key -/
def put (q : Quotas) (w : QuotaWindow) : Quotas :=
  match q.find? w.key with
  | none => { q with windows := w :: q.windows }
  | some _ => { q with windows := q.windows.map fun v => if v.key = w.key then w else v }

/-- the window of a key after one more hit -/
def next (q : Quotas) (k : QuotaKey) (now : Duration) : QuotaWindow :=
  match (q.find? k).filter fun w => w.isOpen now with
  | some w => { w with hits := w.hits + 1 }
  | none => ⟨k, now, 1⟩

/-- one more hit, with the hits in its window -/
def hit (q : Quotas) (k : QuotaKey) (now : Duration) : Quotas × Nat :=
  let q := q.prune now
  let w := q.next k now
  (q.put w, w.hits)

/-- the number of keys tracked -/
def tracked (q : Quotas) : Nat :=
  q.windows.length

end Quotas

end LoadGen.Stub
