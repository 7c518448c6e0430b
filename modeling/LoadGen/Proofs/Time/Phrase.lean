/-
Phrases read back: the phrase that is written for a span of time means that span. A written phrase is a row of parts,
each a number of items of a unit; reading takes one part after another and adds up what they mean, and the parts of a
span add up to it.

- `readItem?_part`: one part is one item.
- `total_parts`: the parts of a span mean the span.
- `read?_write`: a written phrase, with blanks around it trimmed, is read as the span it was written for.
-/
import LoadGen.Proofs.Decimal.Digits
import LoadGen.Proofs.Text.Blank
import LoadGen.Proofs.Text.Characters
import LoadGen.Time.Phrase

namespace LoadGen.Phrase

/-! ## Parts -/

/-- a number of items of a unit, in a spelling of the unit -/
structure Part where
  count : Nat
  name : String
  unit : TimeUnit

namespace Part

def text (p : Part) : List Char :=
  Decimal.ofNat p.count ++ p.name.toList

def nanos (p : Part) : Nat :=
  p.count * p.unit.perItem * p.unit.tick

/-- a spelling of the unit, in letters, and a count whose ticks fit a word -/
structure Readable (p : Part) : Prop where
  unit_name : unit? p.name = some p.unit
  letters : ∀ c ∈ p.name.toList, isUnitChar c = true ∧ isNumberChar c = false ∧ c ≠ '.'
  name_ne : p.name.toList ≠ []
  fits : p.count * p.unit.perItem ≤ Decimal.wordMax

variable {p : Part}

theorem isNumberChar_of_isDigit {c : Char} (h : c.isDigit = true) : isNumberChar c = true := by
  simp [isNumberChar, h]

theorem one_le_perItem (u : TimeUnit) : 1 ≤ u.perItem := by
  cases u <;> decide

theorem Readable.count_le (h : p.Readable) : p.count ≤ Decimal.wordMax :=
  Nat.le_trans (Nat.le_mul_of_pos_right _ (one_le_perItem p.unit)) h.fits

theorem wholePart?_digits {n : Nat} (h : n ≤ Decimal.wordMax) : wholePart? (Decimal.ofNat n) = some n := by
  have hdigits : (Decimal.ofNat n).filter Char.isDigit = Decimal.ofNat n :=
    List.filter_eq_self.2 fun c hc => Decimal.isDigit_of_mem_ofNat hc
  rw [wholePart?, hdigits, Decimal.value?_ofNat]
  simp [h]

theorem readNumber?_text {rest : List Char} (h : p.Readable) :
    readNumber? (p.text ++ rest) = some (⟨p.count, none⟩, p.name.toList ++ rest) := by
  obtain ⟨c, name, hname⟩ := List.exists_cons_of_ne_nil h.name_ne
  obtain ⟨-, hstop, hpoint⟩ := h.letters c (by simp [hname])
  have hdigits : ∀ d ∈ Decimal.ofNat p.count, isNumberChar d = true := fun d hd =>
    isNumberChar_of_isDigit (Decimal.isDigit_of_mem_ofNat hd)
  have hhead : ∀ d ∈ (p.name.toList ++ rest).head?, isNumberChar d = false := by
    intro d hd
    have : d = c := by simpa [hname, eq_comm] using hd
    rw [this, hstop]
  have htake : (p.text ++ rest).takeWhile isNumberChar = Decimal.ofNat p.count := by
    rw [text, List.append_assoc]
    exact Text.takeWhile_run hdigits hhead
  have hdrop : (p.text ++ rest).dropWhile isNumberChar = p.name.toList ++ rest := by
    rw [text, List.append_assoc]
    exact Text.dropWhile_run hdigits hhead
  simp only [readNumber?, htake, hdrop, wholePart?_digits h.count_le, Option.bind_eq_bind, Option.bind_some]
  split
  · rename_i r hr
    rw [hname] at hr
    exact absurd (List.cons.inj hr).1 hpoint
  · rfl

/-- one part is one item, at the end or before a blank -/
theorem readItem?_part {rest : List Char} (h : p.Readable) (hrest : ∀ c ∈ rest.head?, c = ' ') :
    readItem? (p.text ++ rest) = some (p.nanos, rest) := by
  obtain ⟨d, digits, hdigits⟩ := List.exists_cons_of_ne_nil (Decimal.ofNat_ne_nil p.count)
  have hfirst : (p.text ++ rest).head? = some d := by simp [text, hdigits]
  have hd : d.isDigit = true := Decimal.isDigit_of_mem_ofNat (n := p.count) (by simp [hdigits])
  have hletters : ∀ c ∈ p.name.toList, isUnitChar c = true := fun c hc => (h.letters c hc).1
  have hstop : ∀ c ∈ rest.head?, isUnitChar c = false := fun c hc => by rw [hrest c hc]; decide
  have hname : (p.name.toList ++ rest).takeWhile isUnitChar = p.name.toList := Text.takeWhile_run hletters hstop
  have hafter : (p.name.toList ++ rest).dropWhile isUnitChar = rest := Text.dropWhile_run hletters hstop
  have hnanos : itemNanos? ⟨p.count, none⟩ p.unit = some p.nanos := by
    simp [itemNanos?, TimeUnit.whole?, h.fits, nanos]
  simp only [readItem?, hfirst, hd, readNumber?_text h, hname, String.ofList_toList, h.unit_name, hnanos, hafter,
    Option.bind_eq_bind, Option.bind_some, Bool.not_true, Bool.false_eq_true, if_false]
  cases rest with
  | nil => rfl
  | cons c rest =>
    rw [hrest c rfl]
    rfl

theorem isBlank_of_isDigit {c : Char} (h : c.isDigit = true) : Text.isBlank c = false := by
  have hlt : c.toNat < 128 := Text.toNat_lt_of_isAlphanum (by simp [Char.isAlphanum, h])
  refine Text.of_codePoints (P := fun c => c.isDigit = true → Text.isBlank c = false) ?_ hlt h
  decide

/-- a part starts with a digit -/
theorem text_cons (p : Part) : ∃ c s, p.text = c :: s ∧ Text.isBlank c = false := by
  obtain ⟨c, digits, hdigits⟩ := List.exists_cons_of_ne_nil (Decimal.ofNat_ne_nil p.count)
  have hc : c.isDigit = true := Decimal.isDigit_of_mem_ofNat (n := p.count) (by simp [hdigits])
  exact ⟨c, digits ++ p.name.toList, by rw [text, hdigits]; rfl, isBlank_of_isDigit hc⟩

/-- a part ends with a letter -/
theorem text_last (h : p.Readable) : ∀ c ∈ p.text.getLast?, Text.isBlank c = false := by
  intro c hc
  have hlast : p.text.getLast? = p.name.toList.getLast? := by
    rw [text, List.getLast?_append, List.getLast?_eq_some_getLast h.name_ne]
    rfl
  rw [hlast] at hc
  have hnot := (h.letters c (List.mem_of_getLast? hc)).2.1
  simp only [isNumberChar, Bool.decide_or, Bool.or_eq_false_iff, decide_eq_false_iff_not, Bool.not_eq_true] at hnot
  exact hnot.2

end Part

/-! ## Rows of parts -/

def total : List Part → Nat
  | [] => 0
  | p :: ps => p.nanos + total ps

/-- parts, each after a blank -/
def spaced (ps : List Part) : List Char :=
  ps.flatMap fun p => ' ' :: p.text

theorem intercalate_eq_spaced (p : Part) (ps : List Part) :
    [' '].intercalate ((p :: ps).map Part.text) = p.text ++ spaced ps := by
  induction ps generalizing p with
  | nil => simp [spaced, List.intercalate]
  | cons q ps ih =>
    have hstep : [' '].intercalate ((p :: q :: ps).map Part.text) =
        p.text ++ ' ' :: [' '].intercalate ((q :: ps).map Part.text) := by
      simp [List.intercalate]
    rw [hstep, ih]
    simp [spaced]

theorem spaced_head (ps : List Part) : ∀ c ∈ (spaced ps).head?, c = ' ' := by
  cases ps with
  | nil => simp [spaced]
  | cons p ps => simp [spaced, eq_comm]

theorem length_le_spaced (ps : List Part) : ps.length ≤ (spaced ps).length := by
  induction ps with
  | nil => exact Nat.zero_le _
  | cons p ps ih =>
    simp only [spaced, List.flatMap_cons, List.length_append, List.length_cons] at ih ⊢
    omega

/-- a row of parts starts with a digit -/
theorem head_row (p : Part) (ps : List Part) : ∀ c ∈ (p.text ++ spaced ps).head?, Text.isBlank c = false := by
  obtain ⟨c, t, htext, hc⟩ := p.text_cons
  simpa [htext] using hc

/-- a row of parts ends with a letter -/
theorem last_row {p : Part} {ps : List Part} (hp : p.Readable) (hps : ∀ q ∈ ps, q.Readable) :
    ∀ c ∈ (p.text ++ spaced ps).getLast?, Text.isBlank c = false := by
  induction ps generalizing p with
  | nil => simpa [spaced] using Part.text_last hp
  | cons q ps ih =>
    intro c hc
    have hrow : p.text ++ spaced (q :: ps) = (p.text ++ [' ']) ++ (q.text ++ spaced ps) := by simp [spaced]
    obtain ⟨d, t, htext, -⟩ := q.text_cons
    have hne : q.text ++ spaced ps ≠ [] := by simp [htext]
    rw [hrow, List.getLast?_append, List.getLast?_eq_some_getLast hne] at hc
    refine ih (hps q (by simp)) (fun r hr => hps r (by simp [hr])) c ?_
    rwa [List.getLast?_eq_some_getLast hne]

/-- reading takes the part that a text starts with, blanks before it aside -/
theorem readItems?_part {p : Part} {s rest : List Char} {fuel acc : Nat} (hp : p.Readable)
    (hs : Text.trimLeft s = p.text ++ rest) (hrest : ∀ c ∈ rest.head?, c = ' ') (hmax : acc + p.nanos ≤ maxNanos) :
    readItems? (fuel + 1) acc s = readItems? fuel (acc + p.nanos) rest := by
  have hitem := Part.readItem?_part hp hrest
  obtain ⟨c, t, htext, -⟩ := p.text_cons
  rw [htext, List.cons_append] at hs hitem
  simp only [readItems?, hs, hitem, Option.bind_eq_bind, Option.bind_some, if_pos hmax]

/-- parts in a row mean their sum -/
theorem readItems?_spaced {ps : List Part} {fuel acc : Nat} (hps : ∀ p ∈ ps, p.Readable)
    (hmax : acc + total ps ≤ maxNanos) (hfuel : ps.length < fuel) :
    readItems? fuel acc (spaced ps) = some (acc + total ps) := by
  induction ps generalizing fuel acc with
  | nil =>
    obtain ⟨fuel, rfl⟩ : ∃ k, fuel = k + 1 := ⟨fuel - 1, by simp at hfuel; omega⟩
    rfl
  | cons p ps ih =>
    obtain ⟨fuel, rfl⟩ : ∃ k, fuel = k + 1 := ⟨fuel - 1, by simp at hfuel; omega⟩
    have htotal : total (p :: ps) = p.nanos + total ps := rfl
    have htrim : Text.trimLeft (spaced (p :: ps)) = p.text ++ spaced ps := by
      obtain ⟨c, t, htext, hc⟩ := p.text_cons
      have hblank : Text.isBlank ' ' = true := by decide
      simp [spaced, Text.trimLeft, htext, hc, hblank]
    have hlen : ps.length < fuel := by simpa using hfuel
    calc readItems? (fuel + 1) acc (spaced (p :: ps))
        = readItems? fuel (acc + p.nanos) (spaced ps) :=
          readItems?_part (hps p (by simp)) htrim (spaced_head ps) (by omega)
      _ = some (acc + p.nanos + total ps) := ih (fun q hq => hps q (by simp [hq])) (by omega) hlen
      _ = some (acc + total (p :: ps)) := by rw [htotal, Nat.add_assoc]

/-- a row of parts means the sum of all -/
theorem readItems?_row {p : Part} {ps : List Part} (hp : p.Readable) (hps : ∀ q ∈ ps, q.Readable)
    (hmax : p.nanos + total ps ≤ maxNanos) :
    readItems? ((p.text ++ spaced ps).length + 1) 0 (p.text ++ spaced ps) = some (p.nanos + total ps) := by
  have hlen : ps.length < (p.text ++ spaced ps).length := by
    have hspaced := length_le_spaced ps
    obtain ⟨c, t, htext, -⟩ := p.text_cons
    simp only [htext, List.length_append, List.length_cons]
    omega
  calc readItems? ((p.text ++ spaced ps).length + 1) 0 (p.text ++ spaced ps)
      = readItems? (p.text ++ spaced ps).length (0 + p.nanos) (spaced ps) :=
        readItems?_part hp (Text.trimLeft_of_head (head_row p ps)) (spaced_head ps) (by omega)
    _ = some (0 + p.nanos + total ps) := readItems?_spaced hps (by omega) hlen
    _ = some (p.nanos + total ps) := by rw [Nat.zero_add]

/-! ## The parts of a span -/

/-- a part, unless it is zero -/
def part (n : Nat) (name : String) (u : TimeUnit) : List Part :=
  if n = 0 then [] else [⟨n, name, u⟩]

/-- a spelled-out name with its plural -/
def plural (n : Nat) (name : String) : String :=
  if n = 1 then name else name ++ "s"

/-- the parts of a span, largest first -/
def parts (d : Duration) : List Part :=
  let yearRest := d.secs % 31557600
  let monthRest := yearRest % 2630016
  let dayRest := monthRest % 86400
  part (d.secs / 31557600) (plural (d.secs / 31557600) "year") .year ++
    part (yearRest / 2630016) (plural (yearRest / 2630016) "month") .month ++
    part (monthRest / 86400) (plural (monthRest / 86400) "day") .day ++ part (dayRest / 3600) "h" .hour ++
    part (dayRest % 3600 / 60) "m" .minute ++ part (dayRest % 60) "s" .second ++
    part (d.subsecNanos / 1000000) "ms" .millisecond ++ part (d.subsecNanos / 1000 % 1000) "us" .microsecond ++
    part (d.subsecNanos % 1000) "ns" .nanosecond

theorem part_text (n : Nat) (name : String) (u : TimeUnit) :
    (part n name u).map Part.text = (item n name).map String.toList := by
  unfold item part
  split
  · rfl
  · rw [List.map_singleton, List.map_singleton, String.toList_append, Decimal.toString_eq_ofNat]
    rfl

theorem parts_text (d : Duration) : (parts d).map Part.text = (items d).map String.toList := by
  simp only [items, parts, pluralItem, plural, List.map_append, part_text]

theorem total_part (n : Nat) (name : String) (u : TimeUnit) : total (part n name u) = n * u.perItem * u.tick := by
  unfold part
  split
  · rename_i hn
    simp [total, hn]
  · simp [total, Part.nanos]

theorem total_append (ps qs : List Part) : total (ps ++ qs) = total ps + total qs := by
  induction ps with
  | nil => exact (Nat.zero_add _).symm
  | cons p ps ih =>
    calc total (p :: ps ++ qs) = p.nanos + total (ps ++ qs) := rfl
      _ = p.nanos + (total ps + total qs) := by rw [ih]
      _ = total (p :: ps) + total qs := (Nat.add_assoc ..).symm

/-- the parts of a span mean the span -/
theorem total_parts (d : Duration) : total (parts d) = d.nanos := by
  simp only [parts, total_append, total_part, TimeUnit.perItem, TimeUnit.tick, nanosPerSec, Duration.secs,
    Duration.subsecNanos]
  omega

/-- a name that a count of items may stand before -/
def IsSpelling (name : String) (u : TimeUnit) : Prop :=
  unit? name = some u ∧ name.toList ≠ [] ∧
    ∀ c ∈ name.toList, isUnitChar c = true ∧ isNumberChar c = false ∧ c ≠ '.'

-- the letters are run through, not all characters there are
instance (name : String) (u : TimeUnit) : Decidable (IsSpelling name u) :=
  have : Decidable (∀ c ∈ name.toList, isUnitChar c = true ∧ isNumberChar c = false ∧ c ≠ '.') :=
    List.decidableBAll _ _
  inferInstanceAs (Decidable (_ ∧ _ ∧ _))

theorem plural_spelling {name : String} {u : TimeUnit} (n : Nat) (hone : IsSpelling name u)
    (hmany : IsSpelling (name ++ "s") u) : IsSpelling (plural n name) u := by
  unfold plural
  split
  · exact hone
  · exact hmany

theorem part_readable {n : Nat} {name : String} {u : TimeUnit} (hname : IsSpelling name u)
    (hfits : n * u.perItem ≤ Decimal.wordMax) : ∀ p ∈ part n name u, p.Readable := by
  obtain ⟨hunit, hne, hletters⟩ := hname
  intro p hp
  unfold part at hp
  split at hp
  · cases hp
  · obtain rfl := List.mem_singleton.1 hp
    exact ⟨hunit, hletters, hne, hfits⟩

theorem secs_le (d : Duration) : d.secs ≤ Decimal.wordMax := by
  have := d.le_max
  simp only [Duration.secs, nanosPerSec, maxNanos, Decimal.wordMax] at this ⊢
  omega

theorem parts_readable (d : Duration) : ∀ p ∈ parts d, p.Readable := by
  have hsecs := secs_le d
  have hsub : d.subsecNanos < 1000000000 := Nat.mod_lt _ (by decide)
  simp only [Decimal.wordMax] at hsecs
  simp only [parts, List.mem_append]
  rintro p ((((((((hp | hp) | hp) | hp) | hp) | hp) | hp) | hp) | hp)
  all_goals refine part_readable ?_ ?_ p hp
  -- years, months and days are spelled out and have a plural, the smaller units have one spelling
  any_goals exact plural_spelling _ (by decide) (by decide)
  any_goals decide
  -- what is left is that no part is larger than the span
  all_goals
    simp only [TimeUnit.perItem, Decimal.wordMax]
    omega

/-! ## Writing and reading -/

/-- a phrase that is written means the span it was written for -/
theorem read?_write (d : Duration) : read? (String.ofList (Text.trim (write d).toList)) = some d := by
  by_cases hzero : d.isZero = true
  · have hd : d.nanos = 0 := of_decide_eq_true hzero
    rw [show d = .zero from Duration.eq_of_nanos hd]
    decide
  · have hnanos : d.nanos ≠ 0 := by simpa [Duration.isZero] using hzero
    have hmax : d.nanos ≤ maxNanos := d.le_max
    cases hps : parts d with
    | nil => exact absurd (total_parts d) (by rw [hps]; exact fun h => hnanos h.symm)
    | cons p ps =>
      have hall := parts_readable d
      rw [hps] at hall
      have hp : p.Readable := hall p (by simp)
      have hrest : ∀ q ∈ ps, q.Readable := fun q hq => hall q (by simp [hq])
      have htotal : p.nanos + total ps = d.nanos := by rw [← total_parts d, hps]; rfl
      have htext : (write d).toList = p.text ++ spaced ps := by
        rw [write, if_neg hzero, String.toList_intercalate, ← parts_text, hps]
        exact intercalate_eq_spaced p ps
      have hhead := head_row p ps
      have hne : (p.text ++ spaced ps).isEmpty = false := by
        obtain ⟨c, t, htext, -⟩ := p.text_cons
        simp [htext]
      have hitems := readItems?_row hp hrest (htotal ▸ hmax)
      rw [htotal] at hitems
      rw [htext, Text.trim_of_ends hhead (last_row hp hrest), read?, String.toList_ofList,
        Text.trimLeft_of_head hhead, if_neg (by simp [hne]), hitems]
      exact dif_pos d.le_max

end LoadGen.Phrase
