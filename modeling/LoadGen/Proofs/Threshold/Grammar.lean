/-
The grammar of thresholds. Blanks aside, a threshold on status codes is `in` with a list of codes in braces or brackets,
and any other one is an aggregation, an operator and a value.

- `isWordChar`: what aggregations and values are written with. No operator is, so an operator always stands between them
  and can be told from them.
- `LeftMeans`, `Items`, `Demands`: the grammar, without any order in which things are looked for.
- `operator?_of_free`: looking for the longer operators first finds the one operator that there is.
- `read_eq_ok_iff`: what is read is exactly what the grammar allows, with what it demands, and a comparison comes apart
  in one way only.
-/
import Mathlib.Data.List.Infix
import LoadGen.Proofs.Decimal.Characters
import LoadGen.Proofs.Steps
import LoadGen.Proofs.Text.Cut
import LoadGen.Threshold.Reader

namespace LoadGen.Threshold

variable {s left right : List Char} {c : Char} {target : Metric} {fixed : Option Aggregation} {a : Aggregation}

/-! ## Words -/

/-- a character of aggregations, values, status codes and names of metrics -/
def isWordChar (c : Char) : Bool :=
  Decimal.isNumeral c || c ∈ ['(', ')', '_']

/-- the texts that are made of such characters only -/
def IsWord (s : List Char) : Prop :=
  ∀ c ∈ s, isWordChar c = true

theorem isWordChar_of_isNumeral (h : Decimal.isNumeral c = true) : isWordChar c = true := by
  rw [isWordChar, h, Bool.true_or]

theorem toNat_lt_of_isWordChar (h : isWordChar c = true) : c.toNat < 128 := by
  simp only [isWordChar, Decimal.isNumeral, Bool.or_eq_true, decide_eq_true_eq] at h
  rcases h with (h | h) | h
  · exact Text.toNat_lt_of_isAlphanum h
  · exact Text.toNat_lt_of_mem (by decide) h
  · exact Text.toNat_lt_of_mem (by decide) h

/-- operators, blanks, colons and commas stand outside of words -/
theorem wordChar_rules (h : isWordChar c = true) : endsMetric c = false ∧ c ≠ ':' ∧ c ≠ ',' := by
  refine Text.of_codePoints (P := fun c => isWordChar c = true → endsMetric c = false ∧ c ≠ ':' ∧ c ≠ ',') ?_
    (toNat_lt_of_isWordChar h) h
  decide

theorem percentileText?_cases {inner : List Char} (h : percentileText? s = some inner) :
    s = 'p' :: '(' :: (inner ++ [')']) ∨ s = 'p' :: inner := by
  unfold percentileText? at h
  split at h
  · rename_i hs
    cases h
    exact .inl (Text.enclosed_eq_some.1 hs)
  · exact .inr (Text.afterStart?_eq_some.1 h)

theorem isWord_of_aggregation? (h : aggregation? s = some a) : s ≠ [] ∧ IsWord s := by
  have hword {name : List Char} (hs : Text.lowerAscii s = name) (hne : name ≠ []) (hname : IsWord name) :
      s ≠ [] ∧ IsWord s := by
    refine ⟨fun hnil => hne (by rw [← hs, hnil]; rfl), Text.of_lowerAscii (fun c hc => ?_) (hs ▸ hname)⟩
    exact isWordChar_of_isNumeral (Decimal.isNumeral_of_isAlphanum hc)
  have hnamed {name : String} (hs : String.ofList (Text.lowerAscii s) = name) (hne : name.toList ≠ [])
      (hname : IsWord name.toList) : s ≠ [] ∧ IsWord s :=
    hword (by rw [← hs, String.toList_ofList]) hne hname
  unfold aggregation? at h
  simp only at h
  split at h
  case h_7 =>
    obtain ⟨inner, hinner, h⟩ := Option.bind_eq_some_iff.1 h
    obtain ⟨p, hp, -⟩ := Option.bind_eq_some_iff.1 h
    have hfigure : IsWord inner := fun c hc => isWordChar_of_isNumeral ((Decimal.isNumeral_of_readFloat? hp).2 c hc)
    rcases percentileText?_cases hinner with hs | hs
    · refine hword hs (List.cons_ne_nil _ _) ?_
      refine List.forall_mem_cons.2 ⟨by decide, List.forall_mem_cons.2 ⟨by decide, ?_⟩⟩
      exact List.forall_mem_append.2 ⟨hfigure, List.forall_mem_singleton.2 (by decide)⟩
    · exact hword hs (List.cons_ne_nil _ _) (List.forall_mem_cons.2 ⟨by decide, hfigure⟩)
  all_goals
    rename_i hs
    exact hnamed hs (by decide) (List.all_eq_true.1 (by decide))

theorem isWord_of_readFloat? {x : Float} (h : Decimal.readFloat? s = some x) : s ≠ [] ∧ IsWord s := by
  obtain ⟨hne, hall⟩ := Decimal.isNumeral_of_readFloat? h
  exact ⟨hne, fun c hc => isWordChar_of_isNumeral (hall c hc)⟩

/-! ## The grammar -/

/-- how a comparison is written -/
def Comparison.token : Comparison → List Char
  | .lt => ['<']
  | .le => ['<', '=']
  | .gt => ['>']
  | .ge => ['>', '=']
  | .eq => ['=', '=']
  | .ne => ['!', '=']

/-- a percentile lies above 0 and reaches to 100 -/
def Aggregation.InRange : Aggregation → Prop
  | .percentile p => 0.0 < p ∧ p ≤ 100.0
  | .avg | .min | .max | .med | .count | .rate => True

/-- what stands left of an operator, with the aggregation that it means for a metric -/
inductive LeftMeans (target : Metric) (fixed : Option Aggregation) : List Char → Aggregation → Prop where
  /-- nothing: the aggregation in the metric's name, or else the metric's default -/
  | bare {a : Aggregation} (default : fixed.or target.default? = some a) : LeftMeans target fixed [] a
  /-- an aggregation, if there is none in the metric's name -/
  | named {left : List Char} {a : Aggregation} (free : fixed = none) (means : aggregation? left = some a) :
    LeftMeans target fixed left a

/-- the items of a list of status codes, with the codes; empty items are passed over -/
inductive Items : List (List Char) → List Nat → Prop where
  | nil : Items [] []
  | blank {items : List (List Char)} {codes : List Nat} (rest : Items items codes) : Items ([] :: items) codes
  | code {item : List Char} {n : Nat} {items : List (List Char)} {codes : List Nat}
      (word : Decimal.readWord? 10 65535 item = some n) (range : 100 ≤ n ∧ n ≤ 599) (rest : Items items codes) :
      Items (item :: items) (n :: codes)

/-- an expression without blanks, with what it demands of a metric -/
inductive Demands (target : Metric) (fixed : Option Aggregation) : List Char → Check → Prop where
  /-- `in` and the codes, in braces or in brackets -/
  | statusIn {brackets : Char × Char} {items : List (List Char)} {codes : List Nat} (status : target = .status)
      (enclosed : brackets = ('\x7b', '\x7d') ∨ brackets = ('[', ']')) (codes_of : Items items codes)
      (nonempty : codes ≠ []) :
      Demands target fixed (['i', 'n'] ++ brackets.1 :: (List.intercalate [','] items ++ [brackets.2]))
        (.statusIn codes)
  /-- aggregation, operator and value -/
  | compare {left right : List Char} {op : Comparison} {a : Aggregation} {x : Float} (other : target ≠ .status)
      (means : LeftMeans target fixed left a) (range : a.InRange) (accepts : target.accepts a = true)
      (value : Decimal.readFloat? right = some x) :
      Demands target fixed (left ++ op.token ++ right) (.compare a op x)

/-- a text comes apart into what may be an aggregation, or nothing, an operator and a value -/
def ComesApart (s left : List Char) (op : Comparison) (right : List Char) : Prop :=
  s = left ++ op.token ++ right ∧ (left = [] ∨ (aggregation? left).isSome) ∧ (Decimal.readFloat? right).isSome

/-! ## Operators -/

theorem eq_of_operator? {op : Comparison} (h : operator? s = some (op, left, right)) :
    s = left ++ op.token ++ right := by
  obtain ⟨o, ho, h⟩ := List.exists_of_findSome?_eq_some h
  obtain ⟨p, hp, heq⟩ := Option.map_eq_some_iff.1 h
  cases heq
  rw [Text.eq_of_splitAt? hp]
  have htoken : ∀ o ∈ operators, o.1 = o.2.token := by decide
  rw [htoken o ho]

/-- what is looked for before an operator does not occur in it -/
theorem operators_before (op : Comparison) : ∃ before after, operators = before ++ (op.token, op) :: after ∧
    ∀ o ∈ before, (∀ c ∈ o.1, endsMetric c = true) ∧ ¬ o.1 <:+: op.token := by
  have hends : ∀ o ∈ operators, o.1.all endsMetric = true := by decide
  obtain ⟨before, after, hsplit, hnot⟩ : ∃ before after, operators = before ++ (op.token, op) :: after ∧
      ∀ o ∈ before, ¬ o.1 <:+: op.token := by
    cases op with
    | le => exact ⟨operators.take 0, operators.drop 1, rfl, by decide⟩
    | ge => exact ⟨operators.take 1, operators.drop 2, rfl, by decide⟩
    | eq => exact ⟨operators.take 2, operators.drop 3, rfl, by decide⟩
    | ne => exact ⟨operators.take 3, operators.drop 4, rfl, by decide⟩
    | lt => exact ⟨operators.take 4, operators.drop 5, rfl, by decide⟩
    | gt => exact ⟨operators.take 5, operators.drop 6, rfl, by decide⟩
  refine ⟨before, after, hsplit, fun o ho => ⟨List.all_eq_true.1 (hends o ?_), hnot o ho⟩⟩
  rw [hsplit]
  exact List.mem_append_left _ ho

theorem filter_endsMetric (h : IsWord s) : s.filter endsMetric = [] :=
  List.filter_eq_nil_iff.2 fun c hc => by rw [(wordChar_rules (h c hc)).1]; decide

/-- **The one operator is found.** Between words there is nothing else that could be taken for an operator. -/
theorem operator?_of_free (op : Comparison) (hleft : IsWord left) (hright : IsWord right) :
    operator? (left ++ op.token ++ right) = some (op, left, right) := by
  have htoken : op.token.filter endsMetric = op.token := by cases op <;> decide
  have hmarks : (left ++ op.token ++ right).filter endsMetric = op.token := by
    rw [List.filter_append, List.filter_append, filter_endsMetric hleft, filter_endsMetric hright, htoken,
      List.nil_append, List.append_nil]
  have hnone {token : List Char} (htoken : ∀ c ∈ token, endsMetric c = true) (hwithin : ¬ token <:+: op.token) :
      Text.splitAt? token (left ++ op.token ++ right) = none := by
    refine Option.eq_none_iff_forall_ne_some.2 fun p hp => hwithin ?_
    have hfilter := congrArg (List.filter endsMetric) (Text.eq_of_splitAt? hp)
    rw [hmarks, List.filter_append, List.filter_append, List.filter_eq_self.2 htoken] at hfilter
    exact ⟨_, _, hfilter.symm⟩
  have hfound : Text.splitAt? op.token (left ++ op.token ++ right) = some (left, right) := by
    obtain ⟨first, rest, hop⟩ : ∃ first rest, op.token = first :: rest := by cases op <;> exact ⟨_, _, rfl⟩
    have hfirst : endsMetric first = true := by
      have hmem : first ∈ op.token.filter endsMetric := by rw [htoken, hop]; exact List.mem_cons_self
      exact (List.mem_filter.1 hmem).2
    rw [hop]
    refine Text.splitAt?_first fun c hc heq => ?_
    rw [← heq, (wordChar_rules (hleft c hc)).1] at hfirst
    cases hfirst
  obtain ⟨before, after, hsplit, hbefore⟩ := operators_before op
  rw [operator?, hsplit, List.findSome?_append, List.findSome?_eq_none_iff.2]
  · simp only [List.findSome?_cons, hfound, Option.map_some, Option.none_or]
  · intro o ho
    obtain ⟨htoken, hwithin⟩ := hbefore o ho
    rw [hnone htoken hwithin]
    rfl

theorem ComesApart.operator? {op : Comparison} (h : ComesApart s left op right) :
    operator? s = some (op, left, right) := by
  obtain ⟨rfl, hleft, hright⟩ := h
  obtain ⟨x, hx⟩ := Option.isSome_iff_exists.1 hright
  refine operator?_of_free op ?_ (isWord_of_readFloat? hx).2
  rcases hleft with rfl | hleft
  · intro c hc; cases hc
  · obtain ⟨a, ha⟩ := Option.isSome_iff_exists.1 hleft
    exact (isWord_of_aggregation? ha).2

/-! ## Comparisons -/

theorem leftSide_eq_ok_iff : leftSide target fixed left = .ok a ↔ LeftMeans target fixed left a := by
  constructor
  · intro h
    unfold leftSide at h
    split at h <;> rename_i hleft
    · cases h
      rw [List.isEmpty_iff.1 hleft]
      exact .bare rfl
    · split at h <;> cases h
      rename_i hdefault
      rw [List.isEmpty_iff.1 hleft]
      exact .bare hdefault
    · cases h
    · split at h <;> cases h
      rename_i hmeans
      exact .named rfl hmeans
  · intro h
    cases h with
    | bare hdefault =>
      cases fixed with
      | none => simp only [Option.none_or] at hdefault; simp only [leftSide, List.isEmpty_nil, hdefault]
      | some b => cases hdefault; rfl
    | named hfree hmeans =>
      have hne : left.isEmpty = false := by
        rw [List.isEmpty_eq_false_iff]
        exact (isWord_of_aggregation? hmeans).1
      simp only [leftSide, hne, hfree, hmeans]

theorem inRange_eq_ok_iff : inRange a = .ok () ↔ a.InRange := by
  cases a with
  | percentile p =>
    simp only [inRange, Aggregation.InRange]
    split <;> simp_all
  | _ => simp [inRange, Aggregation.InRange]

theorem LeftMeans.isWord (h : LeftMeans target fixed left a) : IsWord left := by
  cases h with
  | bare => exact fun c hc => (List.not_mem_nil hc).elim
  | named _ hmeans => exact (isWord_of_aggregation? hmeans).2

theorem LeftMeans.isSide (h : LeftMeans target fixed left a) : left = [] ∨ (aggregation? left).isSome := by
  cases h with
  | bare => exact .inl rfl
  | named _ hmeans => exact .inr (by rw [hmeans]; rfl)

theorem readComparison_eq_ok_iff {check : Check} (htarget : target ≠ .status) :
    readComparison s target fixed = .ok check ↔ Demands target fixed s check := by
  constructor
  · intro h
    unfold readComparison at h
    split at h
    · cases h
    · rename_i op left right hop
      rw [eq_of_operator? hop]
      obtain ⟨-, h⟩ := guard_eq_ok.1 h
      obtain ⟨a, hleft, h⟩ := bind_eq_ok.1 h
      obtain ⟨_, hrange, h⟩ := bind_eq_ok.1 h
      split at h
      · rename_i haccepts
        cases hvalue : Decimal.readFloat? right with
        | none => rw [hvalue] at h; cases h
        | some x =>
          rw [hvalue] at h
          cases h
          exact .compare htarget (leftSide_eq_ok_iff.1 hleft) (inRange_eq_ok_iff.1 hrange) haccepts hvalue
      · cases h
  · intro h
    cases h with
    | statusIn hstatus => exact absurd hstatus htarget
    | @compare left right op _ _ _ hmeans hrange haccepts hvalue =>
      have hparts : ComesApart _ left op right := ⟨rfl, hmeans.isSide, by rw [hvalue]; rfl⟩
      have hright := (isWord_of_readFloat? hvalue).1
      simp only [readComparison, hparts.operator?, List.isEmpty_iff, if_neg hright, leftSide_eq_ok_iff.2 hmeans, hvalue]
      exact bind_eq_ok.2 ⟨_, rfl, bind_eq_ok.2 ⟨(), inRange_eq_ok_iff.2 hrange, if_pos haccepts⟩⟩

/-! ## Status codes -/

theorem readStatus_eq_ok_iff {n : Nat} :
    readStatus s = .ok n ↔ Decimal.readWord? 10 65535 s = some n ∧ 100 ≤ n ∧ n ≤ 599 := by
  have hfilter : (Decimal.readWord? 10 65535 s).filter (fun n => 100 ≤ n ∧ n ≤ 599) = some n ↔
      Decimal.readWord? 10 65535 s = some n ∧ 100 ≤ n ∧ n ≤ 599 := by
    rw [Option.filter_eq_some_iff, decide_eq_true_iff]
  rw [← hfilter, readStatus]
  split <;> rename_i hword <;> rw [hword] <;> simp

theorem mapM_readStatus_iff {items : List (List Char)} {codes : List Nat} :
    (items.filter fun item => !item.isEmpty).mapM readStatus = .ok codes ↔ Items items codes := by
  induction items generalizing codes with
  | nil =>
    refine ⟨fun h => ?_, fun h => ?_⟩
    · cases h; exact .nil
    · cases h; rfl
  | cons item items ih =>
    cases item with
    | nil =>
      rw [List.filter_cons_of_neg (by decide), ih]
      refine ⟨.blank, fun h => ?_⟩
      cases h with
      | blank rest => exact rest
      | code word => exact absurd rfl (Decimal.isNumeral_of_readWord? word).1
    | cons c item =>
      rw [List.filter_cons_of_pos (by rfl), List.mapM_cons, bind_eq_ok]
      constructor
      · rintro ⟨n, hn, h⟩
        obtain ⟨rest, hrest, h⟩ := bind_eq_ok.1 h
        cases h
        obtain ⟨hword, hrange⟩ := readStatus_eq_ok_iff.1 hn
        exact .code hword hrange (ih.1 hrest)
      · intro h
        cases h with
        | code word range rest =>
          exact ⟨_, readStatus_eq_ok_iff.2 ⟨word, range⟩, bind_eq_ok.2 ⟨_, ih.2 rest, rfl⟩⟩

theorem Items.isWord {items : List (List Char)} {codes : List Nat} (h : Items items codes) :
    ∀ item ∈ items, IsWord item := by
  induction h with
  | nil => exact fun item hitem => (List.not_mem_nil hitem).elim
  | blank _ ih => exact List.forall_mem_cons.2 ⟨fun c hc => (List.not_mem_nil hc).elim, ih⟩
  | code word _ _ ih =>
    refine List.forall_mem_cons.2 ⟨fun c hc => ?_, ih⟩
    exact isWordChar_of_isNumeral ((Decimal.isNumeral_of_readWord? word).2 c hc)

theorem statusList?_eq_some_iff {inner : List Char} : statusList? s = some inner ↔
    ∃ brackets : Char × Char, (brackets = ('\x7b', '\x7d') ∨ brackets = ('[', ']')) ∧
      s = brackets.1 :: (inner ++ [brackets.2]) := by
  constructor
  · intro h
    unfold statusList? at h
    split at h
    · rename_i hs
      cases h
      exact ⟨_, .inl rfl, Text.enclosed_eq_some.1 hs⟩
    · exact ⟨_, .inr rfl, Text.enclosed_eq_some.1 h⟩
  · rintro ⟨brackets, rfl | rfl, rfl⟩
    · have hbraces : (Text.afterStart? ['\x7b'] ('\x7b' :: (inner ++ ['\x7d']))).bind (Text.beforeEnd? ['\x7d']) =
          some inner := Text.enclosed_eq_some.2 rfl
      unfold statusList?
      rw [hbraces]
    · have hbrackets : (Text.afterStart? ['['] ('[' :: (inner ++ [']']))).bind (Text.beforeEnd? [']']) = some inner :=
        Text.enclosed_eq_some.2 rfl
      have hother : Text.afterStart? ['\x7b'] ('[' :: (inner ++ [']'])) = none := rfl
      unfold statusList?
      rw [hother]
      exact hbrackets

theorem readStatusSet_eq_ok_iff {codes : List Nat} (htarget : target = .status) :
    readStatusSet s = .ok codes ↔ Demands target fixed s (.statusIn codes) := by
  constructor
  · intro h
    unfold readStatusSet at h
    split at h
    · cases h
    · rename_i body hbody
      split at h
      · cases h
      · rename_i inner hinner
        obtain ⟨codes', hcodes, h⟩ := bind_eq_ok.1 h
        obtain ⟨hsome, h⟩ := guard_eq_ok.1 h
        cases h
        obtain ⟨brackets, hbrackets, rfl⟩ := statusList?_eq_some_iff.1 hinner
        rw [Text.afterStart?_eq_some.1 hbody, ← Text.intercalate_splitAll ',' inner]
        exact .statusIn htarget hbrackets (mapM_readStatus_iff.1 hcodes) (by simpa using hsome)
  · intro h
    cases h with
    | @statusIn brackets items _ _ hbrackets hitems hsome =>
      have hne : items ≠ [] := by
        rintro rfl
        cases hitems
        exact hsome rfl
      have hlist : statusList? (brackets.1 :: (List.intercalate [','] items ++ [brackets.2])) = some _ :=
        statusList?_eq_some_iff.2 ⟨brackets, hbrackets, rfl⟩
      have hcommas : ∀ item ∈ items, ∀ c ∈ item, c ≠ ',' := fun item hitem c hc =>
        (wordChar_rules (hitems.isWord item hitem c hc)).2.2
      have hcodes := mapM_readStatus_iff.2 hitems
      unfold readStatusSet
      simp only [Text.afterStart?_eq_some.2 rfl, hlist]
      rw [Text.splitAll_intercalate hne hcommas, hcodes]
      exact if_neg (by simpa using hsome)

/-! ## Thresholds -/

/-- what an expression demands is never nothing -/
theorem Demands.ne_nil {check : Check} (h : Demands target fixed s check) : s ≠ [] := by
  cases h with
  | statusIn => exact List.cons_ne_nil _ _
  | compare _ _ _ _ value => exact List.append_ne_nil_of_right_ne_nil _ (isWord_of_readFloat? value).1

theorem readCheck_eq_ok_iff {name : String} {check : Check} :
    readCheck name s = .ok (target, check) ↔
      ∃ fixed, metric? name = some (target, fixed) ∧ Demands target fixed s check := by
  unfold readCheck
  cases hmetric : metric? name with
  | none => simp
  | some p =>
    obtain ⟨target', fixed⟩ := p
    simp only [Option.some.injEq, Prod.mk.injEq, List.isEmpty_iff, guard_eq_ok]
    constructor
    · rintro ⟨hne, h⟩
      split at h
      · obtain ⟨codes, hcodes, h⟩ := bind_eq_ok.1 h
        cases h
        exact ⟨fixed, ⟨rfl, rfl⟩, (readStatusSet_eq_ok_iff rfl).1 hcodes⟩
      · rename_i hother
        obtain ⟨check', hcheck, h⟩ := bind_eq_ok.1 h
        cases h
        exact ⟨fixed, ⟨rfl, rfl⟩, (readComparison_eq_ok_iff hother).1 hcheck⟩
    · rintro ⟨fixed', ⟨rfl, rfl⟩, h⟩
      refine ⟨h.ne_nil, ?_⟩
      split
      · cases h with
        | statusIn status enclosed codes_of nonempty =>
          have hset : Demands .status fixed _ _ := .statusIn status enclosed codes_of nonempty
          exact bind_eq_ok.2 ⟨_, (readStatusSet_eq_ok_iff rfl).2 hset, rfl⟩
        | compare other => exact absurd rfl other
      · rename_i hother
        exact bind_eq_ok.2 ⟨_, (readComparison_eq_ok_iff hother).2 h, rfl⟩

/-- **Thresholds are read by their grammar.** A threshold is read from a metric and an expression exactly if the metric,
trimmed, names one and the expression without its blanks is one of the grammar for it; what is read is what the grammar
demands, with the two texts trimmed. A comparison comes apart into an aggregation, or nothing, an operator and a value
in one way only. -/
theorem read_eq_ok_iff (metric expression : String) (t : Threshold) :
    (read metric expression = .ok t ↔
      t.metric = String.ofList (Text.trim metric.toList) ∧
      t.expression = String.ofList (Text.trim expression.toList) ∧
      ∃ fixed, metric? t.metric = some (t.target, fixed) ∧
        Demands t.target fixed (Text.compact expression.toList) t.check) ∧
    ∀ s left op right left' op' right', ComesApart s left op right → ComesApart s left' op' right' →
      left = left' ∧ op = op' ∧ right = right' := by
  refine ⟨⟨fun h => ?_, ?_⟩, fun s left op right left' op' right' h h' => ?_⟩
  · unfold read at h
    simp only at h
    split at h <;> cases h
    rename_i target check hcheck
    exact ⟨rfl, rfl, readCheck_eq_ok_iff.1 hcheck⟩
  · rintro ⟨hmetric, hexpression, fixed, htarget, hdemands⟩
    have hcheck := readCheck_eq_ok_iff.2 ⟨fixed, htarget, hdemands⟩
    unfold read
    simp only [← hmetric, hcheck, ← hexpression]
  · have heq := h.operator?.symm.trans h'.operator?
    cases heq
    exact ⟨rfl, rfl, rfl⟩

/-- the general theorem at two status codes, an item between them being empty, and at a mean -/
theorem read_eq_ok_iff_status :
    (∃ t fixed, read " status" "in [404,, 200]" = .ok t ∧ t.text = "status: in [404,, 200]" ∧
      Demands t.target fixed "in[404,,200]".toList t.check) ∧
    ComesApart "avg<=500".toList "avg".toList .le "500".toList ∧
    ∀ left op right, ComesApart "avg<=500".toList left op right →
      "avg".toList = left ∧ .le = op ∧ "500".toList = right := by
  have hread : (read " status" "in [404,, 200]").toOption.map text = some "status: in [404,, 200]" := by decide +kernel
  have hmean : ComesApart "avg<=500".toList "avg".toList .le "500".toList :=
    ⟨by decide +kernel, .inr (by decide +kernel), by decide +kernel⟩
  cases h : read " status" "in [404,, 200]" with
  | error e => rw [h] at hread; cases hread
  | ok t =>
    rw [h] at hread
    obtain ⟨hgrammar, hparts⟩ := read_eq_ok_iff " status" "in [404,, 200]" t
    obtain ⟨-, -, fixed, -, hdemands⟩ := hgrammar.1 h
    refine ⟨⟨t, fixed, rfl, Option.some.inj hread, ?_⟩, hmean, fun left op right => hparts _ _ _ _ _ _ _ hmean⟩
    have hcompact : Text.compact "in [404,, 200]".toList = "in[404,,200]".toList := by decide +kernel
    rwa [← hcompact]
end LoadGen.Threshold
