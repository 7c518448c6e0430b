/-
From a checked scenario to the requests that are sent. Checking reads a URL as browsers do; building reads it once more,
as the target of a request, and that reading corrects nothing.

- `PlainUrl`: URLs written out, from characters that stand for themselves; `read?_text` is what building reads there.
- `build_of_check`: a request of a checked scenario fails if its URL is no target, or if its headers have more names than
  a request holds; if neither, it is built, with all its headers. A URL that is written out is a target.
- `checked_not_built`: a URL with a blank in its path is checked, and no request is built for it.
-/
import LoadGen.Proofs.Scenario.Checks
import LoadGen.Proofs.Text.Characters

namespace LoadGen

namespace Web

/-! ## URLs that are written out -/

/-- a character of a host's name -/
def isNameChar (c : Char) : Bool :=
  c.isAlphanum || c = '-' || c = '.'

/-- a character that stands for itself in a path or a query, or starts an escape -/
def isPlainChar (c : Char) : Bool :=
  c.isAlphanum || c ∈ ['-', '.', '_', '~', '!', '$', '&', '\'', '(', ')', '*', '+', ',', ';', '=', ':', '@', '/', '%']

/-- a URL written out in its parts; the fragment may hold anything, since it is not sent -/
structure PlainUrl where
  scheme : List Char
  host : List Char
  /-- the digits after a colon -/
  port : Option (List Char)
  path : List Char
  /-- what follows a question mark -/
  query : Option (List Char)
  /-- what follows a hash -/
  fragment : Option (List Char)
  scheme_web : Text.lowerAscii scheme = "http".toList ∨ Text.lowerAscii scheme = "https".toList
  host_chars : ∀ c ∈ host, isNameChar c = true
  host_ne : host ≠ []
  port_chars : ∀ ds ∈ port, ∀ c ∈ ds, c.isDigit = true
  path_chars : ∀ c ∈ path, isPlainChar c = true
  path_start : ∀ c ∈ path.head?, c = '/'
  query_chars : ∀ q ∈ query, ∀ c ∈ q, isPlainChar c = true ∨ c = '?'

namespace PlainUrl

/-- a part with the character before it, if it is there -/
def marked (mark : Char) : Option (List Char) → List Char
  | none => []
  | some part => mark :: part

/-- host and port -/
def authority (p : PlainUrl) : List Char :=
  p.host ++ marked ':' p.port

/-- what follows the authority -/
def after (p : PlainUrl) : List Char :=
  p.path ++ (marked '?' p.query ++ marked '#' p.fragment)

def text (p : PlainUrl) : String :=
  String.ofList (p.scheme ++ ':' :: '/' :: '/' :: (p.authority ++ p.after))

end PlainUrl

theorem isNameChar_lt {c : Char} (h : isNameChar c = true) : c.toNat < 128 := by
  simp only [isNameChar, Bool.or_eq_true, decide_eq_true_eq] at h
  rcases h with (h | rfl) | rfl
  · exact Text.toNat_lt_of_isAlphanum h
  · decide
  · decide

theorem isPlainChar_lt {c : Char} (h : isPlainChar c = true) : c.toNat < 128 := by
  simp only [isPlainChar, Bool.or_eq_true, decide_eq_true_eq] at h
  rcases h with h | h
  · exact Text.toNat_lt_of_isAlphanum h
  · exact Text.toNat_lt_of_mem (by decide) h

/-- a character of a host's name, or of a port, does not end the authority and is none that an authority counts -/
theorem nameChar_rules {c : Char} (h : isNameChar c = true) :
    Target.endsAuthority c = false ∧ c ∉ [':', '[', ']', '@', '%'] ∧ (c.isAlphanum = true ∨ c = '-' ∨ c = '.') := by
  refine Text.of_codePoints (P := fun c => isNameChar c = true → Target.endsAuthority c = false ∧
    c ∉ [':', '[', ']', '@', '%'] ∧ (c.isAlphanum = true ∨ c = '-' ∨ c = '.')) ?_ (isNameChar_lt h) h
  decide

theorem see_nameChar {c : Char} (h : isNameChar c = true) (seen : Target.Seen) : Target.see seen c = some seen := by
  obtain ⟨-, hmark, hc⟩ := nameChar_rules h
  simp only [List.mem_cons, List.not_mem_nil, or_false, not_or] at hmark
  obtain ⟨hcolon, hopen, hclose, hat, hpercent⟩ := hmark
  rw [Target.see, if_neg hcolon, if_neg hopen, if_neg hclose, if_neg hat, if_neg hpercent, if_pos]
  rcases hc with hc | rfl | rfl
  · exact .inl hc
  · exact .inr (by decide)
  · exact .inr (by decide)

theorem isNameChar_of_isDigit {c : Char} (h : c.isDigit = true) : isNameChar c = true := by
  simp [isNameChar, Char.isAlphanum, h]

/-- names change nothing of what an authority has held -/
theorem foldlM_see_name (seen : Target.Seen) {s : List Char} (hs : ∀ c ∈ s, isNameChar c = true) :
    s.foldlM Target.see seen = some seen := by
  induction s with
  | nil => rfl
  | cons c s ih =>
    rw [List.foldlM_cons, see_nameChar (hs c (by simp))]
    exact ih fun d hd => hs d (by simp [hd])

/-- what stands for itself may stand in paths and queries, and ends neither -/
theorem plainChar_rules {c : Char} (h : isPlainChar c = true) :
    Target.isPathChar c = true ∧ Target.isQueryChar c = true ∧ c ≠ '?' ∧ c ≠ '#' := by
  refine Text.of_codePoints (P := fun c => isPlainChar c = true → Target.isPathChar c = true ∧
    Target.isQueryChar c = true ∧ c ≠ '?' ∧ c ≠ '#') ?_ (isPlainChar_lt h) h
  decide

namespace PlainUrl

variable (p : PlainUrl)

theorem mem_marked {mark c : Char} {part : Option (List Char)} (h : c ∈ marked mark part) :
    c = mark ∨ ∃ s ∈ part, c ∈ s := by
  cases part with
  | none => simp [marked] at h
  | some s => simpa [marked] using h

/-- the scheme is one of two names, so it is a name itself -/
theorem scheme_rules : 0 < p.scheme.length ∧ p.scheme.length ≤ 64 ∧ ∀ c ∈ p.scheme, c.isAlphanum = true := by
  have hlower : (Text.lowerAscii p.scheme).length = p.scheme.length := List.length_map _
  have hletters : ∀ c ∈ p.scheme, c.toLower ∈ Text.lowerAscii p.scheme := fun c hc => List.mem_map_of_mem hc
  have hname : 0 < (Text.lowerAscii p.scheme).length ∧ (Text.lowerAscii p.scheme).length ≤ 64 ∧
      (Text.lowerAscii p.scheme).all Char.isAlphanum = true := by
    rcases p.scheme_web with hweb | hweb <;> rw [hweb] <;> decide
  obtain ⟨hpos, hle, hall⟩ := hname
  rw [hlower] at hpos hle
  exact ⟨hpos, hle, fun c hc => Text.isAlphanum_of_toLower (List.all_eq_true.1 hall _ (hletters c hc))⟩

theorem authority_chars {c : Char} (h : c ∈ p.authority) : Target.endsAuthority c = false := by
  rcases List.mem_append.1 h with hc | hc
  · exact (nameChar_rules (p.host_chars c hc)).1
  · rcases mem_marked hc with rfl | ⟨ds, hds, hc⟩
    · decide
    · exact (nameChar_rules (isNameChar_of_isDigit (p.port_chars ds hds c hc))).1

/-- the parts behind the path start with their marks -/
theorem marks_head {c : Char} (h : c ∈ (marked '?' p.query ++ marked '#' p.fragment).head?) : c = '?' ∨ c = '#' := by
  cases hq : p.query with
  | some q =>
    rw [hq] at h
    exact .inl (by simpa [marked, eq_comm] using h)
  | none =>
    rw [hq] at h
    cases hf : p.fragment with
    | some f =>
      rw [hf] at h
      exact .inr (by simpa [marked, eq_comm] using h)
    | none => simp [hf, marked] at h

/-- after the authority comes a path, or what a mark sets off -/
theorem after_head {c : Char} (h : c ∈ p.after.head?) : Target.endsAuthority c = true := by
  cases hp : p.path with
  | nil =>
    rw [after, hp, List.nil_append] at h
    rcases p.marks_head h with rfl | rfl
    · decide
    · decide
  | cons d path =>
    have hc : c = d := by simpa [after, hp, eq_comm] using h
    have hd : d = '/' := p.path_start d (by simp [hp])
    rw [hc, hd]
    decide

/-- one colon at most, and nothing else that an authority counts -/
theorem isAuthority_authority : Target.isAuthority p.authority = true := by
  have hlast : p.authority.getLast? ≠ some '@' := by
    intro hat
    rcases List.mem_append.1 (List.mem_of_getLast? hat) with hc | hc
    · exact absurd (p.host_chars _ hc) (by decide)
    · rcases mem_marked hc with hc | ⟨ds, hds, hc⟩
      · exact absurd hc (by decide)
      · exact absurd (p.port_chars ds hds _ hc) (by decide)
  have hhost := foldlM_see_name ⟨0, false, false, false⟩ p.host_chars
  -- the colon before a port is the only character that is counted
  cases hport : p.port with
  | none =>
    have hseen : p.authority.foldlM Target.see ⟨0, false, false, false⟩ = some ⟨0, false, false, false⟩ := by
      rw [authority, hport, marked, List.append_nil, hhost]
    simp [Target.isAuthority, hseen, hlast]
  | some ds =>
    have hds := foldlM_see_name ⟨1, false, false, false⟩ fun c hc =>
      isNameChar_of_isDigit (p.port_chars ds hport c hc)
    have hseen : p.authority.foldlM Target.see ⟨0, false, false, false⟩ = some ⟨1, false, false, false⟩ := by
      rw [authority, hport, marked, List.foldlM_append, hhost]
      exact hds
    simp [Target.isAuthority, hseen, hlast]

theorem query?_ok {q : List Char} (hq : p.query = some q) :
    (q ++ marked '#' p.fragment).takeWhile (· ≠ '#') = q ∧ q.all Target.isQueryChar = true := by
  have hplain : ∀ c ∈ q, c ≠ '#' ∧ Target.isQueryChar c = true := by
    intro c hc
    rcases p.query_chars q hq c hc with hc | rfl
    · obtain ⟨-, hquery, -, hhash⟩ := plainChar_rules hc
      exact ⟨hhash, hquery⟩
    · decide
  constructor
  · refine Text.takeWhile_run (fun c hc => by simpa using (hplain c hc).1) fun c hc => ?_
    cases hf : p.fragment with
    | none => simp [hf, marked] at hc
    | some f =>
      have : c = '#' := by simpa [hf, marked, eq_comm] using hc
      simp [this]
  · exact List.all_eq_true.2 fun c hc => (hplain c hc).2

theorem path?_after : Target.path? p.after = some (String.ofList p.path, p.query.map String.ofList) := by
  have hpath : p.after.takeWhile (fun c => c ≠ '?' ∧ c ≠ '#') = p.path := by
    refine Text.takeWhile_run (fun c hc => ?_) fun c hc => ?_
    · obtain ⟨-, -, hquestion, hhash⟩ := plainChar_rules (p.path_chars c hc)
      simp [hquestion, hhash]
    · rcases p.marks_head hc with rfl | rfl
      · decide
      · decide
  have hall : p.path.all Target.isPathChar = true :=
    List.all_eq_true.2 fun c hc => (plainChar_rules (p.path_chars c hc)).1
  have hrest : p.after.drop p.path.length = marked '?' p.query ++ marked '#' p.fragment := List.drop_left
  simp only [Target.path?, hpath, hall, if_true, hrest]
  cases hq : p.query with
  | some q =>
    obtain ⟨htake, hquery⟩ := p.query?_ok hq
    have hmark : marked '?' (some q) = '?' :: q := rfl
    simp only [hmark, List.cons_append, htake, hquery, if_true, Option.map_some]
  | none =>
    cases hf : p.fragment with
    | none => rfl
    | some f => rfl

theorem scheme?_text : Target.scheme? p.text.toList =
    some (some (String.ofList (Text.lowerAscii p.scheme), p.authority ++ p.after)) := by
  obtain ⟨-, hle, hchars⟩ := p.scheme_rules
  have hname : p.text.toList.takeWhile Target.isSchemeChar = p.scheme := by
    rw [text, String.toList_ofList]
    refine Text.takeWhile_run (fun c hc => by simp [Target.isSchemeChar, hchars c hc]) fun c hc => ?_
    have : c = ':' := by simpa [eq_comm] using hc
    rw [this]
    decide
  have hrest : p.text.toList.drop p.scheme.length = ':' :: '/' :: '/' :: (p.authority ++ p.after) := by
    rw [text, String.toList_ofList, List.drop_left]
  have hweb : String.ofList (Text.lowerAscii p.scheme) = "http" ∨
      String.ofList (Text.lowerAscii p.scheme) = "https" := by
    rcases p.scheme_web with hs | hs
    · exact .inl (by rw [hs]; rfl)
    · exact .inr (by rw [hs]; rfl)
  simp only [Target.scheme?, hname, hrest]
  rw [if_neg (by omega), if_pos hweb]

/-- what building reads in a URL that is written out: its parts as they stand -/
theorem read?_text (hlong : p.text.utf8ByteSize ≤ Target.longest) : Target.read? p.text =
    some ⟨some (String.ofList (Text.lowerAscii p.scheme)), String.ofList p.authority, String.ofList p.path,
      p.query.map String.ofList⟩ := by
  obtain ⟨hpos, -, hchars⟩ := p.scheme_rules
  obtain ⟨c, scheme, hscheme⟩ := List.exists_cons_of_length_pos hpos
  have hlist : p.text.toList = c :: (scheme ++ ':' :: '/' :: '/' :: (p.authority ++ p.after)) := by
    rw [text, String.toList_ofList, hscheme, List.cons_append]
  -- a text that starts with a slash would be read as a path
  have hslash : c ≠ '/' := by
    rintro rfl
    exact absurd (hchars '/' (by simp [hscheme])) (by decide)
  have hauth : (p.authority ++ p.after).takeWhile (fun c => !Target.endsAuthority c) = p.authority :=
    Text.takeWhile_run (fun c hc => by rw [p.authority_chars hc]; rfl) fun c hc => by rw [p.after_head hc]; rfl
  have hne : p.authority.isEmpty = false := by
    cases hh : p.host with
    | nil => exact absurd hh p.host_ne
    | cons d host => simp [authority, hh]
  have hempty : ¬(p.text.toList.isEmpty = true ∨ Target.longest < p.text.utf8ByteSize) := by
    rw [hlist]
    simp [hlong]
  have hstar : p.text.toList ≠ ['*'] := by
    rw [hlist]
    simp
  have hhead : ¬p.text.toList.head? = some '/' := by
    rw [hlist]
    simpa using hslash
  simp only [Target.read?, if_neg hempty, if_neg hstar, if_neg hhead, p.scheme?_text, Option.bind_eq_bind,
    Option.bind_some, hauth, p.isAuthority_authority, hne, List.drop_left, p.path?_after]
  rfl

end PlainUrl

end Web

/-! ## Checking and building -/

open Web

/-- headers as they are sent: in their order, their names in lower case -/
def sentHeaders (headers : List (String × String)) : List (String × String) :=
  headers.map fun h => (String.ofList (Text.lowerAscii h.1.toList), h.2)

/-- a header that is checked can be sent -/
theorem sentHeader_of_check {h : String × String} (hc : checkHeader h = .ok ()) :
    sentHeader h = .ok (String.ofList (Text.lowerAscii h.1.toList), h.2) := by
  unfold checkHeader at hc
  split at hc
  · rename_i hvalid
    obtain ⟨hname, hvalue⟩ := hvalid
    unfold sentHeader
    unfold headerName? at hname ⊢
    split at hname
    · rename_i htoken
      rw [if_pos htoken]
      simp only [hvalue, if_true]
    · cases hname
  · cases hc

/-- what checking a request says of it -/
theorem Web.RequestSpec.checked {r : RequestSpec} (hc : r.check = .ok ()) :
    (∃ u, Url.read? r.url = some u ∧ u.isWeb = true) ∧ r.headers.mapM sentHeader = .ok (sentHeaders r.headers) := by
  unfold RequestSpec.check at hc
  split at hc
  · cases hc
  · rename_i u hu
    split at hc
    · rename_i hweb
      exact ⟨⟨u, hu, hweb⟩, mapM_ok fun h hh => sentHeader_of_check (forM_eq_ok_iff.1 hc h hh)⟩
    · cases hc

/-- a URL gives one header at most, the host -/
theorem hostHeader_names (u : Url) : (hostHeader u).map Prod.fst ∈ [[], ["host"]] := by
  unfold hostHeader
  split <;> simp

theorem length_eraseDups_le (names : List String) : names.eraseDups.length ≤ names.length := by
  cases names with
  | nil => exact Nat.le_refl 0
  | cons name rest =>
    have hothers := List.length_filter_le (fun other => !other == name) rest
    have hrest := length_eraseDups_le (rest.filter fun other => !other == name)
    rw [List.eraseDups_cons, List.length_cons, List.length_cons]
    omega
termination_by names.length
decreasing_by
  rw [List.length_cons]
  exact Nat.lt_succ_of_le hothers

/-- there is room for headers that are fewer than the names of a request, and a host -/
theorem haveRoom_of_few {host : List (String × String)} (hhost : host.map Prod.fst ∈ [[], ["host"]])
    {headers : List (String × String)} (hfew : headers.length < mostHeaderNames) :
    haveRoom (host ++ sentHeaders headers) = true := by
  have hone : host.length ≤ 1 := by
    rw [← List.length_map Prod.fst]
    rcases List.mem_cons.1 hhost with h | h
    · rw [h]
      exact Nat.zero_le 1
    · rw [List.mem_singleton.1 h]
      exact Nat.le_refl 1
  have hnames := length_eraseDups_le ((host ++ sentHeaders headers).dropLast.map Prod.fst)
  have hlength : (sentHeaders headers).length = headers.length := List.length_map _
  rw [List.length_map, List.length_dropLast, List.length_append, hlength] at hnames
  exact decide_eq_true (by omega)

/-- what is sent for a request of a checked scenario, if it can be -/
theorem Web.RequestSpec.build_of_checked {r : RequestSpec} (hc : r.check = .ok ()) :
    (Target.read? r.url = none → r.build = .error (.invalidUrl r.url)) ∧
    ∀ t, Target.read? r.url = some t → ∃ host, host.map Prod.fst ∈ [[], ["host"]] ∧
      r.build = if haveRoom (host ++ sentHeaders r.headers) then
        .ok ⟨r.method, t, host ++ sentHeaders r.headers, r.body⟩ else .error .tooManyHeaders := by
  obtain ⟨⟨u, hu, hweb⟩, hheaders⟩ := checked hc
  constructor
  · intro ht
    simp only [build, hu, hweb, ht, Bool.not_true, Bool.false_eq_true, if_false]
  · intro t ht
    simp only [build, hu, hweb, ht, hheaders, Bool.not_true, Bool.false_eq_true, if_false]
    refine ⟨_, ?_, rfl⟩
    split
    · simp
    · exact hostHeader_names u

/-- with fewer headers than names there is room -/
theorem Web.RequestSpec.build_of_few {r : RequestSpec} (hc : r.check = .ok ())
    (hfew : r.headers.length < mostHeaderNames) {t : Target} (ht : Target.read? r.url = some t) :
    ∃ host, host.map Prod.fst ∈ [[], ["host"]] ∧
      r.build = .ok ⟨r.method, t, host ++ sentHeaders r.headers, r.body⟩ := by
  obtain ⟨host, hhost, hb⟩ := (build_of_checked hc).2 t ht
  rw [haveRoom_of_few hhost hfew, if_pos rfl] at hb
  exact ⟨host, hhost, hb⟩

/-- what is left to go wrong -/
theorem Web.RequestSpec.build_faults {r : RequestSpec} (hc : r.check = .ok ()) {e : TransportError}
    (he : r.build = .error e) :
    Target.read? r.url = none ∧ e = .invalidUrl r.url ∨ e = .tooManyHeaders ∧ mostHeaderNames ≤ r.headers.length := by
  cases ht : Target.read? r.url with
  | none =>
    rw [(build_of_checked hc).1 ht] at he
    exact .inl ⟨rfl, (Except.error.inj he).symm⟩
  | some t =>
    rcases Nat.lt_or_ge r.headers.length mostHeaderNames with hfew | hmany
    · obtain ⟨host, -, hb⟩ := build_of_few hc hfew ht
      rw [hb] at he
      cases he
    · obtain ⟨host, -, hb⟩ := (build_of_checked hc).2 t ht
      rw [hb] at he
      split at he
      · cases he
      · exact .inr ⟨(Except.error.inj he).symm, hmany⟩

/-- **Building after checking.** Of a request in a scenario that checks, two things are left to go wrong. If its URL is
no target, which checking does not ask, no iteration that performs the request can send it, and each fails with
`invalidUrl`. If it is one, the request is built, with its method, its body, and after a host all its headers, unless
these have more names than a request holds, which checking does not ask either. Below that number of headers a request
is built exactly if its URL is a target, as every URL is that is written out. -/
theorem build_of_check {s : Scenario} {r : RequestSpec} (hs : s.check = .ok ()) (hr : r ∈ s.requests) :
    (Target.read? r.url = none → r.build = .error (.invalidUrl r.url)) ∧
    (∀ t, Target.read? r.url = some t → ∃ host, host.map Prod.fst ∈ [[], ["host"]] ∧
      r.build = if haveRoom (host ++ sentHeaders r.headers) then
        .ok ⟨r.method, t, host ++ sentHeaders r.headers, r.body⟩ else .error .tooManyHeaders) ∧
    (∀ e, r.build = .error e → e = .invalidUrl r.url ∨ e = .tooManyHeaders ∧ mostHeaderNames ≤ r.headers.length) ∧
    (r.headers.length < mostHeaderNames →
      (Target.read? r.url = none ↔ ∃ e, r.build = .error e) ∧
      (∀ e, r.build = .error e → e = .invalidUrl r.url) ∧
      (∀ t, Target.read? r.url = some t → ∃ host, host.map Prod.fst ∈ [[], ["host"]] ∧
        r.build = .ok ⟨r.method, t, host ++ sentHeaders r.headers, r.body⟩) ∧
      ∀ p : PlainUrl, r.url = p.text → r.url.utf8ByteSize ≤ Target.longest → ∃ sent, r.build = .ok sent) := by
  have hc := (Scenario.check_eq_ok_iff.1 hs).2.2.1 r hr
  obtain ⟨hnone, hsome⟩ := RequestSpec.build_of_checked hc
  refine ⟨hnone, hsome, fun e he => (RequestSpec.build_faults hc he).imp_left And.right, fun hfew => ?_⟩
  have hinvalid (e : TransportError) (he : r.build = .error e) :
      Target.read? r.url = none ∧ e = .invalidUrl r.url :=
    (RequestSpec.build_faults hc he).resolve_right fun ⟨_, hmany⟩ => Nat.not_lt.2 hmany hfew
  refine ⟨⟨fun ht => ⟨_, hnone ht⟩, ?_⟩, fun e he => (hinvalid e he).2,
    fun t ht => RequestSpec.build_of_few hc hfew ht, ?_⟩
  · rintro ⟨e, he⟩
    exact (hinvalid e he).1
  · intro p hp hlong
    rw [hp] at hlong
    have ht := p.read?_text hlong
    rw [← hp] at ht
    obtain ⟨host, -, hb⟩ := RequestSpec.build_of_few hc hfew ht
    exact ⟨_, hb⟩

/-- a URL on a port of its own, with a path and a query -/
def probeUrl : PlainUrl where
  scheme := "HTTPS".toList
  host := "shop.example".toList
  port := some "8443".toList
  path := "/a%20b/c".toList
  query := some "x=1&y=?".toList
  fragment := some "top of page".toList
  scheme_web := .inr (by decide)
  host_chars := List.all_eq_true.1 (by decide)
  host_ne := by decide
  port_chars := fun _ hds => List.all_eq_true.1 (Option.some.inj hds ▸ by decide)
  path_chars := List.all_eq_true.1 (by decide)
  path_start := fun _ hc => (Option.some.inj hc).symm
  query_chars := fun _ hq c hc => by
    obtain rfl := Option.some.inj hq
    have hall : ("x=1&y=?".toList).all (fun c => isPlainChar c || c = '?') = true := by decide
    simpa using List.all_eq_true.1 hall c hc

/-- a scenario with one request, which posts to a URL -/
def posting (url : String) : Scenario where
  name := "posting"
  model := .constantVus 1 (.ofSecs 1)
  requests := [⟨⟨"POST"⟩, url, [("X-Trace", "on")], "body", []⟩]
  timeout := .ofSecs 60
  thinkTime := .none
  gracefulStop := .zero
  seed := 0
  failFast := none
  thresholds := []

theorem posting_check {url : String} {u : Url} (hu : Url.read? url = some u) (hweb : u.isWeb = true) :
    (posting url).check = .ok () := by
  refine Scenario.check_eq_ok_iff.2 ⟨rfl, List.cons_ne_nil _ _, fun r hr => ?_, rfl, rfl, Option.some_ne_none 0 |>.symm⟩
  have hheader : checkHeader ("X-Trace", "on") = .ok () := if_pos (by decide +kernel)
  obtain rfl := List.mem_singleton.1 hr
  simp only [RequestSpec.check, hu, hweb, if_true]
  exact forM_eq_ok_iff.2 fun h hh => by rwa [List.mem_singleton.1 hh]

theorem build_of_check_probe : (posting probeUrl.text).check = .ok () ∧
    ∃ sent, (posting probeUrl.text).requests.head?.map RequestSpec.build = some (.ok sent) := by
  have hurl : Url.read? probeUrl.text = some ⟨"https", some (.domain "shop.example"), some 8443⟩ := by decide +kernel
  have hcheck := posting_check hurl (by decide)
  obtain ⟨-, -, -, hfew⟩ := build_of_check hcheck (List.mem_singleton.2 rfl)
  obtain ⟨-, -, -, hplain⟩ := hfew (by decide)
  obtain ⟨sent, hsent⟩ := hplain probeUrl rfl (by decide +kernel)
  exact ⟨hcheck, sent, congrArg some hsent⟩

/-- a URL with a blank in its path is checked, and no request is built for it -/
theorem checked_not_built : (posting "http://a/b c").check = .ok () ∧
    (posting "http://a/b c").requests.head?.map RequestSpec.build = some (.error (.invalidUrl "http://a/b c")) := by
  have hurl : Url.read? "http://a/b c" = some ⟨"http", some (.domain "a"), none⟩ := by decide +kernel
  have htarget : Target.read? "http://a/b c" = none := by decide +kernel
  have hcheck := posting_check hurl (by decide)
  have hrequest := (Scenario.check_eq_ok_iff.1 hcheck).2.2.1 _ (List.mem_singleton.2 rfl)
  exact ⟨hcheck, congrArg some ((RequestSpec.build_of_checked hrequest).1 htarget)⟩

end LoadGen
