import LibEvmvc.Http.Url

set_option autoImplicit false

/-! # Printing a URL

`url::to_string` puts the members together again. It is no inverse of `_parse`: the parser takes the
`/` before a path away, and the printer gives it back only to a path that is neither empty nor begins
with another `/`; a `:` before an empty password, or an `@` or `:` next to an empty host, is not
printed; and a fragment is printed with a `?`.

`readUrl` cuts a text where `_parse` cuts it: the user information ends at the first `@` of all that
follows `://`, the host at the first `:` after that or else at the first `/`, `?` or `#`. What is
printed is never longer than what was read, so the two agree only if they agree part by part. -/

namespace LibEvmvc

/-- `url::is_absolute`. -/
def Url.isAbsolute (u : Url) : Bool := u.path.head? = some 47

/-- `url::is_relative`. -/
def Url.isRelative (u : Url) : Bool := !u.isAbsolute

/-- The user information as `to_string` prints it. -/
def Url.userText (u : Url) : Bytes :=
  if u.userinfo then
    u.username ++ (if u.password ≠ [] then 58 :: u.password else []) ++
      (if u.hostname ≠ [] ∨ u.portString ≠ [] then [64] else [])
  else []

/-- The host and the port as `to_string` prints them. -/
def Url.hostText (u : Url) : Bytes :=
  (if u.hostname ≠ [] then u.hostname ++ (if u.portString ≠ [] then [58] else []) else []) ++
    u.portString

/-- Path, query and fragment as `to_string` prints them. -/
def Url.tailText (u : Url) : Bytes :=
  u.path ++ (if u.query ≠ [] then 63 :: u.query else []) ++
    (if u.fragment ≠ [] then 63 :: u.fragment else [])

/-- `url::to_string`. -/
def Url.toString (u : Url) : Bytes :=
  (if u.schemeString ≠ [] then u.schemeString ++ [58] else []) ++
    (if u.userinfo ∨ u.hostname ≠ [] ∨ u.portString ≠ [] then
      [47, 47] ++ u.userText ++ u.hostText ++
        (if u.path ≠ [] ∧ u.isRelative then [47] else [])
    else []) ++ u.tailText

/-! ## A URL in parts -/

/-- The parts of what follows `://`. The path is without its `/`, the others without the character
    in front of them. -/
structure UrlText where
  user : Option (Bytes × Option Bytes)
  host : Bytes
  port : Option Bytes
  path : Option Bytes
  query : Option Bytes
  fragment : Option Bytes
  deriving DecidableEq, Repr

/-- A part and the character in front of it. -/
def markPart (c : UInt8) : Option Bytes → Bytes
  | none => []
  | some x => c :: x

namespace UrlText

/-- The user information with its `@`. -/
def userText (T : UrlText) : Bytes :=
  match T.user with
  | none => []
  | some (name, password) => name ++ markPart 58 password ++ [64]

def hostText (T : UrlText) : Bytes := T.host ++ markPart 58 T.port

/-- Path, query and fragment. -/
def rest (T : UrlText) : Bytes :=
  markPart 47 T.path ++ markPart 63 T.query ++ markPart 35 T.fragment

def text (T : UrlText) : Bytes := T.userText ++ T.hostText ++ T.rest

end UrlText

/-- A text up to the first `c`, and what comes after that if there is one. -/
def cut (c : UInt8) (x : Bytes) : Bytes × Option Bytes :=
  (x.takeWhile (· ≠ c), if c ∈ x then some ((x.dropWhile (· ≠ c)).drop 1) else none)

/-- `/`, `?` and `#`. -/
def isDelim (c : UInt8) : Bool := c = 47 || c = 63 || c = 35

/-- Path, query and fragment of a text that is empty or begins with `/`, `?` or `#`. -/
def readRest (T : UrlText) (rest : Bytes) : UrlText :=
  let (pq, fragment) := cut 35 rest
  let (path, query) := cut 63 pq
  { T with path := if path = [] then none else some (path.drop 1), query, fragment }

/-- Host and port, and what follows them. -/
def readHost (user : Option (Bytes × Option Bytes)) (y : Bytes) : UrlText :=
  match cut 58 y with
  | (host, some r) =>
    readRest { user, host, port := some (r.takeWhile (!isDelim ·)), path := none, query := none,
               fragment := none } (r.dropWhile (!isDelim ·))
  | (_, none) =>
    readRest { user, host := y.takeWhile (!isDelim ·), port := none, path := none, query := none,
               fragment := none } (y.dropWhile (!isDelim ·))

/-- The parts of what follows `://`, cut where `_parse` cuts. -/
def readUrl (t : Bytes) : UrlText :=
  match cut 64 t with
  | (user, some y) => readHost (some (cut 58 user)) y
  | (_, none) => readHost none t

/-! ## Reading -/

theorem cut_of_mem {c : UInt8} {x : Bytes} (h : c ∈ x) :
    ∃ a b, x = a ++ c :: b ∧ c ∉ a ∧ cut c x = (a, some b) := by
  obtain ⟨a, b, rfl, ha⟩ := List.eq_append_cons_of_mem h
  have hall : ∀ d ∈ a, decide (d ≠ c) = true := fun d hd =>
    decide_eq_true fun he => ha (he ▸ hd)
  refine ⟨a, b, rfl, ha, ?_⟩
  unfold cut
  rw [if_pos h, List.takeWhile_append_of_pos hall, List.dropWhile_append_of_pos hall]
  simp

theorem cut_of_not_mem {c : UInt8} {x : Bytes} (h : c ∉ x) : cut c x = (x, none) := by
  have hall : ∀ d ∈ x, decide (d ≠ c) = true := fun d hd =>
    decide_eq_true fun he => h (he ▸ hd)
  unfold cut
  rw [if_neg h, List.takeWhile_eq_self_iff.2 hall]

/-- The parts a cut leaves make up the text again. -/
theorem cut_spec (c : UInt8) (x : Bytes) :
    (cut c x).1 ++ markPart c (cut c x).2 = x ∧ c ∉ (cut c x).1 := by
  by_cases h : c ∈ x
  · obtain ⟨a, b, rfl, ha, hcut⟩ := cut_of_mem h
    rw [hcut]
    exact ⟨rfl, ha⟩
  · rw [cut_of_not_mem h]
    exact ⟨List.append_nil x, h⟩

/-- The same parts are cut off again. -/
theorem cut_markPart {c : UInt8} {a : Bytes} (b : Option Bytes) (ha : c ∉ a) :
    cut c (a ++ markPart c b) = (a, b) := by
  cases b with
  | none =>
    rw [markPart, List.append_nil]
    exact cut_of_not_mem ha
  | some b =>
    have hall : ∀ d ∈ a, decide (d ≠ c) = true := fun d hd =>
      decide_eq_true fun he => ha (he ▸ hd)
    have hmem : c ∈ a ++ c :: b := by simp
    rw [markPart, cut, if_pos hmem, List.takeWhile_append_of_pos hall,
      List.dropWhile_append_of_pos hall]
    simp

/-- No `c` in a part. -/
def FreeOf (c : UInt8) (x : Option Bytes) : Prop := ∀ y, x = some y → c ∉ y

theorem not_mem_markPart {c d : UInt8} {x : Option Bytes} (hx : FreeOf c x) (hd : c ≠ d) :
    c ∉ markPart d x := by
  cases x with
  | none => simp [markPart]
  | some y => simp [markPart, hd, hx y rfl]

theorem FreeOf.of_markPart {c d : UInt8} {x : Option Bytes} (h : c ∉ markPart d x) :
    FreeOf c x := by
  rintro y rfl
  exact fun hc => h (List.mem_cons_of_mem d hc)

namespace UrlText

/-- Parts as a URL is cut into: no part holds the character that would have ended it. -/
structure Proper (T : UrlText) : Prop where
  user : ∀ name password, T.user = some (name, password) →
    58 ∉ name ∧ 64 ∉ name ∧ FreeOf 64 password
  noUser : T.user = none → 64 ∉ T.hostText ++ T.rest
  port : ∀ s, T.port = some s → 58 ∉ T.host ∧ NoDelim s
  noPort : T.port = none → NoDelim T.host ∧ 58 ∉ T.host ++ T.rest
  path : FreeOf 63 T.path ∧ FreeOf 35 T.path
  query : FreeOf 35 T.query

/-- The user information has no `@` in it. -/
theorem Proper.user_noAt {T : UrlText} (hT : T.Proper) {name : Bytes} {password : Option Bytes}
    (hU : T.user = some (name, password)) : 64 ∉ name ++ markPart 58 password := by
  obtain ⟨-, hat, hpass⟩ := hT.user name password hU
  rw [List.mem_append, not_or]
  exact ⟨hat, not_mem_markPart hpass (by decide)⟩

end UrlText

theorem noDelim_iff {x : Bytes} : NoDelim x ↔ ∀ c ∈ x, isDelim c = false := by
  simp only [NoDelim, isDelim, Bool.or_eq_false_iff, decide_eq_false_iff_not]
  constructor
  · rintro ⟨h1, h2, h3⟩ c hc
    exact ⟨⟨fun he => h1 (he ▸ hc), fun he => h2 (he ▸ hc)⟩, fun he => h3 (he ▸ hc)⟩
  · intro h
    exact ⟨fun hc => (h _ hc).1.1 rfl, fun hc => (h _ hc).1.2 rfl, fun hc => (h _ hc).2 rfl⟩

theorem noDelim_takeWhile (x : Bytes) : NoDelim (x.takeWhile (!isDelim ·)) :=
  noDelim_iff.2 fun c hc => by simpa using List.mem_takeWhile_imp hc

/-- What is left after the last character that is no `/`, `?` or `#`. -/
theorem isRest_dropWhile (x : Bytes) : IsRest (x.dropWhile (!isDelim ·)) := by
  cases h : x.dropWhile (!isDelim ·) with
  | nil => exact .inl rfl
  | cons c t =>
    have hc := List.head?_dropWhile_not (fun c => !isDelim c) x
    rw [h] at hc
    simp only [List.head?_cons, Bool.not_eq_false', isDelim, Bool.or_eq_true, decide_eq_true_eq]
      at hc
    exact .inr ⟨c, t, rfl, by tauto⟩

/-- Path, query and fragment make up the rest again. -/
theorem readRest_spec (T : UrlText) {rest : Bytes} (h : IsRest rest) :
    (readRest T rest).rest = rest ∧
      (FreeOf 63 (readRest T rest).path ∧ FreeOf 35 (readRest T rest).path) ∧
      FreeOf 35 (readRest T rest).query := by
  obtain ⟨hfrag, hnofrag⟩ := cut_spec 35 rest
  obtain ⟨hquery, hnoquery⟩ := cut_spec 63 (cut 35 rest).1
  have hpath : markPart 47 (if (cut 63 (cut 35 rest).1).1 = [] then none
      else some ((cut 63 (cut 35 rest).1).1.drop 1)) = (cut 63 (cut 35 rest).1).1 := by
    cases hp : (cut 63 (cut 35 rest).1).1 with
    | nil => rfl
    | cons c x =>
      have hhead : rest.head? = some c := by
        rw [← hfrag, ← hquery, hp]
        rfl
      have hslash : c = 47 := by
        rcases h with rfl | ⟨d, t, rfl, hd⟩
        · cases hhead
        · cases hhead
          have h63 : c ≠ 63 := fun he => hnoquery (by rw [hp, he]; simp)
          have h35 : c ≠ 35 := fun he => hnofrag (by rw [← hquery, hp, he]; simp)
          tauto
      rw [if_neg (by simp), hslash]
      rfl
  have hpq : 35 ∉ (cut 63 (cut 35 rest).1).1 ++ markPart 63 (cut 63 (cut 35 rest).1).2 := by
    rw [hquery]
    exact hnofrag
  rw [List.mem_append, not_or] at hpq
  refine ⟨?_, ⟨?_, ?_⟩, .of_markPart hpq.2⟩
  · simp only [UrlText.rest, readRest, hpath, hquery, hfrag]
  · refine .of_markPart (d := 47) ?_
    simp only [readRest, hpath]
    exact hnoquery
  · refine .of_markPart (d := 47) ?_
    simp only [readRest, hpath]
    exact hpq.1

@[simp] theorem readRest_user (T : UrlText) (rest : Bytes) : (readRest T rest).user = T.user := rfl
@[simp] theorem readRest_host (T : UrlText) (rest : Bytes) : (readRest T rest).host = T.host := rfl
@[simp] theorem readRest_port (T : UrlText) (rest : Bytes) : (readRest T rest).port = T.port := rfl

theorem readHost_spec (user : Option (Bytes × Option Bytes)) (y : Bytes) :
    (readHost user y).hostText ++ (readHost user y).rest = y ∧ (readHost user y).user = user ∧
      (∀ s, (readHost user y).port = some s → 58 ∉ (readHost user y).host ∧ NoDelim s) ∧
      ((readHost user y).port = none → NoDelim (readHost user y).host ∧ 58 ∉ y) ∧
      (FreeOf 63 (readHost user y).path ∧ FreeOf 35 (readHost user y).path) ∧
      FreeOf 35 (readHost user y).query := by
  by_cases hcolon : 58 ∈ y
  · obtain ⟨a, b, rfl, ha, hcut⟩ := cut_of_mem hcolon
    unfold readHost
    rw [hcut]
    obtain ⟨hrest, hpath, hquery⟩ := readRest_spec
      { user, host := a, port := some (b.takeWhile (!isDelim ·)), path := none, query := none,
        fragment := none } (isRest_dropWhile b)
    refine ⟨?_, rfl, ?_, ?_, hpath, hquery⟩
    · simp only [UrlText.hostText, hrest, readRest_host, readRest_port, markPart,
        List.append_assoc, List.cons_append, List.takeWhile_append_dropWhile]
    · rintro s hs
      cases hs
      exact ⟨ha, noDelim_takeWhile b⟩
    · intro hnone
      cases hnone
  · unfold readHost
    rw [cut_of_not_mem hcolon]
    obtain ⟨hrest, hpath, hquery⟩ := readRest_spec
      { user, host := y.takeWhile (!isDelim ·), port := none, path := none, query := none,
        fragment := none } (isRest_dropWhile y)
    refine ⟨?_, rfl, ?_, ?_, hpath, hquery⟩
    · simp only [UrlText.hostText, hrest, readRest_host, readRest_port, markPart, List.append_nil,
        List.takeWhile_append_dropWhile]
    · rintro s hs
      cases hs
    · intro _
      exact ⟨noDelim_takeWhile y, hcolon⟩

/-- The parts make up the text, and each ends where it should. -/
theorem readUrl_spec (t : Bytes) : (readUrl t).text = t ∧ (readUrl t).Proper := by
  by_cases hat : 64 ∈ t
  · obtain ⟨a, y, rfl, ha, hcut⟩ := cut_of_mem hat
    obtain ⟨hname, hcolon⟩ := cut_spec 58 a
    have huser : 64 ∉ (cut 58 a).1 ++ markPart 58 (cut 58 a).2 := by
      rw [hname]
      exact ha
    rw [List.mem_append, not_or] at huser
    obtain ⟨htext, hu, hport, hnoPort, hpath, hquery⟩ := readHost_spec (some (cut 58 a)) y
    have hread : readUrl (a ++ 64 :: y) = readHost (some (cut 58 a)) y := by
      unfold readUrl
      rw [hcut]
    rw [hread]
    constructor
    · simp only [UrlText.text, UrlText.userText, hu, hname, List.append_assoc, htext,
        List.cons_append, List.nil_append]
    · constructor
      · rintro name password heq
        rw [hu] at heq
        rw [Option.some.injEq] at heq
        rw [heq] at hcolon huser
        exact ⟨hcolon, huser.1, .of_markPart huser.2⟩
      · intro hnone
        rw [hu] at hnone
        cases hnone
      · exact hport
      · intro hnone
        obtain ⟨hdelim, hy⟩ := hnoPort hnone
        refine ⟨hdelim, ?_⟩
        rw [← htext, UrlText.hostText, hnone, markPart, List.append_nil] at hy
        exact hy
      · exact hpath
      · exact hquery
  · obtain ⟨htext, hu, hport, hnoPort, hpath, hquery⟩ := readHost_spec none t
    have hread : readUrl t = readHost none t := by
      unfold readUrl
      rw [cut_of_not_mem hat]
    rw [hread]
    constructor
    · simp only [UrlText.text, UrlText.userText, hu, List.nil_append, htext]
    · constructor
      · rintro name password heq
        rw [hu] at heq
        cases heq
      · intro _
        rw [htext]
        exact hat
      · exact hport
      · intro hnone
        obtain ⟨hdelim, hy⟩ := hnoPort hnone
        refine ⟨hdelim, ?_⟩
        rw [← htext, UrlText.hostText, hnone, markPart, List.append_nil] at hy
        exact hy
      · exact hpath
      · exact hquery

/-! ## Parsing -/

section Parse

variable (strToNum : Bytes → Option Nat)

/-- The members of the tail are still to be read. -/
def Url.NoTail (u : Url) : Prop := u.path = [] ∧ u.query = [] ∧ u.fragment = []

/-- The members of the tail, as far as it has them. -/
def Url.withTail (u : Url) (path query fragment : Option Bytes) : Url :=
  { u with path := path.getD [], query := query.getD [], fragment := fragment.getD [] }

theorem Url.withTail_none {u : Url} (h : u.NoTail) : u.withTail none none none = u := by
  obtain ⟨hpath, hquery, hfrag⟩ := h
  cases u
  simp only at hpath hquery hfrag
  subst hpath hquery hfrag
  rfl

theorem Url.withTail_path {u : Url} (hquery : u.query = []) (hfrag : u.fragment = []) (x : Bytes) :
    { u with path := x } = u.withTail (some x) none none := by
  cases u
  simp only at hquery hfrag
  subst hquery hfrag
  rfl

def Url.withHost (u : Url) (host portString : Bytes) (port : Nat) : Url :=
  { u with hostname := host, portString := portString, port := port }

theorem Url.withHost_self {u : Url} (hhost : u.hostname = []) (hport : u.portString = []) :
    u.withHost [] [] u.port = u := by
  cases u
  simp only at hhost hport
  subst hhost hport
  rfl

theorem Url.withHost_noPort {u : Url} (hport : u.portString = []) (host : Bytes) :
    { u with hostname := host } = u.withHost host [] u.port := by
  cases u
  simp only at hport
  subst hport
  rfl

theorem parseRest_frag (pre z : Bytes) (p : UrlParse) (hs : p.sect = .frag)
    (hpos : p.spos = pre.length) (herr : p.error = none) :
    (parseRest strToNum (pre ++ z) p).error = none ∧
      (z ≠ [] ∨ p.url.fragment = [] →
        (parseRest strToNum (pre ++ z) p).url = { p.url with fragment := z }) := by
  by_cases hz : z = []
  · subst hz
    rw [List.append_nil, parseRest_end p (by omega)]
    refine ⟨herr, fun h => ?_⟩
    rw [← h.resolve_left (fun hne => hne rfl)]
  · have hlen : 0 < z.length := List.length_pos_iff.2 hz
    rw [parseRest_step p (by rw [List.length_append]; omega) herr]
    simp only [parseSection, hs, parseFrag, hpos, dataSubstring_end]
    rw [parseRest_end _ (by simp)]
    exact ⟨herr, fun _ => rfl⟩

/-- A text with a mark in it, cut behind the mark. -/
theorem append_mark (pre x t : Bytes) (c : UInt8) : pre ++ (x ++ c :: t) = (pre ++ x ++ [c]) ++ t := by
  simp

/-- The position behind a mark. -/
theorem length_past_mark (pre x : Bytes) (c : UInt8) :
    (pre ++ x).length + 1 = (pre ++ x ++ [c]).length := by
  simp only [List.length_append, List.length_singleton]

/-- The query ends at the first `#`. -/
theorem parseRest_query (pre y : Bytes) (frag : Option Bytes) (p : UrlParse) (hy : 35 ∉ y)
    (hs : p.sect = .query) (hpos : p.spos = pre.length) (herr : p.error = none)
    (hquery : p.url.query = []) (hfrag : p.url.fragment = []) :
    (parseRest strToNum (pre ++ (y ++ markPart 35 frag)) p).error = none ∧
      (parseRest strToNum (pre ++ (y ++ markPart 35 frag)) p).url
        = { p.url with query := y, fragment := frag.getD [] } := by
  cases frag with
  | none =>
    rw [markPart, List.append_nil, Option.getD_none]
    by_cases hz : y = []
    · subst hz
      rw [List.append_nil, parseRest_end p (by omega)]
      refine ⟨herr, ?_⟩
      cases hurl : p.url with
      | mk =>
        rw [hurl] at hquery hfrag
        simp only at hquery hfrag
        rw [hquery, hfrag]
    · have hlen : 0 < y.length := List.length_pos_iff.2 hz
      rw [parseRest_step p (by rw [List.length_append]; omega) herr]
      simp only [parseSection, hs, parseQuery, hpos, findCh_none hy, dataSubstring_end]
      rw [parseRest_end _ (by simp)]
      refine ⟨herr, ?_⟩
      rw [← hfrag]
  | some z =>
    rw [markPart, Option.getD_some]
    rw [parseRest_step p (by simp only [hpos, List.length_append, List.length_cons]; omega) herr]
    simp only [parseSection, hs, parseQuery, hpos, findCh_some pre y z 35 hy, dataSubstring_mid]
    have htext := append_mark pre y z 35
    have hnext := length_past_mark pre y 35
    rw [htext]
    obtain ⟨herror, hurl⟩ := parseRest_frag strToNum (pre ++ y ++ [35]) z
      { p with url := { p.url with query := y }, spos := (pre ++ y).length + 1, sect := .frag }
      rfl hnext herr
    exact ⟨herror, hurl (.inr hfrag)⟩

/-- The path ends at the first `?` or `#`. -/
theorem parseRest_path (pre x : Bytes) (query frag : Option Bytes) (p : UrlParse) (hx : 63 ∉ x)
    (hx' : 35 ∉ x) (hq : FreeOf 35 query) (hs : p.sect = .path) (hpos : p.spos = pre.length)
    (herr : p.error = none) (htail : p.url.NoTail) :
    (parseRest strToNum (pre ++ (x ++ (markPart 63 query ++ markPart 35 frag))) p).error = none ∧
      (parseRest strToNum (pre ++ (x ++ (markPart 63 query ++ markPart 35 frag))) p).url
        = p.url.withTail (some x) query frag := by
  cases query with
  | some y =>
    obtain ⟨-, hquery, hfrag⟩ := htail
    have hlate := absentOrAfter_findCh pre x (y ++ markPart 35 frag) 63 35 hx' (by decide)
    have hfound := findCh_some pre x (y ++ markPart 35 frag) 63 hx
    have hnot : ∀ j, (pre ++ x).length < j →
        absentOrAfter (some (pre ++ x).length) j = false := by
      intro j hj
      simp only [absentOrAfter, decide_eq_false_iff_not]
      omega
    rw [markPart, List.cons_append,
      parseRest_step p (by simp only [hpos, List.length_append, List.length_cons]; omega) herr]
    simp only [parseSection, hs, parsePath, hpos]
    rw [hfound, filter_absentOrAfter hlate hnot]
    simp only [dataSubstring_mid]
    have htext := append_mark pre x (y ++ markPart 35 frag) 63
    have hnext := length_past_mark pre x 63
    rw [htext]
    exact parseRest_query strToNum (pre ++ x ++ [63]) y frag
      { p with url := { p.url with path := x }, spos := (pre ++ x).length + 1, sect := .query }
      (hq y rfl) rfl hnext herr hquery hfrag
  | none =>
    rw [markPart, List.nil_append]
    cases frag with
    | some z =>
      have hlate := absentOrAfter_findCh pre x z 35 63 hx (by decide)
      rw [markPart,
        parseRest_step p (by simp only [hpos, List.length_append, List.length_cons]; omega) herr]
      simp only [parseSection, hs, parsePath, hpos, findCh_some pre x z 35 hx', Option.filter,
        hlate, if_true, dataSubstring_mid]
      have htext := append_mark pre x z 35
      have hnext := length_past_mark pre x 35
      rw [htext]
      obtain ⟨herror, hurl⟩ := parseRest_frag strToNum (pre ++ x ++ [35]) z
        { p with url := { p.url with path := x }, spos := (pre ++ x).length + 1, sect := .frag }
        rfl hnext herr
      refine ⟨herror, (hurl (.inr htail.2.2)).trans ?_⟩
      rw [Url.withTail, Option.getD_none, Option.getD_some, Option.getD_some, ← htail.2.1]
    | none =>
      rw [markPart, List.append_nil]
      by_cases hz : x = []
      · subst hz
        rw [List.append_nil, parseRest_end p (by omega)]
        exact ⟨herr, (Url.withTail_none htail).symm⟩
      · have hlen : 0 < x.length := List.length_pos_iff.2 hz
        rw [parseRest_step p (by rw [List.length_append]; omega) herr]
        simp only [parseSection, hs, parsePath, hpos, findCh_none hx, findCh_none hx',
          Option.filter, dataSubstring_end]
        rw [parseRest_end _ (by simp)]
        exact ⟨herr, Url.withTail_path htail.2.1 htail.2.2 x⟩

/-- After the authority the loop reads path, query and fragment. -/
theorem parseRest_rest (pre : Bytes) (T : UrlText) (c : UInt8) (t : Bytes) (q : UrlParse)
    (hrest : T.rest = c :: t) (hpath : FreeOf 63 T.path ∧ FreeOf 35 T.path)
    (hquery : FreeOf 35 T.query) (hs : q.sect = sectionOf c) (hpos : q.spos = (pre ++ [c]).length)
    (herr : q.error = none) (htail : q.url.NoTail) :
    (parseRest strToNum (pre ++ c :: t) q).error = none ∧
      (parseRest strToNum (pre ++ c :: t) q).url
        = q.url.withTail T.path T.query T.fragment := by
  have htext : pre ++ c :: t = (pre ++ [c]) ++ t := by simp
  rw [htext]
  unfold UrlText.rest at hrest
  cases hp : T.path with
  | some x =>
    rw [hp, markPart, List.cons_append, List.cons_append] at hrest
    obtain ⟨rfl, rfl⟩ := List.cons.inj hrest
    rw [List.append_assoc x]
    exact parseRest_path strToNum _ x T.query T.fragment q (hpath.1 x hp) (hpath.2 x hp) hquery hs
      hpos herr htail
  | none =>
    rw [hp, markPart, List.nil_append] at hrest
    cases hq : T.query with
    | some y =>
      rw [hq, markPart, List.cons_append] at hrest
      obtain ⟨rfl, rfl⟩ := List.cons.inj hrest
      obtain ⟨herror, hurl⟩ := parseRest_query strToNum _ y T.fragment q (hquery y hq) hs hpos herr
        htail.2.1 htail.2.2
      refine ⟨herror, hurl.trans ?_⟩
      rw [Url.withTail, Option.getD_none, Option.getD_some, ← htail.1]
    | none =>
      rw [hq, markPart, List.nil_append] at hrest
      cases hf : T.fragment with
      | some z =>
        rw [hf, markPart] at hrest
        obtain ⟨rfl, rfl⟩ := List.cons.inj hrest
        obtain ⟨herror, hurl⟩ := parseRest_frag strToNum _ z q hs hpos herr
        refine ⟨herror, (hurl (.inr htail.2.2)).trans ?_⟩
        cases hu : q.url with
        | mk =>
          rw [hu] at htail
          obtain ⟨h1, h2, -⟩ := htail
          simp only at h1 h2
          rw [Url.withTail, Option.getD_none, Option.getD_some, h1, h2]
      | none =>
        rw [hf, markPart] at hrest
        cases hrest

theorem UrlText.isRest_rest (T : UrlText) : IsRest T.rest := by
  unfold UrlText.rest
  cases T.path with
  | some x => exact .inr ⟨47, _, rfl, .inl rfl⟩
  | none => cases T.query with
    | some y => exact .inr ⟨63, _, rfl, .inr (.inl rfl)⟩
    | none => cases T.fragment with
      | some z => exact .inr ⟨35, _, rfl, .inr (.inr rfl)⟩
      | none => exact .inl rfl

theorem UrlText.withTail_of_rest {T : UrlText} (h : T.rest = []) {u : Url} (hu : u.NoTail) :
    u.withTail T.path T.query T.fragment = u := by
  simp only [UrlText.rest, List.append_eq_nil_iff] at h
  obtain ⟨⟨hp, hq⟩, hf⟩ := h
  cases hpath : T.path with
  | some x => rw [hpath] at hp; cases hp
  | none => cases hquery : T.query with
    | some y => rw [hquery] at hq; cases hq
    | none => cases hfrag : T.fragment with
      | some z => rw [hfrag] at hf; cases hf
      | none => exact Url.withTail_none hu

/-- The port is stored if its number can be read, and then the loop goes on. -/
theorem parsePort_rest (pre s : Bytes) (T : UrlText) (p : UrlParse) (hP : NoDelim s)
    (hpath : FreeOf 63 T.path ∧ FreeOf 35 T.path) (hquery : FreeOf 35 T.query)
    (hs : p.sect = .auth) (hsub : p.subSec = some .port) (hpos : p.spos = pre.length)
    (herr : p.error = none) (hport : p.url.portString = []) (htail : p.url.NoTail) :
    ((parseRest strToNum (pre ++ (s ++ T.rest)) p).error = none →
      (s ++ T.rest ≠ [] → (strToNum s).isSome) ∧ ∃ n, (parseRest strToNum (pre ++ (s ++ T.rest)) p).url
        = ({ p.url with portString := s, port := n } : Url).withTail T.path T.query T.fragment) ∧
    ((strToNum s).isSome → (parseRest strToNum (pre ++ (s ++ T.rest)) p).error = none) := by
  by_cases hover : s ++ T.rest = []
  · obtain ⟨rfl, hrest⟩ := List.append_eq_nil_iff.1 hover
    rw [hover, List.append_nil, parseRest_end p (by omega)]
    refine ⟨fun _ => ⟨fun hne => absurd rfl hne, p.url.port, ?_⟩, fun _ => herr⟩
    rw [UrlText.withTail_of_rest hrest (u := { p.url with portString := [], port := p.url.port })
      htail, ← hport]
  have hlen : 0 < (s ++ T.rest).length := List.length_pos_iff.2 hover
  rw [parseRest_step p (by rw [List.length_append]; omega) herr]
  simp only [parseSection, hs, parseAuth, enterAuth, hsub, parsePort, hpos]
  rcases T.isRest_rest with hrest | ⟨c, t, hrest, hc⟩
  · rw [hrest, List.append_nil, nextSection_none pre s hP]
    simp only [dataSubstring_end]
    unfold setPort
    cases hnum : strToNum s with
    | some n =>
      simp only
      rw [parseRest_end _ (by simp)]
      refine ⟨fun _ => ⟨fun _ => rfl, n, ?_⟩, fun _ => herr⟩
      rw [UrlText.withTail_of_rest hrest (u := { p.url with portString := s, port := n }) htail]
    | none =>
      simp only
      rw [parseRest_failed _ (by simp)]
      constructor
      · intro h
        cases h
      · intro h
        cases h
  · rw [hrest, nextSection_rest pre s t c hP hc]
    simp only [dataSubstring_mid]
    unfold setPort
    cases hnum : strToNum s with
    | some n =>
      have htext : pre ++ (s ++ c :: t) = (pre ++ s) ++ c :: t := by simp
      have hnext := length_past_mark pre s c
      obtain ⟨herror, hurl⟩ := parseRest_rest strToNum (pre ++ s) T c t
        { p with url := { p.url with portString := s, port := n }, spos := (pre ++ s).length + 1,
                 sect := sectionOf c } hrest hpath hquery rfl hnext herr htail
      rw [htext]
      exact ⟨fun _ => ⟨fun _ => rfl, n, hurl⟩, fun _ => herror⟩
    | none =>
      simp only
      rw [parseRest_failed _ (by simp)]
      constructor
      · intro h
        cases h
      · intro h
        cases h

/-- The host and the port are read, and then the loop goes on. -/
theorem parseHost_rest (pre : Bytes) (T : UrlText) (p : UrlParse) (hT : T.Proper)
    (hs : p.sect = .auth) (hsub : p.subSec = some .host) (hpos : p.spos = pre.length)
    (herr : p.error = none) (hhost : p.url.hostname = []) (hport : p.url.portString = [])
    (htail : p.url.NoTail) :
    ((parseRest strToNum (pre ++ (T.hostText ++ T.rest)) p).error = none →
      (∀ s, T.port = some s → s ++ T.rest ≠ [] → (strToNum s).isSome) ∧
      ∃ n, (parseRest strToNum (pre ++ (T.hostText ++ T.rest)) p).url
        = (p.url.withHost T.host (T.port.getD []) n).withTail T.path T.query T.fragment) ∧
    ((∀ s, T.port = some s → (strToNum s).isSome) →
      (parseRest strToNum (pre ++ (T.hostText ++ T.rest)) p).error = none) := by
  cases hP : T.port with
  | some s =>
    obtain ⟨hcolon, hdelim⟩ := hT.port s hP
    have htext : pre ++ (T.hostText ++ T.rest) = pre ++ (T.host ++ 58 :: (s ++ T.rest)) := by
      simp [UrlText.hostText, hP, markPart]
    have htext' := append_mark pre T.host (s ++ T.rest) 58
    have hnext := length_past_mark pre T.host 58
    rw [htext, parseRest_step p (by simp only [hpos, List.length_append, List.length_cons]; omega)
      herr]
    simp only [parseSection, hs, parseAuth, enterAuth, hsub, parseHost, hpos,
      findCh_some pre T.host (s ++ T.rest) 58 hcolon, dataSubstring_mid]
    rw [htext']
    obtain ⟨hurl, hok⟩ := parsePort_rest strToNum (pre ++ T.host ++ [58]) s T
      { p with url := { p.url with hostname := T.host }, spos := (pre ++ T.host).length + 1,
               sect := .auth, subSec := some .port } hdelim hT.path hT.query rfl rfl hnext herr hport
      htail
    refine ⟨fun h => ⟨fun s' hs' => ?_, (hurl h).2⟩, fun h => hok (h s rfl)⟩
    cases hs'
    exact (hurl h).1
  | none =>
    obtain ⟨hdelim, hcolon⟩ := hT.noPort hP
    have htext : T.hostText = T.host := by
      rw [UrlText.hostText, hP, markPart, List.append_nil]
    rw [htext]
    by_cases hover : T.host ++ T.rest = []
    · obtain ⟨hnil, hrest⟩ := List.append_eq_nil_iff.1 hover
      rw [hover, List.append_nil, parseRest_end p (by omega)]
      refine ⟨fun _ => ⟨fun _ h => (by cases h), p.url.port, ?_⟩, fun _ => herr⟩
      have hkeep := UrlText.withTail_of_rest hrest (u := p.url.withHost [] [] p.url.port) htail
      rw [hnil, Option.getD_none, hkeep, Url.withHost_self hhost hport]
    have hlen : 0 < (T.host ++ T.rest).length := List.length_pos_iff.2 hover
    rw [parseRest_step p (by rw [List.length_append]; omega) herr]
    simp only [parseSection, hs, parseAuth, enterAuth, hsub, parseHost, hpos, findCh_none hcolon]
    rcases T.isRest_rest with hrest | ⟨c, t, hrest, hc⟩
    · rw [hrest, List.append_nil, nextSection_none pre T.host hdelim]
      simp only [dataSubstring_end]
      rw [parseRest_end _ (by simp)]
      refine ⟨fun _ => ⟨fun _ h => (by cases h), p.url.port, ?_⟩, fun _ => herr⟩
      have hkeep := UrlText.withTail_of_rest hrest (u := p.url.withHost T.host [] p.url.port) htail
      rw [Option.getD_none, hkeep, ← Url.withHost_noPort hport]
    · have htext : pre ++ (T.host ++ c :: t) = (pre ++ T.host) ++ c :: t := by simp
      have hnext := length_past_mark pre T.host c
      rw [hrest, nextSection_rest pre T.host t c hdelim hc]
      simp only [dataSubstring_mid]
      obtain ⟨herror, hurl⟩ := parseRest_rest strToNum (pre ++ T.host) T c t
        { p with url := { p.url with hostname := T.host }, spos := (pre ++ T.host).length + 1,
                 sect := sectionOf c, subSec := some .host } hrest hT.path hT.query rfl hnext herr
        htail
      rw [htext]
      refine ⟨fun _ => ⟨fun _ h => (by cases h), p.url.port, hurl.trans ?_⟩, fun _ => herror⟩
      rw [Option.getD_none, ← Url.withHost_noPort hport]

/-- Without an `@` ahead the loop is at the host. -/
theorem parseRest_atHost (pre t : Bytes) (p : UrlParse) (ht : 64 ∉ t) (hs : p.sect = .auth)
    (hsub : p.subSec = none) (hpos : p.spos = pre.length) (herr : p.error = none)
    (huser : p.url.userinfo = false) :
    (parseRest strToNum (pre ++ t) p).error = (parseRest strToNum (pre ++ t) p.atHost).error ∧
      (parseRest strToNum (pre ++ t) p).url = (parseRest strToNum (pre ++ t) p.atHost).url := by
  by_cases hover : t = []
  · have hend : (pre ++ t).length ≤ p.spos := by
      rw [hover, List.append_nil, hpos]
    rw [parseRest_end p hend, parseRest_end p.atHost hend]
    refine ⟨rfl, ?_⟩
    simp only [UrlParse.atHost]
    rw [← huser]
  · have hlen : p.spos < (pre ++ t).length := by
      have hpos' : 0 < t.length := List.length_pos_iff.2 hover
      rw [List.length_append]
      omega
    rw [parseRest_step p hlen herr, parseAuth_no_at strToNum pre t p ht hs hsub hpos,
      parseRest_step p.atHost hlen herr]
    exact ⟨rfl, rfl⟩

/-- The scheme as `_parse` classifies it. -/
def schemeOf (scheme : Bytes) : UrlScheme :=
  if scheme = bytes "http" then .http else if scheme = bytes "https" then .https else .unknown

/-- The members a scheme and the parts of a URL stand for. -/
def UrlText.members (T : UrlText) (scheme : Bytes) (port : Nat) : Url :=
  { schemeString := scheme
    scheme := schemeOf scheme
    userinfo := T.user.isSome
    username := (T.user.map fun u => u.1).getD []
    password := (T.user.bind fun u => u.2).getD []
    hostname := T.host
    portString := T.port.getD []
    port := port
    path := T.path.getD []
    query := T.query.getD []
    fragment := T.fragment.getD [] }

/-- Does not begin like a URL without a scheme. -/
def SchemeFirst (scheme : Bytes) : Prop := ∀ c, scheme.head? = some c → isDelim c = false

instance (scheme : Bytes) : Decidable (SchemeFirst scheme) :=
  decidable_of_iff (scheme.head?.all (fun c => !isDelim c) = true) (by
    unfold SchemeFirst
    cases scheme.head? <;> simp)

theorem startSection_of_schemeFirst (scheme t : Bytes) (h : SchemeFirst scheme) :
    startSection (scheme ++ [58, 47, 47] ++ t) = .scheme := by
  cases scheme with
  | nil => rfl
  | cons c scheme =>
    have hc := h c rfl
    simp only [List.cons_append]
    unfold startSection
    split
    · next heq =>
      rw [(List.cons.inj heq).1] at hc
      cases hc
    · next heq =>
      rw [(List.cons.inj heq).1] at hc
      cases hc
    · next heq =>
      rw [(List.cons.inj heq).1] at hc
      cases hc
    · next heq =>
      rw [(List.cons.inj heq).1] at hc
      cases hc
    · rfl

/-- The scheme is read, and the authority begins after `://`. -/
theorem parseUrl_schemeFirst (scheme t : Bytes) (hcolon : 58 ∉ scheme) (hlower : lower scheme = scheme)
    (hfirst : SchemeFirst scheme) :
    parseUrl strToNum (scheme ++ [58, 47, 47] ++ t)
      = parseRest strToNum (scheme ++ [58, 47, 47] ++ t)
          { url := { schemeString := scheme, scheme := schemeOf scheme }, sect := .auth,
            spos := (scheme ++ [58, 47, 47]).length } := by
  have htext : scheme ++ [58, 47, 47] ++ t = [] ++ (scheme ++ 58 :: 47 :: 47 :: t) := by simp
  have hfound := findCh_some [] scheme (47 :: 47 :: t) 58 hcolon
  have hslash := findCh_some (scheme ++ [58]) [] (47 :: t) 47 (by simp)
  have hslash' := findCh_some (scheme ++ [58, 47]) [] t 47 (by simp)
  have hname := dataSubstring_mid [] scheme (58 :: 47 :: 47 :: t)
  have hlen : (0 : Nat) < (scheme ++ [58, 47, 47] ++ t).length := by
    simp only [List.length_append, List.length_cons]
    omega
  unfold parseUrl
  rw [startSection_of_schemeFirst scheme t hfirst]
  refine (parseRest_step { sect := .scheme } hlen rfl).trans ?_
  rw [htext]
  simp only [List.nil_append, List.length_nil, List.length_append, List.length_cons,
    List.append_assoc, List.cons_append, Nat.zero_add] at hfound hslash hslash' hname ⊢
  simp only [parseSection, parseScheme, hfound, hslash, hslash', if_true, hname, hlower, schemeOf,
    Nat.zero_add]

/-- **The members are the parts the text is cut into**, unless the port is no number. -/
theorem parseUrl_parts (scheme : Bytes) (T : UrlText) (hcolon : 58 ∉ scheme)
    (hlower : lower scheme = scheme) (hfirst : SchemeFirst scheme) (hT : T.Proper) :
    ((parseUrl strToNum (scheme ++ [58, 47, 47] ++ T.text)).error = none →
      (∀ s, T.port = some s → s ++ T.rest ≠ [] → (strToNum s).isSome) ∧ ∃ n,
      (parseUrl strToNum (scheme ++ [58, 47, 47] ++ T.text)).url = T.members scheme n) ∧
    ((∀ s, T.port = some s → (strToNum s).isSome) →
      (parseUrl strToNum (scheme ++ [58, 47, 47] ++ T.text)).error = none) := by
  rw [parseUrl_schemeFirst strToNum scheme T.text hcolon hlower hfirst]
  cases hU : T.user with
  | some u =>
    obtain ⟨name, password⟩ := u
    obtain ⟨hname, -, -⟩ := hT.user name password hU
    have hu := hT.user_noAt hU
    have htext : T.text = (name ++ markPart 58 password) ++ 64 :: (T.hostText ++ T.rest) := by
      simp [UrlText.text, UrlText.userText, hU]
    have hlen : (scheme ++ [58, 47, 47]).length < (scheme ++ [58, 47, 47] ++
        ((name ++ markPart 58 password) ++ 64 :: (T.hostText ++ T.rest))).length := by
      simp only [List.length_append, List.length_cons]
      omega
    have hpre : 1 < (scheme ++ [58, 47, 47]).length := by
      simp only [List.length_append, List.length_cons]
      omega
    have hsplit : beforeColon (name ++ markPart 58 password) = name ∧
        afterColon (name ++ markPart 58 password) = password.getD [] := by
      cases password with
      | none =>
        rw [markPart, List.append_nil]
        exact beforeColon_plain name hname
      | some x => exact beforeColon_colon name x hname
    rw [htext, parseRest_step _ hlen rfl,
      parseUserinfo_at strToNum _ _ (T.hostText ++ T.rest) _ hu hpre rfl rfl rfl]
    have htext' : scheme ++ [58, 47, 47] ++ ((name ++ markPart 58 password) ++ 64 ::
        (T.hostText ++ T.rest)) = (scheme ++ [58, 47, 47] ++ (name ++ markPart 58 password) ++ [64])
          ++ (T.hostText ++ T.rest) := by simp
    rw [htext']
    obtain ⟨hurl, hok⟩ := parseHost_rest strToNum
      (scheme ++ [58, 47, 47] ++ (name ++ markPart 58 password) ++ [64]) T
      (UrlParse.afterUser
        { url := { schemeString := scheme, scheme := schemeOf scheme }, sect := .auth,
          spos := (scheme ++ [58, 47, 47]).length } (name ++ markPart 58 password)
        (scheme ++ [58, 47, 47] ++ (name ++ markPart 58 password) ++ [64]).length)
      hT rfl rfl rfl rfl rfl rfl ⟨rfl, rfl, rfl⟩
    refine ⟨fun h => ?_, hok⟩
    obtain ⟨hnum, n, hn⟩ := hurl h
    refine ⟨hnum, n, hn.trans ?_⟩
    simp only [Url.withTail, Url.withHost, UrlParse.afterUser, UrlText.members, hU, hsplit.1,
      hsplit.2, Option.isSome_some, Option.map_some, Option.bind_some, Option.getD_some]
  | none =>
    have htext : T.text = T.hostText ++ T.rest := by
      simp [UrlText.text, UrlText.userText, hU]
    obtain ⟨herror, hkeep⟩ := parseRest_atHost strToNum (scheme ++ [58, 47, 47]) T.text
      { url := { schemeString := scheme, scheme := schemeOf scheme }, sect := .auth,
        spos := (scheme ++ [58, 47, 47]).length } (htext ▸ hT.noUser hU) rfl rfl rfl rfl rfl
    rw [herror, hkeep, htext]
    obtain ⟨hurl, hok⟩ := parseHost_rest strToNum (scheme ++ [58, 47, 47]) T
      (UrlParse.atHost
        { url := { schemeString := scheme, scheme := schemeOf scheme }, sect := .auth,
          spos := (scheme ++ [58, 47, 47]).length })
      hT rfl rfl rfl rfl rfl rfl ⟨rfl, rfl, rfl⟩
    refine ⟨fun h => ?_, hok⟩
    obtain ⟨hnum, n, hn⟩ := hurl h
    refine ⟨hnum, n, hn.trans ?_⟩
    simp only [Url.withTail, Url.withHost, UrlParse.atHost, UrlText.members, hU,
      Option.isSome_none, Option.map_none, Option.bind_none, Option.getD_none]

end Parse

/-! ## Printing what was read -/

/-- Two cuts of one text are the same if the parts of the one are no longer than those of the
    other. -/
theorem append_eq_append_of_length_le {a b a' b' : Bytes} (h : a ++ b = a' ++ b')
    (ha : a.length ≤ a'.length) (hb : b.length ≤ b'.length) : a = a' ∧ b = b' := by
  have hlen := congrArg List.length h
  rw [List.length_append, List.length_append] at hlen
  exact List.append_inj h (by omega)

/-- Path, query and fragment, and the `/` that is given back to the path. -/
def Url.restText (u : Url) : Bytes :=
  (if u.path ≠ [] ∧ u.isRelative then [47] else []) ++ u.tailText

/-- What `to_string` prints between the scheme and the path. -/
def Url.HasAuthority (u : Url) : Prop := u.userinfo ∨ u.hostname ≠ [] ∨ u.portString ≠ []

theorem Url.toString_eq {u : Url} (hscheme : u.schemeString ≠ []) (h : u.HasAuthority) :
    u.toString = (u.schemeString ++ [58]) ++ ([47, 47] ++ (u.userText ++ (u.hostText ++ u.restText))) := by
  unfold HasAuthority at h
  simp only [Url.toString, Url.restText, if_pos hscheme, if_pos h, List.append_assoc]

namespace UrlText

variable (T : UrlText) (scheme : Bytes) (n : Nat)

/-- A password that is there is not empty, and neither is the host if there is a user. -/
def UserOk : Prop :=
  ∀ name password, T.user = some (name, password) → password ≠ some [] ∧
    (T.host ≠ [] ∨ T.port.getD [] ≠ [])

/-- A port that is there is not empty, and neither is the host before it. -/
def PortOk : Prop := ∀ s, T.port = some s → s ≠ [] ∧ T.host ≠ []

/-- A path that is there is not empty and does not begin with a second `/`, a query is not empty, and
    there is no fragment. -/
def RestOk : Prop :=
  (∀ x, T.path = some x → x ≠ [] ∧ x.head? ≠ some 47) ∧ T.query ≠ some [] ∧ T.fragment = none

theorem userText_members : (T.members scheme n).userText.length ≤ T.userText.length ∧
    ((T.members scheme n).userText = T.userText ↔ T.UserOk) := by
  unfold UserOk
  cases hU : T.user with
  | none => simp [Url.userText, userText, members, hU]
  | some u =>
    obtain ⟨name, password⟩ := u
    by_cases hhost : T.host ≠ [] ∨ T.port.getD [] ≠ []
    · cases password with
      | none => simp [Url.userText, userText, members, hU, markPart, hhost]
      | some x => cases x with
        | nil => simp [Url.userText, userText, members, hU, markPart, hhost]
        | cons c x => simp [Url.userText, userText, members, hU, markPart, hhost]
    · have hlt : (T.members scheme n).userText.length < T.userText.length := by
        cases password with
        | none => simp [Url.userText, userText, members, hU, markPart, hhost]
        | some x => cases x with
          | nil => simp [Url.userText, userText, members, hU, markPart, hhost]
          | cons c x => simp [Url.userText, userText, members, hU, markPart, hhost]
      refine ⟨Nat.le_of_lt hlt, fun heq => absurd (congrArg List.length heq) (by omega), fun hok => ?_⟩
      exact absurd (hok name password rfl).2 hhost

theorem hostText_members : (T.members scheme n).hostText.length ≤ T.hostText.length ∧
    ((T.members scheme n).hostText = T.hostText ↔ T.PortOk) := by
  unfold PortOk
  cases hP : T.port with
  | none =>
    by_cases hhost : T.host = []
    · simp [Url.hostText, hostText, members, hP, markPart, hhost]
    · simp [Url.hostText, hostText, members, hP, markPart, hhost]
  | some x =>
    by_cases hhost : T.host = []
    · have hlt : (T.members scheme n).hostText.length < T.hostText.length := by
        simp [Url.hostText, hostText, members, hP, markPart, hhost]
      refine ⟨Nat.le_of_lt hlt, fun heq => absurd (congrArg List.length heq) (by omega), fun hok => ?_⟩
      exact absurd hhost (hok x rfl).2
    · cases x with
      | nil => simp [Url.hostText, hostText, members, hP, markPart, hhost]
      | cons c x => simp [Url.hostText, hostText, members, hP, markPart, hhost]

/-- The path with the `/` in front of it. -/
theorem pathText_members :
    ((if (T.members scheme n).path ≠ [] ∧ (T.members scheme n).isRelative then [47] else []) ++
        (T.members scheme n).path).length ≤ (markPart 47 T.path).length ∧
      ((if (T.members scheme n).path ≠ [] ∧ (T.members scheme n).isRelative then [47] else []) ++
        (T.members scheme n).path = markPart 47 T.path
        ↔ ∀ x, T.path = some x → x ≠ [] ∧ x.head? ≠ some 47) := by
  cases hP : T.path with
  | none => simp [members, hP, markPart]
  | some x => cases x with
    | nil => simp [members, hP, markPart]
    | cons c x =>
      by_cases hc : c = 47
      · simp [members, hP, markPart, Url.isRelative, Url.isAbsolute, hc]
      · simp [members, hP, markPart, Url.isRelative, Url.isAbsolute, hc]

theorem queryText_members :
    (if (T.members scheme n).query ≠ [] then 63 :: (T.members scheme n).query else []).length
        ≤ (markPart 63 T.query).length ∧
      ((if (T.members scheme n).query ≠ [] then 63 :: (T.members scheme n).query else [])
        = markPart 63 T.query ↔ T.query ≠ some []) := by
  cases hQ : T.query with
  | none => simp [members, hQ, markPart]
  | some x => cases x with
    | nil => simp [members, hQ, markPart]
    | cons c x => simp [members, hQ, markPart]

/-- A fragment is not printed as it was read. -/
theorem fragmentText_members :
    (if (T.members scheme n).fragment ≠ [] then 63 :: (T.members scheme n).fragment else []).length
        ≤ (markPart 35 T.fragment).length ∧
      ((if (T.members scheme n).fragment ≠ [] then 63 :: (T.members scheme n).fragment else [])
        = markPart 35 T.fragment ↔ T.fragment = none) := by
  cases hF : T.fragment with
  | none => simp [members, hF, markPart]
  | some x => cases x with
    | nil => simp [members, hF, markPart]
    | cons c x => simp [members, hF, markPart]

theorem restText_members : (T.members scheme n).restText.length ≤ T.rest.length ∧
    ((T.members scheme n).restText = T.rest ↔ T.RestOk) := by
  obtain ⟨hpath, hpathEq⟩ := T.pathText_members scheme n
  obtain ⟨hquery, hqueryEq⟩ := T.queryText_members scheme n
  obtain ⟨hfrag, hfragEq⟩ := T.fragmentText_members scheme n
  have htext : (T.members scheme n).restText
      = ((if (T.members scheme n).path ≠ [] ∧ (T.members scheme n).isRelative then [47] else []) ++
          (T.members scheme n).path) ++
        ((if (T.members scheme n).query ≠ [] then 63 :: (T.members scheme n).query else []) ++
        (if (T.members scheme n).fragment ≠ [] then 63 :: (T.members scheme n).fragment else [])) := by
    simp only [Url.restText, Url.tailText, List.append_assoc]
  have hrest : T.rest = markPart 47 T.path ++ (markPart 63 T.query ++ markPart 35 T.fragment) := by
    rw [UrlText.rest, List.append_assoc]
  rw [htext, hrest, RestOk, ← hpathEq, ← hqueryEq, ← hfragEq]
  have hle := Nat.add_le_add hquery hfrag
  rw [← List.length_append, ← List.length_append] at hle
  constructor
  · refine le_of_eq_of_le List.length_append (le_of_le_of_eq ?_ List.length_append.symm)
    exact Nat.add_le_add hpath hle
  · constructor
    · intro heq
      obtain ⟨h1, h23⟩ := append_eq_append_of_length_le heq hpath hle
      obtain ⟨h2, h3⟩ := append_eq_append_of_length_le h23 hquery hfrag
      exact ⟨h1, h2, h3⟩
    · rintro ⟨h1, h2, h3⟩
      rw [h1, h2, h3]

/-- Nothing that is printed makes up for a missing scheme or for a missing `//`. -/
theorem toString_members_prints
    (h : (T.members scheme n).toString = scheme ++ [58, 47, 47] ++ T.text) :
    scheme ≠ [] ∧ (T.members scheme n).HasAuthority := by
  have huser := (T.userText_members scheme n).1
  have hhost := (T.hostText_members scheme n).1
  have hrest := (T.restText_members scheme n).1
  have hlen := congrArg List.length h
  have hscheme : (T.members scheme n).schemeString = scheme := rfl
  simp only [Url.restText, List.length_append] at hrest
  simp only [Url.toString, UrlText.text, hscheme, List.length_append, List.length_cons,
    List.length_nil] at hlen
  constructor
  · rintro rfl
    rw [if_neg (fun hne => hne rfl)] at hlen
    split at hlen
    · simp only [List.length_append, List.length_cons, List.length_nil] at hlen
      omega
    · simp only [List.length_nil] at hlen
      omega
  · by_contra hnot
    unfold Url.HasAuthority at hnot
    rw [if_neg hnot] at hlen
    split at hlen
    · simp only [List.length_append, List.length_cons, List.length_nil] at hlen
      omega
    · simp only [List.length_nil] at hlen
      omega

/-- The parts are printed as they were read. -/
structure Printable : Prop where
  user : T.UserOk
  host : T.host ≠ []
  port : ∀ s, T.port = some s → s ≠ []
  rest : T.RestOk

/-- **What is printed is what was read exactly if every part is printed as it was read.** -/
theorem toString_members_iff :
    (T.members scheme n).toString = scheme ++ [58, 47, 47] ++ T.text ↔
      scheme ≠ [] ∧ T.Printable := by
  obtain ⟨huser, huserEq⟩ := T.userText_members scheme n
  obtain ⟨hhost, hhostEq⟩ := T.hostText_members scheme n
  obtain ⟨hrest, hrestEq⟩ := T.restText_members scheme n
  constructor
  · intro heq
    obtain ⟨hscheme, hauth⟩ := T.toString_members_prints scheme n heq
    have hprint := Url.toString_eq (u := T.members scheme n) hscheme hauth
    have htext : scheme ++ [58, 47, 47] ++ T.text
        = (scheme ++ [58]) ++ ([47, 47] ++ (T.userText ++ (T.hostText ++ T.rest))) := by
      simp [UrlText.text]
    rw [hprint, htext] at heq
    have hbody := List.append_cancel_left (List.append_cancel_left heq)
    have hle := Nat.add_le_add hhost hrest
    rw [← List.length_append, ← List.length_append] at hle
    obtain ⟨h1, h23⟩ := append_eq_append_of_length_le hbody huser hle
    obtain ⟨h2, h3⟩ := append_eq_append_of_length_le h23 hhost hrest
    have huserOk := huserEq.1 h1
    have hportOk := hhostEq.1 h2
    -- a port needs a host, and so does a user
    have hne : T.host ≠ [] := by
      intro hnil
      have hport : T.port.getD [] = [] := by
        cases hP : T.port with
        | none => rfl
        | some x => exact absurd hnil (hportOk x hP).2
      rcases hauth with hu | hh | hp
      · obtain ⟨u, hU⟩ := Option.isSome_iff_exists.1 hu
        rcases (huserOk u.1 u.2 hU).2 with hh | hp
        · exact hh hnil
        · exact hp hport
      · exact hh hnil
      · exact hp hport
    exact ⟨hscheme, huserOk, hne, fun x hx => (hportOk x hx).1, hrestEq.1 h3⟩
  · rintro ⟨hscheme, huserOk, hne, hport, hrestOk⟩
    rw [Url.toString_eq (u := T.members scheme n) hscheme (.inr (.inl hne)), huserEq.2 huserOk,
      hhostEq.2 fun x hx => ⟨hport x hx, hne⟩, hrestEq.2 hrestOk]
    simp [members, UrlText.text]

end UrlText

/-! ## Round trips -/

section RoundTrip

variable {strToNum : Bytes → Option Nat} {data : Bytes}

/-- The loop is past the scheme. -/
def PastScheme (p : UrlParse) : Prop := PastAuth p ∨ p.sect = .auth

theorem parseAuth_pastScheme {p : UrlParse} (hs : p.sect = .auth) :
    PastScheme (parseAuth strToNum data p) ∧
      (parseAuth strToNum data p).url.schemeString = p.url.schemeString := by
  have henter : (enterAuth data p).1.sect = .auth ∧
      (enterAuth data p).1.url.schemeString = p.url.schemeString := by
    unfold enterAuth
    split
    · exact ⟨hs, rfl⟩
    · split <;> exact ⟨hs, rfl⟩
  unfold parseAuth
  split
  · next q hq =>
    rw [hq] at henter
    rw [← henter.2]
    unfold parseUserinfo
    split
    · exact ⟨.inr henter.1, rfl⟩
    · simp only
      split <;> exact ⟨.inr henter.1, rfl⟩
  · next q hq =>
    rw [hq] at henter
    rw [← henter.2]
    unfold parseHost
    split
    · exact ⟨.inr henter.1, rfl⟩
    · split
      · next hnext => exact ⟨.inl (nextSection_pastAuth hnext), rfl⟩
      · exact ⟨.inr henter.1, rfl⟩
  · next q hq =>
    rw [hq] at henter
    rw [← henter.2]
    unfold parsePort
    split
    · next hnext =>
      unfold setPort
      split
      · exact ⟨.inl (nextSection_pastAuth hnext), rfl⟩
      · exact ⟨.inr henter.1, rfl⟩
    · simp only
      unfold setPort
      split
      · exact ⟨.inr henter.1, rfl⟩
      · exact ⟨.inr henter.1, rfl⟩

theorem parseSection_pastScheme {p : UrlParse} (h : PastScheme p) :
    PastScheme (parseSection strToNum data p) ∧
      (parseSection strToNum data p).url.schemeString = p.url.schemeString := by
  unfold parseSection
  rcases h with (hs | hs | hs) | hs
  · rw [hs]
    simp only [parsePath]
    split
    · exact ⟨.inl (.inr (.inr rfl)), rfl⟩
    · split
      · exact ⟨.inl (.inr (.inl rfl)), rfl⟩
      · exact ⟨.inl (.inl hs), rfl⟩
  · rw [hs]
    simp only [parseQuery]
    split
    · exact ⟨.inl (.inr (.inr rfl)), rfl⟩
    · exact ⟨.inl (.inr (.inl hs)), rfl⟩
  · rw [hs]
    exact ⟨.inl (.inr (.inr hs)), rfl⟩
  · rw [hs]
    exact parseAuth_pastScheme hs

/-- A URL that begins with `/`, `?` or `#` has no scheme, and is printed with `unknown:`. -/
theorem parseUrl_noScheme (strToNum : Bytes → Option Nat) {c : UInt8} (t : Bytes) (hc : isDelim c = true) :
    (parseUrl strToNum (c :: t)).url.schemeString = bytes "unknown" := by
  have hstart : PastScheme { sect := startSection (c :: t) } := by
    simp only [isDelim, Bool.or_eq_true, decide_eq_true_eq] at hc
    rcases hc with (rfl | rfl) | rfl
    · cases t with
      | nil => exact .inl (.inl rfl)
      | cons d t =>
        by_cases hd : d = 47
        · subst hd
          exact .inr rfl
        · refine .inl (.inl ?_)
          simp only
          unfold startSection
          split
          · next heq => exact absurd (List.cons.inj (List.cons.inj heq).2).1 hd
          · rfl
          · next heq => cases (List.cons.inj heq).1
          · next heq => cases (List.cons.inj heq).1
          · next hno _ _ => exact absurd rfl (hno _)
    · exact .inl (.inr (.inl rfl))
    · exact .inl (.inr (.inr rfl))
  have hkeep : ∀ q, PastScheme q ∧ q.url.schemeString = bytes "unknown" →
      PastScheme (parseSection strToNum (c :: t) q) ∧
        (parseSection strToNum (c :: t) q).url.schemeString = bytes "unknown" := by
    rintro q ⟨hpast, hq⟩
    exact ⟨(parseSection_pastScheme hpast).1, (parseSection_pastScheme hpast).2.trans hq⟩
  exact (parseRest_invariant hkeep ⟨hstart, rfl⟩).2

/-- A URL is parsed, printed as it was, and the printed one is parsed alike. -/
def RoundTrips (strToNum : Bytes → Option Nat) (data : Bytes) : Prop :=
  (parseUrl strToNum data).error = none ∧ (parseUrl strToNum data).url.toString = data ∧
    parseUrl strToNum (parseUrl strToNum data).url.toString = parseUrl strToNum data

/-- A text after a scheme makes the round trip exactly if the parts it is cut into are printed as
    they were read, and the port among them is a number. -/
theorem roundTrips_text_iff (strToNum : Bytes → Option Nat) (scheme t : Bytes) (hcolon : 58 ∉ scheme)
    (hlower : lower scheme = scheme) :
    RoundTrips strToNum (scheme ++ [58, 47, 47] ++ t) ↔
      scheme ≠ [] ∧ SchemeFirst scheme ∧ (readUrl t).Printable ∧
        ∀ s, (readUrl t).port = some s → (strToNum s).isSome := by
  obtain ⟨htext, hproper⟩ := readUrl_spec t
  by_cases hfirst : SchemeFirst scheme
  · have hparts := parseUrl_parts strToNum scheme (readUrl t) hcolon hlower hfirst hproper
    rw [htext] at hparts
    obtain ⟨hurl, hok⟩ := hparts
    constructor
    · rintro ⟨herr, hprint, -⟩
      obtain ⟨hnum, n, hn⟩ := hurl herr
      have hiff := (readUrl t).toString_members_iff scheme n
      rw [htext, ← hn] at hiff
      obtain ⟨hscheme, hprintable⟩ := hiff.1 hprint
      exact ⟨hscheme, hfirst, hprintable, fun s hs =>
        hnum s hs fun hnil => hprintable.port s hs (List.append_eq_nil_iff.1 hnil).1⟩
    · rintro ⟨hscheme, -, hprintable, hnum⟩
      have herr := hok hnum
      obtain ⟨-, n, hn⟩ := hurl herr
      have hiff := (readUrl t).toString_members_iff scheme n
      rw [htext, ← hn] at hiff
      have hprint := hiff.2 ⟨hscheme, hprintable⟩
      exact ⟨herr, hprint, by rw [hprint]⟩
  · have hne : scheme ≠ [] := by
      rintro rfl
      exact hfirst fun c hc => by cases hc
    obtain ⟨c, x, rfl⟩ := List.exists_cons_of_ne_nil hne
    have hc : isDelim c = true := by
      by_contra hnot
      exact hfirst fun d hd => by cases hd; simpa using hnot
    constructor
    · rintro ⟨-, hprint, -⟩
      have hunknown := parseUrl_noScheme strToNum (x ++ [58, 47, 47] ++ t) hc
      have hhead := congrArg List.head? hprint
      simp only [List.cons_append] at hunknown hhead
      rw [Url.toString, hunknown, if_pos (by decide)] at hhead
      have hu : some (117 : UInt8) = some c := hhead
      cases hu
      cases hc
    · rintro ⟨-, h, -⟩
      exact absurd h hfirst

end RoundTrip

/-! ## URLs put together from their parts -/

/-- The number a decimal text stands for. -/
def decimalValue (s : Bytes) : Nat := s.foldl (fun n c => 10 * n + (c.toNat - 48)) 0

/-- A decimal number in 0..65535. -/
def IsPort (s : Bytes) : Prop := s ≠ [] ∧ (∀ c ∈ s, 48 ≤ c ∧ c ≤ 57) ∧ decimalValue s ≤ 65535

/-- No `/`, `?`, `#`, `:` or `@`. -/
def IsPlain (x : Bytes) : Prop := NoDelim x ∧ 58 ∉ x ∧ 64 ∉ x

namespace UrlText

/-- The parts of a URL that has a host. -/
structure WellFormed (T : UrlText) : Prop where
  user : ∀ name password, T.user = some (name, password) →
    IsPlain name ∧ ∀ x, password = some x → IsPlain x
  host : T.host ≠ [] ∧ IsPlain T.host
  port : ∀ s, T.port = some s → IsPort s
  path : FreeOf 63 T.path ∧ FreeOf 35 T.path
  query : T.query ≠ some [] ∧ FreeOf 63 T.query ∧ FreeOf 35 T.query
  fragment : T.fragment ≠ some [] ∧ FreeOf 63 T.fragment ∧ FreeOf 35 T.fragment

variable {T : UrlText}

theorem Proper.readHost (hT : T.Proper) : readHost T.user (T.hostText ++ T.rest) = T := by
  have hpq : 35 ∉ markPart 47 T.path ++ markPart 63 T.query := by
    rw [List.mem_append, not_or]
    exact ⟨not_mem_markPart hT.path.2 (by decide), not_mem_markPart hT.query (by decide)⟩
  have hpath : 63 ∉ markPart 47 T.path := not_mem_markPart hT.path.1 (by decide)
  have hrest : ∀ R : UrlText, readRest R T.rest
      = { R with path := T.path, query := T.query, fragment := T.fragment } := by
    intro R
    unfold readRest UrlText.rest
    rw [cut_markPart T.fragment hpq]
    simp only [cut_markPart T.query hpath]
    cases T.path with
    | none => rfl
    | some x => rfl
  have htail : ∀ x : Bytes, NoDelim x → (x ++ T.rest).takeWhile (!isDelim ·) = x ∧
      (x ++ T.rest).dropWhile (!isDelim ·) = T.rest := by
    intro x hx
    have hall : ∀ c ∈ x, (!isDelim c) = true := fun c hc => by simp [noDelim_iff.1 hx c hc]
    rw [List.takeWhile_append_of_pos hall, List.dropWhile_append_of_pos hall]
    rcases T.isRest_rest with hnil | ⟨c, t, heq, hc⟩
    · rw [hnil]
      exact ⟨List.append_nil x, rfl⟩
    · have hdelim : isDelim c = true := by
        rcases hc with rfl | rfl | rfl <;> rfl
      rw [heq]
      simp [hdelim]
  cases hP : T.port with
  | some s =>
    obtain ⟨hcolon, hdelim⟩ := hT.port s hP
    have htext : T.hostText ++ T.rest = T.host ++ markPart 58 (some (s ++ T.rest)) := by
      simp [hostText, hP, markPart]
    unfold LibEvmvc.readHost
    rw [htext, cut_markPart _ hcolon]
    simp only [htail s hdelim, hrest]
    rw [← hP]
  | none =>
    obtain ⟨hdelim, hcolon⟩ := hT.noPort hP
    have htext : T.hostText = T.host := by rw [hostText, hP, markPart, List.append_nil]
    unfold LibEvmvc.readHost
    rw [htext, cut_of_not_mem hcolon]
    simp only [htail T.host hdelim, hrest]
    rw [← hP]

/-- Parts that end where they should are cut off again. -/
theorem Proper.readUrl (hT : T.Proper) : readUrl T.text = T := by
  cases hU : T.user with
  | some u =>
    obtain ⟨name, password⟩ := u
    obtain ⟨hname, -, -⟩ := hT.user name password hU
    have hu := hT.user_noAt hU
    have htext : T.text = (name ++ markPart 58 password) ++ markPart 64 (some (T.hostText ++ T.rest)) := by
      simp [text, userText, hU, markPart]
    unfold LibEvmvc.readUrl
    rw [htext, cut_markPart _ hu]
    simp only [cut_markPart password hname]
    rw [← hU]
    exact hT.readHost
  | none =>
    have htext : T.text = T.hostText ++ T.rest := by
      simp [text, userText, hU]
    unfold LibEvmvc.readUrl
    rw [htext, cut_of_not_mem (hT.noUser hU)]
    simp only
    rw [← hU]
    exact hT.readHost

/-- With no `@` and no `:` after the authority that it does not have itself, the parser cuts a URL
    into the parts it was put together from. -/
theorem WellFormed.proper (hT : T.WellFormed) (hat : T.user ≠ none ∨ 64 ∉ T.rest)
    (hcolon : T.port ≠ none ∨ 58 ∉ T.rest) : T.Proper where
  user := by
    rintro name password hU
    obtain ⟨hname, hpass⟩ := hT.user name password hU
    exact ⟨hname.2.1, hname.2.2, fun x hx => (hpass x hx).2.2⟩
  noUser := by
    intro hU
    have hport : 64 ∉ markPart 58 T.port := by
      refine not_mem_markPart (fun s hs hc => ?_) (by decide)
      exact absurd ((hT.port s hs).2.1 64 hc) (by decide)
    simp only [hostText, List.mem_append, not_or]
    exact ⟨⟨hT.host.2.2.2, hport⟩, hat.resolve_left fun hne => hne hU⟩
  port := by
    rintro s hs
    refine ⟨hT.host.2.2.1, noDelim_iff.2 fun c hc => ?_⟩
    have hdigit := (hT.port s hs).2.1 c hc
    by_contra hdelim
    simp only [isDelim, Bool.not_eq_false, Bool.or_eq_true, decide_eq_true_eq] at hdelim
    rcases hdelim with (rfl | rfl) | rfl
    · exact absurd hdigit (by decide)
    · exact absurd hdigit (by decide)
    · exact absurd hdigit (by decide)
  noPort := by
    intro hP
    rw [List.mem_append, not_or]
    exact ⟨hT.host.2.1, hT.host.2.2.1, hcolon.resolve_left fun hne => hne hP⟩
  path := hT.path
  query := hT.query.2.2

end UrlText

/-- **A URL makes the round trip exactly if it has a scheme that does not begin with `/`, `?` or `#`,
    and the parts the parser cuts it into are printed as they were read**: no empty password, no
    empty host, no path that is empty or begins with a second `/`, no fragment; and a port that is
    not the URL's own is one `str_to_num` accepts. -/
theorem roundTrips_iff (strToNum : Bytes → Option Nat)
    (hnum : ∀ s, IsPort s → (strToNum s).isSome) (scheme : Bytes) (T : UrlText)
    (hcolon : 58 ∉ scheme) (hlower : lower scheme = scheme) (hT : T.WellFormed) :
    RoundTrips strToNum (scheme ++ [58, 47, 47] ++ T.text) ↔
      scheme ≠ [] ∧ SchemeFirst scheme ∧ (readUrl T.text).Printable ∧
        ∀ s, (readUrl T.text).port = some s → T.port = some s ∨ (strToNum s).isSome := by
  rw [roundTrips_text_iff strToNum scheme T.text hcolon hlower]
  refine and_congr_right fun _ => and_congr_right fun _ => and_congr_right fun _ => ?_
  refine forall_congr' fun s => imp_congr_right fun _ => ?_
  constructor
  · intro h
    exact .inr h
  · rintro (hown | h)
    · exact hnum s (hT.port s hown)
    · exact h

/-- `http://u:p@h:80/a?q`. -/
def sampleUrl : UrlText :=
  { user := some (bytes "u", some (bytes "p")), host := bytes "h", port := some (bytes "80"),
    path := some (bytes "a"), query := some (bytes "q"), fragment := none }

theorem wellFormed_sampleUrl : sampleUrl.WellFormed where
  user := by
    rintro name password hU
    cases hU
    refine ⟨⟨by decide, by decide, by decide⟩, ?_⟩
    rintro x hx
    cases hx
    exact ⟨by decide, by decide, by decide⟩
  host := ⟨by decide, by decide, by decide, by decide⟩
  port := by
    rintro s hs
    cases hs
    exact ⟨by decide, forall_mem_of_all (by decide), by decide⟩
  path := by
    constructor <;>
    · rintro x hx
      cases hx
      decide
  query := by
    refine ⟨by decide, ?_, ?_⟩ <;>
    · rintro x hx
      cases hx
      decide
  fragment := by
    refine ⟨by decide, ?_, ?_⟩ <;>
    · rintro x hx
      cases hx

theorem roundTrips_sampleUrl :
    RoundTrips (fun s => some (decimalValue s)) (bytes "http" ++ [58, 47, 47] ++ sampleUrl.text) := by
  refine (roundTrips_iff _ (fun _ _ => rfl) (bytes "http") sampleUrl (by decide) (by decide)
    wellFormed_sampleUrl).2 ⟨by decide, by decide, ⟨?_, by decide, ?_, ?_, by decide, by decide⟩, ?_⟩
  · rintro name password hU
    cases hU
    exact ⟨by decide, .inl (by decide)⟩
  · rintro s hs
    cases hs
    decide
  · rintro x hx
    cases hx
    exact ⟨by decide, by decide⟩
  · rintro s hs
    exact .inl hs

/-- `http://h/a#f` is printed `http://h/a?f`. -/
theorem fragment_printed_as_query :
    ¬ ∀ (strToNum : Bytes → Option Nat) (scheme : Bytes) (T : UrlText),
      (∀ s, IsPort s → (strToNum s).isSome) → 58 ∉ scheme → lower scheme = scheme → T.WellFormed →
      RoundTrips strToNum (scheme ++ [58, 47, 47] ++ T.text) := by
  intro hall
  have hT : UrlText.WellFormed
      { user := none, host := bytes "h", port := none, path := some (bytes "a"), query := none,
        fragment := some (bytes "f") } := by
    refine ⟨?_, ⟨by decide, by decide, by decide, by decide⟩, ?_, ?_, ?_, ?_⟩
    · rintro name password hU
      cases hU
    · rintro s hs
      cases hs
    · constructor <;>
      · rintro x hx
        cases hx
        decide
    · refine ⟨by decide, ?_, ?_⟩ <;>
      · rintro x hx
        cases hx
    · refine ⟨by decide, ?_, ?_⟩ <;>
      · rintro x hx
        cases hx
        decide
  have hprint := (hall (fun s => some (decimalValue s)) (bytes "http") _ (fun _ _ => rfl)
    (by decide) (by decide) hT).2.1
  revert hprint
  decide

/-- In a URL with no `@` and no `:` after the authority that it does not have itself, the parts are
    its own. -/
theorem roundTrips_plain (strToNum : Bytes → Option Nat)
    (hnum : ∀ s, IsPort s → (strToNum s).isSome) (scheme : Bytes) (T : UrlText)
    (hcolon : 58 ∉ scheme) (hlower : lower scheme = scheme) (hT : T.WellFormed)
    (hat : T.user ≠ none ∨ 64 ∉ T.rest) (hrest : T.port ≠ none ∨ 58 ∉ T.rest) :
    RoundTrips strToNum (scheme ++ [58, 47, 47] ++ T.text) ↔
      scheme ≠ [] ∧ SchemeFirst scheme ∧ (∀ name, T.user ≠ some (name, some [])) ∧
        (∀ x, T.path = some x → x ≠ [] ∧ x.head? ≠ some 47) ∧ T.fragment = none := by
  rw [roundTrips_text_iff strToNum scheme T.text hcolon hlower, (hT.proper hat hrest).readUrl]
  refine and_congr_right fun _ => and_congr_right fun _ => ?_
  constructor
  · rintro ⟨⟨huser, -, -, hpath, -, hfrag⟩, -⟩
    exact ⟨fun name hU => (huser name _ hU).1 rfl, hpath, hfrag⟩
  · rintro ⟨huser, hpath, hfrag⟩
    refine ⟨⟨?_, hT.host.1, fun s hs => (hT.port s hs).1, hpath, hT.query.1, hfrag⟩,
      fun s hs => hnum s (hT.port s hs)⟩
    rintro name password hU
    refine ⟨?_, .inl hT.host.1⟩
    rintro rfl
    exact huser name hU

end LibEvmvc
