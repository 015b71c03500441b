import LibEvmvc.Http.UrlText

set_option autoImplicit false

/-! # The forms of a request target

`http_parser::validate_headers` resolves the target of the request line against `http://` and the
host: `url(base, target)` parses both and takes scheme and authority of the base. `_parse` enters the
path of an origin form where the text begins, with its `/`; behind the authority of an absolute form
it enters it past the `/` that ended the host. So the absolute form loses the first character of its
path, and the two forms agree only on a path that begins with `//`: that one is an authority with an
empty host to `_parse`, and loses its first `/` too.

An `@` or a `:` in query or fragment then belongs to the authority, as `Http/Url` says. Both forms
still read the same tail, as all of it is behind the `?`. -/

namespace LibEvmvc

/-- `url::url(sbase, u)`. -/
def Url.ofBase (strToNum : Bytes → Option Nat) (sbase u : Bytes) : Except UrlError Url :=
  let base := parseUrl strToNum sbase
  let target := parseUrl strToNum u
  match base.error with
  | some e => .error e
  | none => match target.error with
    | some e => .error e
    | none => .ok
      { base.url with
        path := if target.url.path ≠ [] ∧ target.url.isAbsolute = false then
            base.url.path ++ target.url.path
          else target.url.path
        query := target.url.query
        fragment := target.url.fragment }

/-- `p?q#f`. -/
def originForm (p q f : Bytes) : Bytes := p ++ 63 :: (q ++ 35 :: f)

/-- The base `validate_headers` makes up for the host of a connection that is not secure. -/
def baseUrl (h : Bytes) : Bytes := bytes "http://" ++ h

/-- Both forms of a target are resolved, to URLs with the same path, query and fragment, and a path
    that begins with `/`. -/
def FormsAgree (strToNum : Bytes → Option Nat) (h p q f : Bytes) : Prop :=
  ∃ a o, Url.ofBase strToNum (baseUrl h) (baseUrl h ++ originForm p q f) = .ok a ∧
    Url.ofBase strToNum (baseUrl h) (originForm p q f) = .ok o ∧
    (a.path = o.path ∧ a.query = o.query ∧ a.fragment = o.fragment) ∧ a.isAbsolute ∧ o.isAbsolute

/-- A path of a target. -/
def IsTargetPath (p : Bytes) : Prop := p.head? = some 47 ∧ 63 ∉ p ∧ 35 ∉ p ∧ 58 ∉ p ∧ 64 ∉ p

instance (p : Bytes) : Decidable (IsTargetPath p) := by
  unfold IsTargetPath
  infer_instance

/-! ## The base -/

section Resolve

variable (strToNum : Bytes → Option Nat)

theorem parseUrl_base {h : Bytes} (hh : IsPlain h) :
    (parseUrl strToNum (baseUrl h)).error = none ∧
      (parseUrl strToNum (baseUrl h)).url.path = [] := by
  have hproper : UrlText.Proper
      { user := none, host := h, port := none, path := none, query := none, fragment := none } := by
    refine ⟨fun _ _ hU => (by cases hU), fun _ => ?_, fun _ hs => (by cases hs), fun _ => ?_,
      ⟨fun _ hx => (by cases hx), fun _ hx => (by cases hx)⟩, fun _ hx => (by cases hx)⟩
    · simpa [UrlText.hostText, UrlText.rest, markPart] using hh.2.2
    · simpa [UrlText.rest, markPart] using ⟨hh.1, hh.2.1⟩
  have htext : baseUrl h = bytes "http" ++ [58, 47, 47] ++ UrlText.text
      { user := none, host := h, port := none, path := none, query := none, fragment := none } := by
    have hscheme : bytes "http://" = bytes "http" ++ [58, 47, 47] := by decide
    simp [baseUrl, hscheme, UrlText.text, UrlText.userText, UrlText.hostText, UrlText.rest, markPart]
  rw [htext]
  obtain ⟨hurl, hok⟩ := parseUrl_parts strToNum (bytes "http") _ (by decide) (by decide) (by decide)
    hproper
  have herr := hok fun _ hs => (by cases hs)
  obtain ⟨-, n, hn⟩ := hurl herr
  exact ⟨herr, by rw [hn]; rfl⟩

/-- Against a base without a path the target keeps its own path, query and fragment. -/
theorem Url.ofBase_iff {h : Bytes} (hh : IsPlain h) (u : Bytes) (P : Bytes → Bytes → Bytes → Prop) :
    (∃ a, Url.ofBase strToNum (baseUrl h) u = .ok a ∧ P a.path a.query a.fragment) ↔
      (parseUrl strToNum u).error = none ∧ P (parseUrl strToNum u).url.path
        (parseUrl strToNum u).url.query (parseUrl strToNum u).url.fragment := by
  obtain ⟨hbase, hpath⟩ := parseUrl_base strToNum hh
  unfold Url.ofBase
  cases herr : (parseUrl strToNum u).error with
  | some e => simp [hbase, herr]
  | none => simp [hbase, herr, hpath]

theorem formsAgree_iff_parses {h : Bytes} (hh : IsPlain h) (p q f : Bytes) :
    FormsAgree strToNum h p q f ↔
      (parseUrl strToNum (baseUrl h ++ originForm p q f)).error = none ∧
      (parseUrl strToNum (originForm p q f)).error = none ∧
      ((parseUrl strToNum (baseUrl h ++ originForm p q f)).url.path
          = (parseUrl strToNum (originForm p q f)).url.path ∧
        (parseUrl strToNum (baseUrl h ++ originForm p q f)).url.query
          = (parseUrl strToNum (originForm p q f)).url.query ∧
        (parseUrl strToNum (baseUrl h ++ originForm p q f)).url.fragment
          = (parseUrl strToNum (originForm p q f)).url.fragment) ∧
      (parseUrl strToNum (originForm p q f)).url.path.head? = some 47 := by
  have habs := Url.ofBase_iff strToNum hh (baseUrl h ++ originForm p q f)
  have horg := Url.ofBase_iff strToNum hh (originForm p q f)
  constructor
  · rintro ⟨a, o, ha, ho, ⟨hpath, hquery, hfrag⟩, -, hslash⟩
    obtain ⟨haerr, hapath, haquery, hafrag⟩ :=
      (habs fun x y z => x = a.path ∧ y = a.query ∧ z = a.fragment).1 ⟨a, ha, rfl, rfl, rfl⟩
    obtain ⟨hoerr, hopath, hoquery, hofrag⟩ :=
      (horg fun x y z => x = o.path ∧ y = o.query ∧ z = o.fragment).1 ⟨o, ho, rfl, rfl, rfl⟩
    refine ⟨haerr, hoerr, ⟨?_, ?_, ?_⟩, ?_⟩
    · rw [hapath, hpath, hopath]
    · rw [haquery, hquery, hoquery]
    · rw [hafrag, hfrag, hofrag]
    · rw [hopath]
      simpa [Url.isAbsolute] using hslash
  · rintro ⟨haerr, hoerr, ⟨hpath, hquery, hfrag⟩, hslash⟩
    obtain ⟨a, ha, hapath, haquery, hafrag⟩ := (habs fun x y z =>
      x = (parseUrl strToNum (originForm p q f)).url.path ∧
      y = (parseUrl strToNum (originForm p q f)).url.query ∧
      z = (parseUrl strToNum (originForm p q f)).url.fragment).2 ⟨haerr, hpath, hquery, hfrag⟩
    obtain ⟨o, ho, hopath, hoquery, hofrag⟩ := (horg fun x y z =>
      x = (parseUrl strToNum (originForm p q f)).url.path ∧
      y = (parseUrl strToNum (originForm p q f)).url.query ∧
      z = (parseUrl strToNum (originForm p q f)).url.fragment).2 ⟨hoerr, rfl, rfl, rfl⟩
    refine ⟨a, o, ha, ho, ⟨hapath.trans hopath.symm, haquery.trans hoquery.symm,
      hafrag.trans hofrag.symm⟩, ?_, ?_⟩
    · rw [Url.isAbsolute, hapath, hslash]
      rfl
    · rw [Url.isAbsolute, hopath, hslash]
      rfl

/-! ## The tail behind an authority -/

/-- What is behind the host is read as the tail of the parts, if the port is a number. -/
structure ReadsTail (T : UrlText) (q : UrlParse) : Prop where
  read : q.error = none →
    (∀ s, T.port = some s → s ++ T.rest ≠ [] → (strToNum s).isSome) ∧
      q.url.path = T.path.getD [] ∧ q.url.query = T.query.getD [] ∧
      q.url.fragment = T.fragment.getD []
  noError : (∀ s, T.port = some s → (strToNum s).isSome) → q.error = none

theorem readsTail_absolute (h o : Bytes) :
    ReadsTail strToNum (readUrl (h ++ o)) (parseUrl strToNum (baseUrl h ++ o)) := by
  obtain ⟨htext, hproper⟩ := readUrl_spec (h ++ o)
  obtain ⟨hurl, hok⟩ := parseUrl_parts strToNum (bytes "http") (readUrl (h ++ o)) (by decide)
    (by decide) (by decide) hproper
  have hscheme : bytes "http://" = bytes "http" ++ [58, 47, 47] := by decide
  have hdata : baseUrl h ++ o = bytes "http" ++ [58, 47, 47] ++ (readUrl (h ++ o)).text := by
    rw [htext, baseUrl, hscheme, List.append_assoc _ h o]
  rw [hdata]
  refine ⟨fun herr => ?_, hok⟩
  obtain ⟨hnum, n, hn⟩ := hurl herr
  rw [hn]
  exact ⟨hnum, rfl, rfl, rfl⟩

/-- The first `@` of the text ends the user information, wherever it is. -/
theorem parseUserinfo_any (pre u t : Bytes) (p : UrlParse) (hu : 64 ∉ u) (hs : p.sect = .auth)
    (hsub : p.subSec = none) (hpos : p.spos = pre.length) :
    ∃ name password, parseSection strToNum (pre ++ (u ++ 64 :: t)) p
      = { p with
          url := { p.url with userinfo := true, username := name, password := password }
          subSec := some .host
          spos := (pre ++ u ++ [64]).length } := by
  have hnext : (pre ++ u).length + 1 = (pre ++ u ++ [64]).length := by
    simp only [List.length_append, List.length_singleton]
  simp only [parseSection, hs, parseAuth, enterAuth, hsub, hpos, findCh_some pre u t 64 hu,
    parseUserinfo, hnext]
  cases (findCh (pre ++ (u ++ 64 :: t)) 58 pre.length).filter
      (fun idx => decide (idx > 1) && decide (idx < (pre ++ u).length)) with
  | some idx => exact ⟨_, _, rfl⟩
  | none => exact ⟨_, _, rfl⟩

/-- A text that begins with an authority. -/
theorem readsTail_auth {T : UrlText} (hT : T.Proper) :
    ReadsTail strToNum T (parseRest strToNum T.text { sect := .auth }) := by
  cases hU : T.user with
  | some u =>
    obtain ⟨name, password⟩ := u
    obtain ⟨-, hat, hpass⟩ := hT.user name password hU
    have hu : 64 ∉ name ++ markPart 58 password := by
      rw [List.mem_append, not_or]
      exact ⟨hat, not_mem_markPart hpass (by decide)⟩
    have htext : T.text = [] ++ ((name ++ markPart 58 password) ++ 64 :: (T.hostText ++ T.rest)) := by
      simp [UrlText.text, UrlText.userText, hU]
    have hpast : [] ++ ((name ++ markPart 58 password) ++ 64 :: (T.hostText ++ T.rest))
        = ([] ++ (name ++ markPart 58 password) ++ [64]) ++ (T.hostText ++ T.rest) := by simp
    obtain ⟨name', password', hstep⟩ := parseUserinfo_any strToNum [] (name ++ markPart 58 password)
      (T.hostText ++ T.rest) { sect := .auth } hu rfl rfl rfl
    have hlen : 0 < ([] ++ ((name ++ markPart 58 password) ++
        64 :: (T.hostText ++ T.rest))).length := by
      simp only [List.length_append, List.length_cons]
      omega
    rw [htext, parseRest_step _ hlen rfl, hstep, hpast]
    obtain ⟨hurl, hok⟩ := parseHost_rest strToNum ([] ++ (name ++ markPart 58 password) ++ [64]) T
      { url := { userinfo := true, username := name', password := password' }, sect := .auth,
        subSec := some .host, spos := ([] ++ (name ++ markPart 58 password) ++ [64]).length }
      hT rfl rfl rfl rfl rfl rfl ⟨rfl, rfl, rfl⟩
    refine ⟨fun herr => ?_, hok⟩
    obtain ⟨hnum, n, hn⟩ := hurl herr
    rw [hn]
    exact ⟨hnum, rfl, rfl, rfl⟩
  | none =>
    have htext : T.text = [] ++ (T.hostText ++ T.rest) := by
      simp [UrlText.text, UrlText.userText, hU]
    obtain ⟨herror, hkeep⟩ := parseRest_atHost strToNum [] (T.hostText ++ T.rest) { sect := .auth }
      (hT.noUser hU) rfl rfl rfl rfl rfl
    obtain ⟨hurl, hok⟩ := parseHost_rest strToNum [] T (UrlParse.atHost { sect := .auth }) hT rfl rfl
      rfl rfl rfl rfl ⟨rfl, rfl, rfl⟩
    rw [htext]
    refine ⟨fun herr => ?_, fun h => herror.trans (hok h)⟩
    obtain ⟨hnum, n, hn⟩ := hurl (herror.symm.trans herr)
    rw [hkeep, hn]
    exact ⟨hnum, rfl, rfl, rfl⟩

/-! ## One tail for both forms -/

end Resolve

/-- Cut alike from the port on. -/
def UrlText.SameTail (T T' : UrlText) : Prop :=
  T.port = T'.port ∧ T.path = T'.path ∧ T.query = T'.query ∧ T.fragment = T'.fragment

theorem cut_append {c : UInt8} {x : Bytes} (hx : c ∉ x) (t : Bytes) :
    cut c (x ++ t) = (x ++ (cut c t).1, (cut c t).2) := by
  obtain ⟨htext, hfree⟩ := cut_spec c t
  conv_lhs => rw [← htext, ← List.append_assoc]
  exact cut_markPart _ (by simp [hx, hfree])

theorem sameTail_readHost (user user' : Option (Bytes × Option Bytes)) {x x' : Bytes} (t : Bytes)
    (hx : 58 ∉ x) (hx' : 58 ∉ x')
    (hdrop : (x ++ t).dropWhile (!isDelim ·) = (x' ++ t).dropWhile (!isDelim ·)) :
    (readHost user (x ++ t)).SameTail (readHost user' (x' ++ t)) := by
  unfold readHost
  rw [cut_append hx, cut_append hx']
  cases (cut 58 t).2 with
  | some r => exact ⟨rfl, rfl, rfl, rfl⟩
  | none =>
    simp only [hdrop]
    exact ⟨rfl, rfl, rfl, rfl⟩

/-- What is in front of the first `/`, `?` or `#` has no say in the tail. -/
theorem sameTail_readUrl {x x' : Bytes} (t : Bytes) (hx : 58 ∉ x ∧ 64 ∉ x) (hx' : 58 ∉ x' ∧ 64 ∉ x')
    (hdrop : (x ++ t).dropWhile (!isDelim ·) = (x' ++ t).dropWhile (!isDelim ·)) :
    (readUrl (x ++ t)).SameTail (readUrl (x' ++ t)) := by
  unfold readUrl
  rw [cut_append hx.2, cut_append hx'.2]
  cases (cut 64 t).2 with
  | some y =>
    exact @sameTail_readHost _ _ [] [] y List.not_mem_nil List.not_mem_nil rfl
  | none => exact sameTail_readHost none none t hx.1 hx'.1 hdrop

/-- Both forms of a target are cut alike from the port on. -/
theorem sameTail_forms {h p : Bytes} (hh : IsPlain h) (hp : IsTargetPath p) (q f : Bytes) :
    (readUrl (h ++ originForm p q f)).SameTail (readUrl (originForm p q f)) := by
  obtain ⟨hslash, -, -, hcolon, hat⟩ := hp
  have hall : ∀ c ∈ h, (!isDelim c) = true := fun c hc => by simp [noDelim_iff.1 hh.1 c hc]
  unfold originForm
  rw [← List.append_assoc]
  refine sameTail_readUrl _ ?_ ⟨hcolon, hat⟩ ?_
  · simp only [List.mem_append, not_or]
    exact ⟨⟨hh.2.1, hcolon⟩, hh.2.2, hat⟩
  · rw [List.append_assoc, List.dropWhile_append_of_pos hall]

/-! ## When the forms agree -/

section Agree

variable (strToNum : Bytes → Option Nat)

/-- A port that is a number, with `//` behind it. -/
def PortGoesOn (r : Bytes) : Prop :=
  (strToNum (r.takeWhile (!isDelim ·))).isSome ∧ [47, 47] <+: r.dropWhile (!isDelim ·)

/-- A host with `//` behind it, or with a `:` and such a port. -/
def HostGoesOn (y : Bytes) : Prop :=
  match (cut 58 y).2 with
  | some r => PortGoesOn strToNum r
  | none => [47, 47] <+: y.dropWhile (!isDelim ·)

/-- What `_parse` makes of query and fragment if it takes them for the end of the authority. -/
def GoesOn (t : Bytes) : Prop :=
  match (cut 64 t).2 with
  | some y => HostGoesOn strToNum y
  | none => match (cut 58 t).2 with
    | some r => PortGoesOn strToNum r
    | none => True

/-- The port is a number and the path begins with `/`. -/
def UrlText.TailOk (T : UrlText) : Prop :=
  (∀ s, T.port = some s → (strToNum s).isSome) ∧ (T.path.getD []).head? = some 47

theorem UrlText.head?_path_iff (T : UrlText) : (T.path.getD []).head? = some 47 ↔ [47, 47] <+: T.rest := by
  unfold UrlText.rest
  cases T.path with
  | some x =>
    cases x with
    | nil => cases T.query <;> cases T.fragment <;> simp [markPart]
    | cons c x => simp [markPart, eq_comm]
  | none => cases T.query <;> cases T.fragment <;> simp [markPart]

theorem tailOk_readHost_iff (user : Option (Bytes × Option Bytes)) (y : Bytes) :
    (readHost user y).TailOk strToNum ↔ HostGoesOn strToNum y := by
  have hrest : ∀ (T : UrlText) (r : Bytes), (readRest T (r.dropWhile (!isDelim ·))).rest
      = r.dropWhile (!isDelim ·) := fun T r => (readRest_spec T (isRest_dropWhile r)).1
  unfold UrlText.TailOk HostGoesOn
  rw [UrlText.head?_path_iff]
  unfold readHost
  cases hcut : cut 58 y with
  | mk host r =>
    cases r with
    | some r => simp [hrest, PortGoesOn]
    | none => simp [hrest]

theorem tailOk_readUrl_iff {p : Bytes} (hp : IsTargetPath p) (htwo : [47, 47] <+: p) (q f : Bytes) :
    (readUrl (originForm p q f)).TailOk strToNum ↔ GoesOn strToNum (q ++ 35 :: f) := by
  obtain ⟨-, -, -, hcolon, hat⟩ := hp
  have hmark : originForm p q f = (p ++ [63]) ++ (q ++ 35 :: f) := by simp [originForm]
  have hcolon' : 58 ∉ p ++ [63] := by simp [hcolon]
  have hat' : 64 ∉ p ++ [63] := by simp [hat]
  unfold readUrl GoesOn
  rw [hmark, cut_append hat']
  cases (cut 64 (q ++ 35 :: f)).2 with
  | some y => exact tailOk_readHost_iff strToNum _ y
  | none =>
    simp only
    rw [tailOk_readHost_iff, HostGoesOn, cut_append hcolon']
    cases (cut 58 (q ++ 35 :: f)).2 with
    | some r => exact Iff.rfl
    | none =>
      obtain ⟨x, rfl⟩ := htwo
      simp [isDelim]

theorem ReadsTail.of_sameTail {T T' : UrlText} {q : UrlParse} (h : ReadsTail strToNum T q)
    (hsame : T.SameTail T') : ReadsTail strToNum T' q := by
  obtain ⟨hport, hpath, hquery, hfrag⟩ := hsame
  have hrest : T.rest = T'.rest := by rw [UrlText.rest, hpath, hquery, hfrag, UrlText.rest]
  obtain ⟨hread, hok⟩ := h
  rw [hport, hpath, hquery, hfrag, hrest] at hread
  rw [hport] at hok
  exact ⟨hread, hok⟩

/-- A parse of parts with the tail of a target. -/
theorem ReadsTail.tailOk_iff {T : UrlText} {q : UrlParse} (h : ReadsTail strToNum T q) :
    q.error = none ∧ q.url.path.head? = some 47 ↔ T.TailOk strToNum := by
  constructor
  · rintro ⟨herr, hslash⟩
    obtain ⟨hnum, hpath, -, -⟩ := h.read herr
    rw [hpath] at hslash
    refine ⟨fun s hs => hnum s hs fun hnil => ?_, hslash⟩
    obtain ⟨x, hx⟩ := T.head?_path_iff.1 hslash
    rw [← hx] at hnil
    simp at hnil
  · rintro ⟨hnum, hslash⟩
    have herr := h.noError hnum
    rw [(h.read herr).2.1]
    exact ⟨herr, hslash⟩

/-- Behind a `/` that is not followed by another one the origin form is cut where it says. -/
theorem parse_originForm {p q f : Bytes} (hp : IsTargetPath p) (htwo : ¬ [47, 47] <+: p)
    (hq : 35 ∉ q) :
    (parseUrl strToNum (originForm p q f)).url.path = p ∧
      (parseUrl strToNum (originForm p q f)).url.query = q ∧
      (parseUrl strToNum (originForm p q f)).url.fragment = f := by
  obtain ⟨hslash, hmark, hhash, -, -⟩ := hp
  have hstart : startSection (originForm p q f) = .path := by
    obtain ⟨x, rfl⟩ := List.head?_eq_some_iff.1 hslash
    cases x with
    | nil => rfl
    | cons c x =>
      have hc : c ≠ 47 := fun he => htwo ⟨x, by rw [he]; rfl⟩
      simp only [originForm, List.cons_append]
      unfold startSection
      split
      · next heq =>
        cases heq
        exact absurd rfl hc
      · rfl
      · next heq => cases heq
      · next heq => cases heq
      · next hne _ _ => exact absurd rfl (hne _)
  have hfree : FreeOf 35 (some q) := by
    rintro y hy
    cases hy
    exact hq
  obtain ⟨-, hurl⟩ := parseRest_path strToNum [] p (some q) (some f) { sect := .path } hmark hhash
    hfree rfl rfl rfl ⟨rfl, rfl, rfl⟩
  have htext : originForm p q f = [] ++ (p ++ (markPart 63 (some q) ++ markPart 35 (some f))) := rfl
  have hparse : (parseUrl strToNum (originForm p q f)).url
      = ({} : Url).withTail (some p) (some q) (some f) := by
    rw [← hurl, ← htext, parseUrl, hstart, parseRest]
  rw [hparse]
  exact ⟨rfl, rfl, rfl⟩

/-- Whatever is cut from the target behind an authority is not its own path, query and fragment: the
    `/` of the path would have to be in the target twice. -/
theorem tail_ne_parts {p q f : Bytes} (hp : IsTargetPath p)
    (hpath : (readUrl (originForm p q f)).path.getD [] = p)
    (hquery : (readUrl (originForm p q f)).query.getD [] = q)
    (hfrag : (readUrl (originForm p q f)).fragment.getD [] = f) : False := by
  obtain ⟨hslash, hmark, hhash, -, -⟩ := hp
  obtain ⟨htext, hT⟩ := readUrl_spec (originForm p q f)
  generalize readUrl (originForm p q f) = T at hpath hquery hfrag htext hT
  have hx : T.path = some p := by
    cases h : T.path with
    | none =>
      rw [h] at hpath
      rw [← hpath] at hslash
      cases hslash
    | some x =>
      rw [h] at hpath
      exact congrArg some hpath
  have hsuffix : T.userText ++ T.hostText ++ T.rest = p ++ 63 :: (q ++ 35 :: f) := htext
  have hlen := congrArg List.length hsuffix
  cases hf : T.fragment with
  | none =>
    -- the text ends in `#`, and the tail has none
    rw [hf] at hfrag
    have hrest : T.rest = 47 :: p ++ markPart 63 T.query := by
      simp [UrlText.rest, hx, hf, markPart]
    have hlast : (T.rest).getLast? = some 35 := by
      have hne : T.rest ≠ [] := by
        rw [hrest]
        simp
      have hwhole := congrArg List.getLast? hsuffix
      have hend : p ++ 63 :: (q ++ [35]) = (p ++ 63 :: q) ++ [35] := by simp
      rw [← hfrag, List.getLast?_append_of_ne_nil _ hne] at hwhole
      rw [hwhole, Option.getD_none, hend, List.getLast?_concat]
    have hmem : 35 ∈ T.rest := List.mem_of_getLast? hlast
    rw [hrest, List.mem_append] at hmem
    rcases hmem with hmem | hmem
    · simp [hhash] at hmem
    · exact not_mem_markPart hT.query (by decide) hmem
  | some z =>
    rw [hf] at hfrag
    cases hq : T.query with
    | some y =>
      rw [hq] at hquery
      simp only [UrlText.rest, hx, hq, hf, markPart, List.length_append, List.length_cons,
        Option.getD_some] at hlen hquery hfrag
      rw [hquery, hfrag] at hlen
      omega
    | none =>
      -- without a query the tail is all of the target, so its path has a `?`
      rw [hq] at hquery
      simp only [UrlText.rest, hx, hq, hf, markPart, Option.getD_some, Option.getD_none,
        List.append_nil] at hsuffix hlen hquery hfrag
      rw [← hquery, hfrag] at hsuffix hlen
      simp only [List.length_append, List.length_cons, List.length_nil] at hlen
      have hnil : T.userText ++ T.hostText = [] := List.length_eq_zero_iff.1 (by
        rw [List.length_append]
        omega)
      rw [hnil, List.nil_append, List.nil_append] at hsuffix
      have hcut : 47 :: p ++ 35 :: f = (p ++ [63]) ++ 35 :: f := by
        rw [hsuffix]
        simp
      have hmem : 63 ∈ 47 :: p := by
        rw [List.append_cancel_right hcut]
        simp
      simp [hmark] at hmem

/-- **The two forms of a target agree exactly if its path begins with `//`** and an authority that
    `_parse` sees in query and fragment has `//` behind it, and no port that is not a number. -/
theorem formsAgree_iff (h p q f : Bytes) (hh : IsPlain h) (hp : IsTargetPath p) :
    FormsAgree strToNum h p q f ↔ [47, 47] <+: p ∧ GoesOn strToNum (q ++ 35 :: f) := by
  rw [formsAgree_iff_parses strToNum hh]
  have habs := (readsTail_absolute strToNum h (originForm p q f)).of_sameTail strToNum
    (sameTail_forms hh hp q f)
  by_cases htwo : [47, 47] <+: p
  · have horg : ReadsTail strToNum (readUrl (originForm p q f))
        (parseUrl strToNum (originForm p q f)) := by
      obtain ⟨htext, hT⟩ := readUrl_spec (originForm p q f)
      have hstart : startSection (originForm p q f) = .auth := by
        obtain ⟨x, rfl⟩ := htwo
        rfl
      have hread := readsTail_auth strToNum hT
      rw [htext] at hread
      rw [parseUrl, hstart]
      exact hread
    rw [← tailOk_readUrl_iff strToNum hp htwo]
    constructor
    · rintro ⟨-, hoerr, -, hslash⟩
      exact ⟨htwo, (horg.tailOk_iff strToNum).1 ⟨hoerr, hslash⟩⟩
    · rintro ⟨-, hok⟩
      obtain ⟨haerr, -⟩ := (habs.tailOk_iff strToNum).2 hok
      obtain ⟨hoerr, hslash⟩ := (horg.tailOk_iff strToNum).2 hok
      obtain ⟨-, hapath, haquery, hafrag⟩ := habs.read haerr
      obtain ⟨-, hopath, hoquery, hofrag⟩ := horg.read hoerr
      exact ⟨haerr, hoerr, ⟨hapath.trans hopath.symm, haquery.trans hoquery.symm,
        hafrag.trans hofrag.symm⟩, hslash⟩
  · constructor
    · rintro ⟨haerr, -, ⟨hpath, hquery, hfrag⟩, -⟩
      -- the fragment begins at the first `#`, which may be one of `q`
      have hmem : 35 ∈ q ++ 35 :: f := by simp
      obtain ⟨q', f', hcut, hq'⟩ := List.eq_append_cons_of_mem hmem
      have hform : originForm p q f = originForm p q' f' := by rw [originForm, hcut, originForm]
      rw [hform] at habs haerr hpath hquery hfrag
      obtain ⟨-, hapath, haquery, hafrag⟩ := habs.read haerr
      obtain ⟨hopath, hoquery, hofrag⟩ := parse_originForm strToNum (f := f') hp htwo hq'
      exact (tail_ne_parts hp (hapath.symm.trans (hpath.trans hopath))
        (haquery.symm.trans (hquery.trans hoquery)) (hafrag.symm.trans (hfrag.trans hofrag))).elim
    · rintro ⟨hpre, -⟩
      exact absurd hpre htwo

end Agree

theorem formsAgree_twoSlashes :
    FormsAgree (fun s => some (decimalValue s)) (bytes "h") (bytes "//a") (bytes "q") (bytes "f") :=
  (formsAgree_iff _ (bytes "h") (bytes "//a") (bytes "q") (bytes "f")
    ⟨by decide, by decide, by decide⟩ (by decide)).2 ⟨by decide, trivial⟩

/-- `http://h/a?q#f` is resolved to the path `a`, `/a?q#f` to `/a`. -/
theorem absoluteForm_drops_slash :
    ¬ ∀ (strToNum : Bytes → Option Nat) (h p q f : Bytes), IsPlain h → IsTargetPath p →
      FormsAgree strToNum h p q f := by
  intro hall
  obtain ⟨a, o, ha, -, -, hslash, -⟩ := hall (fun s => some (decimalValue s)) (bytes "h") (bytes "/a")
    (bytes "q") (bytes "f") ⟨by decide, by decide, by decide⟩ (by decide)
  have hpath : (Url.ofBase (fun s => some (decimalValue s)) (baseUrl (bytes "h"))
      (baseUrl (bytes "h") ++ originForm (bytes "/a") (bytes "q") (bytes "f"))).map Url.path
        = .ok (bytes "a") := by rfl
  rw [ha] at hpath
  have ha' : a.path = bytes "a" := Except.ok.inj hpath
  rw [Url.isAbsolute, ha'] at hslash
  revert hslash
  decide

end LibEvmvc
