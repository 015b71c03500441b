import LibEvmvc.Foundation.Bytes
import Mathlib.Data.List.TakeWhile

set_option autoImplicit false

/-! # Parsing a URL

`url::_parse` walks over the text section by section. Inside the authority it looks for `@` and `:`
in all that is left of the text, not only up to the next `/`, `?` or `#`. So the members it fills
there depend on what comes after the authority, unless the authority has an `@` (a `:`) of its own
that is found first.

The object is modelled as it stands when `_parse` is left, by its end or by an exception: the members
of the authority are assigned before the port's number is looked at. -/

namespace LibEvmvc

inductive UrlScheme where
  | http
  | https
  | unknown
  deriving DecidableEq, Repr

inductive UrlSection where
  | scheme
  | auth
  | path
  | query
  | frag
  deriving DecidableEq, Repr

inductive UrlSubSection where
  | userinfo
  | host
  | port
  deriving DecidableEq, Repr

/-- The members of `url`. -/
structure Url where
  schemeString : Bytes := bytes "unknown"
  scheme : UrlScheme := .unknown
  userinfo : Bool := false
  username : Bytes := []
  password : Bytes := []
  hostname : Bytes := []
  port : Nat := 0
  portString : Bytes := []
  path : Bytes := []
  query : Bytes := []
  fragment : Bytes := []
  deriving DecidableEq, Repr

/-- What ends `_parse` early. -/
inductive UrlError where
  /-- `Invalid uri` -/
  | invalidUri
  /-- `md::str_to_num` does not accept the port -/
  | badPort
  deriving DecidableEq, Repr

/-- The object and the variables of the loop. -/
structure UrlParse where
  url : Url := {}
  sect : UrlSection
  subSec : Option UrlSubSection := none
  spos : Nat := 0
  error : Option UrlError := none
  deriving DecidableEq, Repr

/-- `find_ch`; `none` is its -1. -/
def findCh (data : Bytes) (ch : UInt8) (start : Nat) : Option Nat :=
  ((data.drop start).findIdx? (· = ch)).map (start + ·)

/-- `data_substring`. -/
def dataSubstring (data : Bytes) (offset endIdx : Nat) : Bytes :=
  (data.drop offset).take (endIdx - offset)

/-- `idx == -1 || idx > i`. -/
def absentOrAfter (idx : Option Nat) (i : Nat) : Bool :=
  match idx with
  | none => true
  | some j => j > i

/-- The section a `/`, `?` or `#` at or after `spos` leads to, whichever comes first, and where it
    is: the three searches of the host and of the port. -/
def nextSection (data : Bytes) (spos : Nat) : Option (Nat × UrlSection) :=
  let pidx := findCh data 47 spos
  let qidx := findCh data 63 spos
  let fidx := findCh data 35 spos
  match fidx.filter (fun f => absentOrAfter qidx f && absentOrAfter pidx f) with
  | some f => some (f, .frag)
  | none => match qidx.filter (fun q => absentOrAfter pidx q) with
    | some q => some (q, .query)
    | none => match pidx with
      | some i => some (i, .path)
      | none => none

section Parse

variable (strToNum : Bytes → Option Nat) (data : Bytes)

/-- The scheme section of `_parse`. -/
def parseScheme (p : UrlParse) : UrlParse :=
  match findCh data 58 p.spos with
  | none => { p with error := some .invalidUri }
  | some idx1 =>
    let name := lower (dataSubstring data p.spos idx1)
    let scheme : UrlScheme :=
      if name = bytes "http" then .http else if name = bytes "https" then .https else .unknown
    let url := { p.url with schemeString := name, scheme := scheme }
    if findCh data 47 (idx1 + 1) = some (idx1 + 1) then
      if findCh data 47 (idx1 + 2) = some (idx1 + 2) then
        { p with url := url, sect := .auth, spos := p.spos + (idx1 + 3) }
      else { p with url := url, sect := .path, spos := p.spos + (idx1 + 1) }
    else
      let sect : UrlSection := match data[idx1 + 1]? with
        | none => p.sect
        | some c => if c = 63 then .query else if c = 35 then .frag else .path
      { p with url := url, sect := sect, spos := p.spos + (idx1 + 1) }

/-- The user information before the first `@`. -/
def parseUserinfo (p : UrlParse) : UrlParse :=
  match findCh data 64 p.spos with
  | none => { p with error := some .invalidUri } -- not reached: there is an `@` ahead
  | some atIdx =>
    let url := match (findCh data 58 p.spos).filter (fun idx => idx > 1 && idx < atIdx) with
      | some idx =>
        { p.url with username := dataSubstring data p.spos idx,
                     password := dataSubstring data (idx + 1) atIdx }
      | none => { p.url with username := dataSubstring data p.spos atIdx, password := [] }
    { p with url := url, subSec := some .host, spos := atIdx + 1 }

def parseHost (p : UrlParse) : UrlParse :=
  match findCh data 58 p.spos with
  | some pidx =>
    { p with url := { p.url with hostname := dataSubstring data p.spos pidx },
             spos := pidx + 1, subSec := some .port }
  | none => match nextSection data p.spos with
    | some (i, sect) =>
      { p with url := { p.url with hostname := dataSubstring data p.spos i },
               spos := i + 1, sect := sect }
    | none =>
      let hostname := dataSubstring data p.spos data.length
      { p with url := { p.url with hostname := hostname }, spos := p.spos + hostname.length }

/-- Store the port; the number is looked at after its text is stored. -/
def setPort (p : UrlParse) (portString : Bytes) (spos : Nat) (sect : UrlSection) : UrlParse :=
  match strToNum portString with
  | some n =>
    { p with url := { p.url with portString := portString, port := n }, spos := spos, sect := sect }
  | none => { p with url := { p.url with portString := portString }, error := some .badPort }

def parsePort (p : UrlParse) : UrlParse :=
  match nextSection data p.spos with
  | some (i, sect) => setPort strToNum p (dataSubstring data p.spos i) (i + 1) sect
  | none =>
    let portString := dataSubstring data p.spos data.length
    setPort strToNum p portString (p.spos + portString.length) p.sect

/-- `if(sub_sec == -1)`: with an `@` ahead the authority begins with user information. -/
def enterAuth (p : UrlParse) : UrlParse × UrlSubSection :=
  match p.subSec with
  | some sub => (p, sub)
  | none => match findCh data 64 p.spos with
    | some _ => ({ p with url := { p.url with userinfo := true }, subSec := some .userinfo },
        .userinfo)
    | none => ({ p with url := { p.url with userinfo := false }, subSec := some .host }, .host)

/-- The authority section of `_parse`. -/
def parseAuth (p : UrlParse) : UrlParse :=
  match enterAuth data p with
  | (p, .userinfo) => parseUserinfo data p
  | (p, .host) => parseHost data p
  | (p, .port) => parsePort strToNum data p

def parsePath (p : UrlParse) : UrlParse :=
  let qidx := findCh data 63 p.spos
  match (findCh data 35 p.spos).filter (fun f => absentOrAfter qidx f) with
  | some f =>
    { p with url := { p.url with path := dataSubstring data p.spos f }, spos := f + 1, sect := .frag }
  | none => match qidx with
    | some q =>
      { p with url := { p.url with path := dataSubstring data p.spos q }, spos := q + 1,
               sect := .query }
    | none =>
      let path := dataSubstring data p.spos data.length
      { p with url := { p.url with path := path }, spos := p.spos + path.length }

def parseQuery (p : UrlParse) : UrlParse :=
  match findCh data 35 p.spos with
  | some f =>
    { p with url := { p.url with query := dataSubstring data p.spos f }, spos := f + 1,
             sect := .frag }
  | none =>
    let query := dataSubstring data p.spos data.length
    { p with url := { p.url with query := query }, spos := p.spos + query.length }

def parseFrag (p : UrlParse) : UrlParse :=
  let fragment := dataSubstring data p.spos data.length
  { p with url := { p.url with fragment := fragment }, spos := p.spos + fragment.length }

/-- The body of the loop. -/
def parseSection (p : UrlParse) : UrlParse :=
  match p.sect with
  | .scheme => parseScheme data p
  | .auth => parseAuth strToNum data p
  | .path => parsePath data p
  | .query => parseQuery data p
  | .frag => parseFrag data p

/-- `while(spos < len)`. Every turn moves `spos`, so the length of the text is fuel enough
    (`parseLoop_step`). -/
def parseLoop : Nat → UrlParse → UrlParse
  | 0, p => p
  | fuel + 1, p =>
    if p.spos < data.length ∧ p.error = none then parseLoop fuel (parseSection strToNum data p)
    else p

end Parse

/-- Where `_parse` begins. -/
def startSection (data : Bytes) : UrlSection :=
  match data with
  | 47 :: 47 :: _ => .auth
  | 47 :: _ => .path
  | 63 :: _ => .query
  | 35 :: _ => .frag
  | _ => .scheme

/-- `url::_parse` on a fresh object. -/
def parseUrl (strToNum : Bytes → Option Nat) (data : Bytes) : UrlParse :=
  parseLoop strToNum data data.length { sect := startSection data }

/-! ## Searches -/

theorem findCh_lt {data : Bytes} {ch : UInt8} {start i : Nat} (h : findCh data ch start = some i) :
    start ≤ i ∧ i < data.length := by
  obtain ⟨j, hj, rfl⟩ := Option.map_eq_some_iff.1 h
  have hlt := (List.findIdx?_eq_some_iff_getElem.1 hj).1
  rw [List.length_drop] at hlt
  omega

theorem le_of_findCh {data : Bytes} {ch : UInt8} {start i : Nat}
    (h : findCh data ch start = some i) : start ≤ i := (findCh_lt h).1

theorem findCh_none {pre x : Bytes} {ch : UInt8} (h : ch ∉ x) :
    findCh (pre ++ x) ch pre.length = none := by
  unfold findCh
  rw [List.drop_left, Option.map_eq_none_iff, List.findIdx?_eq_none_iff]
  intro c hc
  exact decide_eq_false fun he => h (he ▸ hc)

theorem findCh_some (pre x post : Bytes) (ch : UInt8) (h : ch ∉ x) :
    findCh (pre ++ (x ++ ch :: post)) ch pre.length = some (pre ++ x).length := by
  have hidx : (x ++ ch :: post).findIdx? (fun c => decide (c = ch)) = some x.length := by
    induction x with
    | nil => simp [List.findIdx?_cons]
    | cons a x ih =>
      simp only [List.mem_cons, not_or] at h
      have ha : ¬ a = ch := fun he => h.1 he.symm
      simp [List.findIdx?_cons, ha, ih h.2]
  unfold findCh
  rw [List.drop_left, hidx, List.length_append]
  rfl

theorem dataSubstring_mid (pre x post : Bytes) :
    dataSubstring (pre ++ (x ++ post)) pre.length (pre ++ x).length = x := by
  simp [dataSubstring]

theorem dataSubstring_end (pre x : Bytes) :
    dataSubstring (pre ++ x) pre.length (pre ++ x).length = x := by
  simp [dataSubstring]

theorem length_dataSubstring (data : Bytes) (pos : Nat) :
    pos + (dataSubstring data pos data.length).length = max pos data.length := by
  simp only [dataSubstring, List.length_take, List.length_drop]
  omega

theorem nextSection_lt {data : Bytes} {pos i : Nat} {sect : UrlSection}
    (h : nextSection data pos = some (i, sect)) : pos ≤ i ∧ i < data.length := by
  unfold nextSection at h
  simp only at h
  split at h
  · next f hf =>
    cases h
    exact findCh_lt (Option.filter_eq_some_iff.1 hf).1
  · split at h
    · next q hq =>
      cases h
      exact findCh_lt (Option.filter_eq_some_iff.1 hq).1
    · split at h
      · next j hj =>
        cases h
        exact findCh_lt hj
      · cases h

theorem le_of_nextSection {data : Bytes} {pos i : Nat} {sect : UrlSection}
    (h : nextSection data pos = some (i, sect)) : pos ≤ i := (nextSection_lt h).1

/-! ## The loop comes to its end -/

section Progress

variable {strToNum : Bytes → Option Nat} {data : Bytes}

theorem setPort_progress {p : UrlParse} {s : Bytes} {spos : Nat} {sect : UrlSection}
    (h : p.spos < spos) : p.spos < (setPort strToNum p s spos sect).spos ∨
      (setPort strToNum p s spos sect).error ≠ none := by
  unfold setPort
  split
  · exact .inl h
  · exact .inr (by simp)

theorem parseUserinfo_progress (p : UrlParse) : p.spos < (parseUserinfo data p).spos ∨
    (parseUserinfo data p).error ≠ none := by
  unfold parseUserinfo
  split
  · exact .inr (by simp)
  · next hat => exact .inl (Nat.lt_succ_of_le (le_of_findCh hat))

theorem parseHost_progress {p : UrlParse}
    (hend : p.spos < p.spos + (dataSubstring data p.spos data.length).length) :
    p.spos < (parseHost data p).spos := by
  unfold parseHost
  split
  · next hcolon => exact Nat.lt_succ_of_le (le_of_findCh hcolon)
  · split
    · next hnext => exact Nat.lt_succ_of_le (le_of_nextSection hnext)
    · exact hend

theorem parsePort_progress {p : UrlParse}
    (hend : p.spos < p.spos + (dataSubstring data p.spos data.length).length) :
    p.spos < (parsePort strToNum data p).spos ∨ (parsePort strToNum data p).error ≠ none := by
  unfold parsePort
  split
  · next hnext => exact setPort_progress (Nat.lt_succ_of_le (le_of_nextSection hnext))
  · exact setPort_progress hend

theorem enterAuth_spos (data : Bytes) (p : UrlParse) : (enterAuth data p).1.spos = p.spos := by
  unfold enterAuth
  split
  · rfl
  · split <;> rfl

/-- Every turn of the loop moves on, or fails. -/
theorem parseSection_progress (strToNum : Bytes → Option Nat) {p : UrlParse} (h : p.spos < data.length) :
    p.spos < (parseSection strToNum data p).spos ∨
      (parseSection strToNum data p).error ≠ none := by
  have hend : p.spos < p.spos + (dataSubstring data p.spos data.length).length := by
    rw [length_dataSubstring]
    omega
  unfold parseSection
  split
  · unfold parseScheme
    split
    · exact .inr (by simp)
    · simp only
      split
      · split
        · exact .inl (by simp only; omega)
        · exact .inl (by simp only; omega)
      · exact .inl (by simp only; omega)
  · have hspos := enterAuth_spos data p
    unfold parseAuth
    split
    · next q hq =>
      rw [hq] at hspos
      rw [← hspos]
      exact parseUserinfo_progress q
    · next q hq =>
      rw [hq] at hspos
      rw [← hspos] at hend ⊢
      exact .inl (parseHost_progress hend)
    · next q hq =>
      rw [hq] at hspos
      rw [← hspos] at hend ⊢
      exact parsePort_progress hend
  · unfold parsePath
    simp only
    split
    · next f hf =>
      exact .inl (Nat.lt_succ_of_le (le_of_findCh (Option.filter_eq_some_iff.1 hf).1))
    · split
      · next q hq => exact .inl (Nat.lt_succ_of_le (le_of_findCh hq))
      · exact .inl hend
  · unfold parseQuery
    split
    · next f hf => exact .inl (Nat.lt_succ_of_le (le_of_findCh hf))
    · exact .inl hend
  · exact .inl hend

/-- More fuel than there is text left makes no difference. -/
theorem parseLoop_enough (fuel fuel' : Nat) (p : UrlParse) (h : data.length - p.spos ≤ fuel)
    (h' : data.length - p.spos ≤ fuel') :
    parseLoop strToNum data fuel p = parseLoop strToNum data fuel' p := by
  induction fuel generalizing fuel' p with
  | zero =>
    cases fuel' with
    | zero => rfl
    | succ fuel' =>
      rw [parseLoop, parseLoop, if_neg (fun hc => by omega)]
  | succ fuel ih =>
    by_cases hgo : p.spos < data.length ∧ p.error = none
    · obtain ⟨fuel', rfl⟩ : ∃ k, fuel' = k + 1 := ⟨fuel' - 1, by omega⟩
      rw [parseLoop, parseLoop, if_pos hgo, if_pos hgo]
      rcases parseSection_progress strToNum hgo.1 with hmove | herr
      · exact ih fuel' _ (by omega) (by omega)
      · have hstop : ∀ k, parseLoop strToNum data k (parseSection strToNum data p)
            = parseSection strToNum data p := by
          intro k
          cases k with
          | zero => rfl
          | succ k => rw [parseLoop, if_neg (fun hc => herr hc.2)]
        rw [hstop, hstop]
    · rw [parseLoop, if_neg hgo]
      cases fuel' with
      | zero => rfl
      | succ fuel' => rw [parseLoop, if_neg hgo]

/-- The rest of the loop. -/
def parseRest (strToNum : Bytes → Option Nat) (data : Bytes) (p : UrlParse) : UrlParse :=
  parseLoop strToNum data data.length p

theorem parseRest_step (p : UrlParse) (h : p.spos < data.length) (herr : p.error = none) :
    parseRest strToNum data p = parseRest strToNum data (parseSection strToNum data p) := by
  unfold parseRest
  rw [parseLoop_enough data.length (data.length + 1) p (by omega) (by omega), parseLoop,
    if_pos ⟨h, herr⟩]

theorem parseRest_end (p : UrlParse) (h : data.length ≤ p.spos) :
    parseRest strToNum data p = p := by
  unfold parseRest
  rw [parseLoop_enough data.length 0 p (by omega) (by omega), parseLoop]

theorem parseRest_failed (p : UrlParse) (h : p.error ≠ none) : parseRest strToNum data p = p := by
  unfold parseRest
  cases data.length with
  | zero => rfl
  | succ k => rw [parseLoop, if_neg (fun hc => h hc.2)]

/-- What every turn of the loop keeps holds at its end. -/
theorem parseRest_invariant {I : UrlParse → Prop} (hstep : ∀ p, I p → I (parseSection strToNum data p))
    {p : UrlParse} (h : I p) : I (parseRest strToNum data p) := by
  unfold parseRest
  generalize data.length = fuel
  induction fuel generalizing p with
  | zero => exact h
  | succ fuel ih =>
    rw [parseLoop]
    split
    · exact ih (hstep p h)
    · exact h

end Progress

/-! ## Members that are settled

Once the loop has left a part of the authority it does not come back to it. -/

section Settled

variable {strToNum : Bytes → Option Nat} {data : Bytes}

/-- The loop is past the authority. -/
def PastAuth (p : UrlParse) : Prop := p.sect = .path ∨ p.sect = .query ∨ p.sect = .frag

/-- The loop is past the host. -/
def PastHost (p : UrlParse) : Prop := PastAuth p ∨ p.sect = .auth ∧ p.subSec = some .port

/-- The loop is past the user information. -/
def PastUser (p : UrlParse) : Prop := PastHost p ∨ p.sect = .auth ∧ p.subSec = some .host

theorem nextSection_pastAuth {pos i : Nat} {sect : UrlSection}
    (h : nextSection data pos = some (i, sect)) : sect = .path ∨ sect = .query ∨ sect = .frag := by
  unfold nextSection at h
  simp only at h
  split at h
  · cases h
    exact .inr (.inr rfl)
  · split at h
    · cases h
      exact .inr (.inl rfl)
    · split at h
      · cases h
        exact .inl rfl
      · cases h

/-- The four members the authority is about. -/
def Url.authority (u : Url) : Bytes × Bytes × Bytes × Bytes :=
  (u.username, u.password, u.hostname, u.portString)

theorem parseSection_pastAuth {p : UrlParse} (h : PastAuth p) :
    PastAuth (parseSection strToNum data p) ∧
      (parseSection strToNum data p).url.authority = p.url.authority := by
  unfold parseSection
  rcases h with hs | hs | hs
  · rw [hs]
    simp only [parsePath]
    split
    · exact ⟨.inr (.inr rfl), rfl⟩
    · split
      · exact ⟨.inr (.inl rfl), rfl⟩
      · exact ⟨.inl hs, rfl⟩
  · rw [hs]
    simp only [parseQuery]
    split
    · exact ⟨.inr (.inr rfl), rfl⟩
    · exact ⟨.inr (.inl hs), rfl⟩
  · rw [hs]
    exact ⟨.inr (.inr hs), rfl⟩

theorem setPort_pastHost {p : UrlParse} (h : PastHost p) {s : Bytes} {spos : Nat}
    {sect : UrlSection} (hsect : PastHost { p with sect := sect }) :
    PastHost (setPort strToNum p s spos sect) ∧
      (setPort strToNum p s spos sect).url.hostname = p.url.hostname ∧
      (setPort strToNum p s spos sect).url.username = p.url.username ∧
      (setPort strToNum p s spos sect).url.password = p.url.password := by
  unfold setPort
  split
  · exact ⟨hsect, rfl, rfl, rfl⟩
  · exact ⟨h, rfl, rfl, rfl⟩

theorem parseSection_pastHost {p : UrlParse} (h : PastHost p) :
    PastHost (parseSection strToNum data p) ∧
      (parseSection strToNum data p).url.hostname = p.url.hostname ∧
      (parseSection strToNum data p).url.username = p.url.username ∧
      (parseSection strToNum data p).url.password = p.url.password := by
  rcases h with hpast | ⟨hs, hsub⟩
  · obtain ⟨hnext, hauth⟩ := parseSection_pastAuth hpast
    simp only [Url.authority, Prod.mk.injEq] at hauth
    exact ⟨.inl hnext, hauth.2.2.1, hauth.1, hauth.2.1⟩
  · have hp : PastHost p := .inr ⟨hs, hsub⟩
    simp only [parseSection, hs, parseAuth, enterAuth, hsub, parsePort]
    split
    · next hnext => exact setPort_pastHost hp (.inl (nextSection_pastAuth hnext))
    · exact setPort_pastHost hp (.inr ⟨rfl, hsub⟩)

theorem parseSection_pastUser {p : UrlParse} (h : PastUser p) :
    PastUser (parseSection strToNum data p) ∧
      (parseSection strToNum data p).url.username = p.url.username ∧
      (parseSection strToNum data p).url.password = p.url.password := by
  rcases h with hpast | ⟨hs, hsub⟩
  · obtain ⟨hnext, -, huser, hpass⟩ := parseSection_pastHost hpast
    exact ⟨.inl hnext, huser, hpass⟩
  · simp only [parseSection, hs, parseAuth, enterAuth, hsub, parseHost]
    split
    · exact ⟨.inl (.inr ⟨rfl, rfl⟩), rfl, rfl⟩
    · split
      · next hnext => exact ⟨.inl (.inl (nextSection_pastAuth hnext)), rfl, rfl⟩
      · exact ⟨.inr ⟨rfl, rfl⟩, rfl, rfl⟩

theorem parseRest_pastAuth (strToNum : Bytes → Option Nat) (data : Bytes) {p : UrlParse}
    (h : PastAuth p) :
    (parseRest strToNum data p).url.authority = p.url.authority :=
  (parseRest_invariant
    (I := fun q => PastAuth q ∧ q.url.authority = p.url.authority)
    (fun _ hq => ⟨(parseSection_pastAuth hq.1).1, (parseSection_pastAuth hq.1).2.trans hq.2⟩)
    ⟨h, rfl⟩).2

theorem parseRest_pastHost (strToNum : Bytes → Option Nat) (data : Bytes) {p : UrlParse}
    (h : PastHost p) :
    (parseRest strToNum data p).url.hostname = p.url.hostname :=
  (parseRest_invariant
    (I := fun q => PastHost q ∧ q.url.hostname = p.url.hostname)
    (fun _ hq => ⟨(parseSection_pastHost hq.1).1, (parseSection_pastHost hq.1).2.1.trans hq.2⟩)
    ⟨h, rfl⟩).2

theorem parseRest_pastUser (strToNum : Bytes → Option Nat) (data : Bytes) {p : UrlParse}
    (h : PastUser p) :
    (parseRest strToNum data p).url.username = p.url.username ∧
      (parseRest strToNum data p).url.password = p.url.password :=
  (parseRest_invariant
    (I := fun q => PastUser q ∧ q.url.username = p.url.username ∧ q.url.password = p.url.password)
    (fun _ hq =>
      have hstep := parseSection_pastUser hq.1
      ⟨hstep.1, hstep.2.1.trans hq.2.1, hstep.2.2.trans hq.2.2⟩)
    ⟨h, rfl, rfl⟩).2

end Settled

/-! ## Reading the authority -/

/-- No `/`, `?` or `#`. -/
def NoDelim (a : Bytes) : Prop := 47 ∉ a ∧ 63 ∉ a ∧ 35 ∉ a

instance (a : Bytes) : Decidable (NoDelim a) :=
  inferInstanceAs (Decidable (47 ∉ a ∧ 63 ∉ a ∧ 35 ∉ a))

/-- What may come after the authority: nothing, or a text that begins with `/`, `?` or `#`. -/
def IsRest (r : Bytes) : Prop := r = [] ∨ ∃ c t, r = c :: t ∧ (c = 47 ∨ c = 63 ∨ c = 35)

/-- A character that is neither in `x` nor the one after it is found later, if at all. -/
theorem absentOrAfter_findCh (pre x post : Bytes) (c ch : UInt8) (hx : ch ∉ x) (hc : ch ≠ c) :
    absentOrAfter (findCh (pre ++ (x ++ c :: post)) ch pre.length) (pre ++ x).length = true := by
  by_cases hpost : ch ∈ post
  · obtain ⟨y, z, rfl, hy⟩ := List.eq_append_cons_of_mem hpost
    have hxy : ch ∉ x ++ c :: y := by simp [hx, hc, hy]
    have htext : pre ++ (x ++ c :: (y ++ ch :: z)) = pre ++ ((x ++ c :: y) ++ ch :: z) := by simp
    rw [htext, findCh_some pre (x ++ c :: y) z ch hxy]
    simp only [absentOrAfter, List.length_append, List.length_cons, decide_eq_true_eq]
    omega
  · have hall : ch ∉ x ++ c :: post := by simp [hx, hc, hpost]
    rw [findCh_none hall]
    rfl

/-- A search that succeeds only later is not the first one. -/
theorem filter_absentOrAfter {idx : Option Nat} {i : Nat} (h : absentOrAfter idx i = true)
    {p : Nat → Bool} (hp : ∀ j, i < j → p j = false) : idx.filter p = none := by
  cases idx with
  | none => rfl
  | some j =>
    have hj : i < j := by simpa [absentOrAfter] using h
    simp [Option.filter, hp j hj]

theorem nextSection_none (pre x : Bytes) (hx : NoDelim x) :
    nextSection (pre ++ x) pre.length = none := by
  simp [nextSection, findCh_none hx.1, findCh_none hx.2.1, findCh_none hx.2.2]

/-- The section a `/`, `?` or `#` leads to. -/
def sectionOf (c : UInt8) : UrlSection := if c = 47 then .path else if c = 63 then .query else .frag

/-- The first `/`, `?` or `#` is found where the rest begins. -/
theorem nextSection_rest (pre x post : Bytes) (c : UInt8) (hx : NoDelim x)
    (hc : c = 47 ∨ c = 63 ∨ c = 35) :
    nextSection (pre ++ (x ++ c :: post)) pre.length = some ((pre ++ x).length, sectionOf c) := by
  have hafter := fun ch => absentOrAfter_findCh pre x post c ch
  have hfound := findCh_some pre x post c
  have hnot : ∀ j, (pre ++ x).length < j → absentOrAfter (some (pre ++ x).length) j = false := by
    intro j hj
    simp only [absentOrAfter, decide_eq_false_iff_not]
    omega
  unfold nextSection
  simp only
  rcases hc with rfl | rfl | rfl
  · have hq := hafter 63 hx.2.1 (by decide)
    have hf := hafter 35 hx.2.2 (by decide)
    rw [hfound hx.1, filter_absentOrAfter hf (fun j hj => by rw [hnot j hj, Bool.and_false])]
    simp only
    rw [filter_absentOrAfter hq hnot]
    rfl
  · have hp := hafter 47 hx.1 (by decide)
    have hf := hafter 35 hx.2.2 (by decide)
    rw [hfound hx.2.1, filter_absentOrAfter hf (fun j hj => by rw [hnot j hj, Bool.false_and])]
    simp only [Option.filter, hp, if_true]
    rfl
  · have hp := hafter 47 hx.1 (by decide)
    have hq := hafter 63 hx.2.1 (by decide)
    rw [hfound hx.2.2]
    simp only [Option.filter, hp, hq, Bool.and_self, if_true]
    rfl

/-- The host, or the user's name, is what comes before the first `:`. -/
def beforeColon (a : Bytes) : Bytes := a.takeWhile (· ≠ 58)

/-- The port, or the password, is what comes after the first `:`. -/
def afterColon (a : Bytes) : Bytes := (a.dropWhile (· ≠ 58)).drop 1

theorem beforeColon_colon (h q : Bytes) (hh : 58 ∉ h) : beforeColon (h ++ 58 :: q) = h ∧
    afterColon (h ++ 58 :: q) = q := by
  have hall : ∀ c ∈ h, decide (c ≠ 58) = true := fun c hc =>
    decide_eq_true fun he => hh (he ▸ hc)
  unfold beforeColon afterColon
  rw [List.takeWhile_append_of_pos hall, List.dropWhile_append_of_pos hall]
  simp

theorem beforeColon_plain (h : Bytes) (hh : 58 ∉ h) : beforeColon h = h ∧ afterColon h = [] := by
  have hall : ∀ c ∈ h, decide (c ≠ 58) = true := fun c hc =>
    decide_eq_true fun he => hh (he ▸ hc)
  unfold beforeColon afterColon
  rw [List.takeWhile_eq_self_iff.2 hall, List.dropWhile_eq_nil_iff.2 hall]
  exact ⟨rfl, rfl⟩

section Authority

variable (strToNum : Bytes → Option Nat)

theorem setPort_portString (p : UrlParse) (s : Bytes) (spos : Nat) (sect : UrlSection) :
    (setPort strToNum p s spos sect).url.authority
      = (p.url.username, p.url.password, p.url.hostname, s) := by
  unfold setPort
  split <;> rfl

/-- A turn of the loop that ends past the authority, or fails, or is the last one. -/
theorem parseRest_setPort (data : Bytes) (p : UrlParse) (s : Bytes) (spos : Nat)
    (sect : UrlSection)
    (h : PastAuth (setPort strToNum p s spos sect) ∨ data.length ≤ (setPort strToNum p s spos sect).spos
      ∨ (setPort strToNum p s spos sect).error ≠ none) :
    (parseRest strToNum data (setPort strToNum p s spos sect)).url.authority
      = (p.url.username, p.url.password, p.url.hostname, s) := by
  rw [← setPort_portString strToNum p s spos sect]
  rcases h with hpast | hend | herr
  · exact parseRest_pastAuth _ _ hpast
  · rw [parseRest_end _ hend]
  · rw [parseRest_failed _ herr]

/-- The port is read to the end of the authority. -/
theorem parsePort_authority (pre q rest : Bytes) (p : UrlParse) (hq : NoDelim q)
    (hrest : IsRest rest) (hs : p.sect = .auth) (hsub : p.subSec = some .port)
    (hpos : p.spos = pre.length) (herr : p.error = none) (hport : p.url.portString = []) :
    (parseRest strToNum (pre ++ (q ++ rest)) p).url.authority
      = (p.url.username, p.url.password, p.url.hostname, q) := by
  by_cases hover : q ++ rest = []
  · obtain ⟨rfl, rfl⟩ := List.append_eq_nil_iff.1 hover
    rw [parseRest_end _ (by simp [hpos])]
    simp [Url.authority, hport]
  have hlen : 0 < (q ++ rest).length := List.length_pos_iff.2 hover
  rw [parseRest_step p (by rw [List.length_append]; omega) herr]
  simp only [parseSection, hs, parseAuth, enterAuth, hsub, parsePort, hpos]
  rcases hrest with rfl | ⟨c, t, rfl, hc⟩
  · rw [List.append_nil, nextSection_none pre q hq]
    simp only [dataSubstring_end]
    apply parseRest_setPort
    unfold setPort
    split
    · exact .inr (.inl (by simp))
    · exact .inr (.inr (by simp))
  · have hnext := nextSection_rest pre q t c hq hc
    rw [hnext]
    simp only [dataSubstring_mid]
    apply parseRest_setPort
    unfold setPort
    split
    · exact .inl (nextSection_pastAuth hnext)
    · exact .inr (.inr (by simp))

/-- **The host and the port are those of the authority, unless the authority has no `:` and the
    rest has one.** -/
theorem parseHost_authority (pre a rest : Bytes) (p : UrlParse) (ha : NoDelim a)
    (hrest : IsRest rest) (hcolon : 58 ∈ a ∨ 58 ∉ rest) (hs : p.sect = .auth)
    (hsub : p.subSec = some .host) (hpos : p.spos = pre.length) (herr : p.error = none)
    (hport : p.url.portString = []) (hhost : p.url.hostname = []) :
    (parseRest strToNum (pre ++ (a ++ rest)) p).url.authority
      = (p.url.username, p.url.password, beforeColon a, afterColon a) := by
  by_cases hover : a ++ rest = []
  · obtain ⟨rfl, rfl⟩ := List.append_eq_nil_iff.1 hover
    rw [parseRest_end _ (by simp [hpos])]
    simp [Url.authority, hport, hhost, beforeColon, afterColon]
  have hlen : 0 < (a ++ rest).length := List.length_pos_iff.2 hover
  rw [parseRest_step p (by rw [List.length_append]; omega) herr]
  simp only [parseSection, hs, parseAuth, enterAuth, hsub, parseHost, hpos]
  by_cases hin : 58 ∈ a
  · obtain ⟨h, q, rfl, hh⟩ := List.eq_append_cons_of_mem hin
    obtain ⟨hbefore, hafterC⟩ := beforeColon_colon h q hh
    have hq : NoDelim q := by
      simp only [NoDelim, List.mem_append, List.mem_cons, not_or] at ha ⊢
      exact ⟨ha.1.2.2, ha.2.1.2.2, ha.2.2.2.2⟩
    have htext : pre ++ (h ++ 58 :: q ++ rest) = pre ++ (h ++ 58 :: (q ++ rest)) := by simp
    have htext' : pre ++ (h ++ 58 :: (q ++ rest)) = (pre ++ h ++ [58]) ++ (q ++ rest) := by simp
    rw [htext, findCh_some pre h (q ++ rest) 58 hh, hbefore, hafterC]
    simp only [dataSubstring_mid]
    rw [htext']
    have hnext : (pre ++ h).length + 1 = (pre ++ h ++ [58]).length := by
      simp only [List.length_append, List.length_singleton]
    exact parsePort_authority strToNum (pre ++ h ++ [58]) q rest _ hq hrest rfl rfl hnext herr hport
  · have hnot : 58 ∉ a ++ rest := by simp [hin, hcolon.resolve_left hin]
    obtain ⟨hbefore, hafterC⟩ := beforeColon_plain a hin
    rw [findCh_none hnot, hbefore, hafterC]
    rcases hrest with rfl | ⟨c, t, rfl, hc⟩
    · rw [List.append_nil, nextSection_none pre a ha]
      simp only [dataSubstring_end]
      rw [parseRest_end _ (by simp)]
      simp [Url.authority, hport]
    · have hnext := nextSection_rest pre a t c ha hc
      rw [hnext]
      simp only [dataSubstring_mid]
      rw [parseRest_pastAuth _ _ (nextSection_pastAuth hnext)]
      simp [Url.authority, hport]

/-- Without a `:` of its own the host runs on to the first one of the rest. -/
theorem parseHost_runs_on (pre a : Bytes) (c : UInt8) (t : Bytes) (p : UrlParse)
    (hin : 58 ∉ a) (hc : c ≠ 58) (ht : 58 ∈ t) (hs : p.sect = .auth) (hsub : p.subSec = some .host)
    (hpos : p.spos = pre.length) (herr : p.error = none) :
    c ∈ (parseRest strToNum (pre ++ (a ++ c :: t)) p).url.hostname := by
  obtain ⟨x, y, rfl, hx⟩ := List.eq_append_cons_of_mem ht
  have hhost : 58 ∉ a ++ c :: x := by simp [hin, hx, Ne.symm hc]
  have htext : pre ++ (a ++ c :: (x ++ 58 :: y)) = pre ++ ((a ++ c :: x) ++ 58 :: y) := by simp
  rw [htext, parseRest_step p (by simp only [hpos, List.length_append, List.length_cons]; omega) herr]
  simp only [parseSection, hs, parseAuth, enterAuth, hsub, parseHost, hpos,
    findCh_some pre (a ++ c :: x) y 58 hhost, dataSubstring_mid]
  rw [parseRest_pastHost _ _ (.inr ⟨rfl, rfl⟩)]
  simp

/-- What comes before the first `@`, if there is one. -/
def userPart (a : Bytes) : Bytes := if 64 ∈ a then a.takeWhile (· ≠ 64) else []

/-- What comes after the first `@`, or all of it if there is none. -/
def hostPart (a : Bytes) : Bytes := if 64 ∈ a then (a.dropWhile (· ≠ 64)).drop 1 else a

/-- The members an authority stands for. -/
def authorityOf (a : Bytes) : Bytes × Bytes × Bytes × Bytes :=
  (beforeColon (userPart a), afterColon (userPart a),
    beforeColon (hostPart a), afterColon (hostPart a))

theorem userPart_at (u h : Bytes) (hu : 64 ∉ u) :
    userPart (u ++ 64 :: h) = u ∧ hostPart (u ++ 64 :: h) = h := by
  have hall : ∀ c ∈ u, decide (c ≠ 64) = true := fun c hc =>
    decide_eq_true fun he => hu (he ▸ hc)
  have hmem : 64 ∈ u ++ 64 :: h := by simp
  unfold userPart hostPart
  rw [if_pos hmem, if_pos hmem, List.takeWhile_append_of_pos hall,
    List.dropWhile_append_of_pos hall]
  simp

theorem noDelim_hostPart {a : Bytes} (h : NoDelim a) : NoDelim (hostPart a) := by
  unfold hostPart
  split
  · have hsub : ∀ c, c ∈ (a.dropWhile (· ≠ 64)).drop 1 → c ∈ a := fun c hc =>
      List.dropWhile_subset _ (List.mem_of_mem_drop hc)
    exact ⟨fun hc => h.1 (hsub _ hc), fun hc => h.2.1 (hsub _ hc), fun hc => h.2.2 (hsub _ hc)⟩
  · exact h

/-- The state at the host when there is no user information. -/
def UrlParse.atHost (p : UrlParse) : UrlParse :=
  { p with url := { p.url with userinfo := false }, subSec := some .host }

/-- The state at the host, at `spos`, after the user information `u`. -/
def UrlParse.afterUser (p : UrlParse) (u : Bytes) (spos : Nat) : UrlParse :=
  { p with
    url := { p.url with userinfo := true, username := beforeColon u, password := afterColon u }
    subSec := some .host
    spos := spos }

/-- The user information ends at the first `@`. -/
theorem parseUserinfo_at (pre u t : Bytes) (p : UrlParse) (hu : 64 ∉ u) (hpre : 1 < pre.length)
    (hs : p.sect = .auth) (hsub : p.subSec = none) (hpos : p.spos = pre.length) :
    parseSection strToNum (pre ++ (u ++ 64 :: t)) p
      = p.afterUser u (pre ++ u ++ [64]).length := by
  have hnext : (pre ++ u).length + 1 = (pre ++ u ++ [64]).length := by
    simp only [List.length_append, List.length_singleton]
  simp only [parseSection, hs, parseAuth, enterAuth, hsub, hpos, findCh_some pre u t 64 hu,
    parseUserinfo, hnext, UrlParse.afterUser]
  by_cases hcolon : 58 ∈ u
  · obtain ⟨x, y, rfl, hx⟩ := List.eq_append_cons_of_mem hcolon
    have htext : pre ++ (x ++ 58 :: y ++ 64 :: t) = pre ++ (x ++ 58 :: (y ++ 64 :: t)) := by simp
    have htext' : pre ++ (x ++ 58 :: (y ++ 64 :: t)) = (pre ++ x ++ [58]) ++ (y ++ 64 :: t) := by
      simp
    have hpass : dataSubstring (pre ++ (x ++ 58 :: (y ++ 64 :: t))) ((pre ++ x).length + 1)
        (pre ++ (x ++ 58 :: y)).length = y := by
      have hcut := dataSubstring_mid (pre ++ x ++ [58]) y (64 :: t)
      rw [htext']
      simpa [Nat.add_assoc] using hcut
    obtain ⟨hbefore, hafter⟩ := beforeColon_colon x y hx
    have hguard : (decide ((pre ++ x).length > 1)
        && decide ((pre ++ x).length < (pre ++ (x ++ 58 :: y)).length)) = true := by
      simp only [List.length_append, List.length_cons, Bool.and_eq_true, decide_eq_true_eq]
      omega
    rw [htext, findCh_some pre x (y ++ 64 :: t) 58 hx]
    simp only [Option.filter, hguard, if_true, dataSubstring_mid, hpass, hbefore, hafter]
  · obtain ⟨hbefore, hafter⟩ := beforeColon_plain u hcolon
    have hlate := absentOrAfter_findCh pre u t 64 58 hcolon (by decide)
    have hnone : (findCh (pre ++ (u ++ 64 :: t)) 58 pre.length).filter
        (fun idx => decide (idx > 1) && decide (idx < (pre ++ u).length)) = none := by
      apply filter_absentOrAfter hlate
      intro j hj
      simp only [Bool.and_eq_false_iff, decide_eq_false_iff_not]
      exact .inr (by omega)
    rw [hnone]
    simp only [dataSubstring_mid, hbefore, hafter]

/-- Without an `@` ahead the authority begins with the host. -/
theorem parseAuth_no_at (pre t : Bytes) (p : UrlParse) (ht : 64 ∉ t) (hs : p.sect = .auth)
    (hsub : p.subSec = none) (hpos : p.spos = pre.length) :
    parseSection strToNum (pre ++ t) p = parseSection strToNum (pre ++ t) p.atHost := by
  simp only [parseSection, UrlParse.atHost, hs, parseAuth, enterAuth, hsub, hpos, findCh_none ht]

/-! ## Whole URLs -/

/-- `scheme://authority` and what comes after it. -/
def schemeUrl (scheme a rest : Bytes) : Bytes := scheme ++ [58, 47, 47] ++ (a ++ rest)

/-- A scheme has no `:`, `/`, `?` or `#`. -/
def IsScheme (scheme : Bytes) : Prop := 58 ∉ scheme ∧ NoDelim scheme

instance (scheme : Bytes) : Decidable (IsScheme scheme) :=
  inferInstanceAs (Decidable (58 ∉ scheme ∧ NoDelim scheme))

/-- The rest has no `@` and no `:` that the authority leaves to be found. -/
def RestHidden (a rest : Bytes) : Prop := (64 ∈ a ∨ 64 ∉ rest) ∧ (58 ∈ hostPart a ∨ 58 ∉ rest)

instance (a rest : Bytes) : Decidable (RestHidden a rest) :=
  inferInstanceAs (Decidable ((64 ∈ a ∨ 64 ∉ rest) ∧ (58 ∈ hostPart a ∨ 58 ∉ rest)))

theorem startSection_scheme (scheme t : Bytes) (h : IsScheme scheme) :
    startSection (scheme ++ [58, 47, 47] ++ t) = .scheme := by
  cases scheme with
  | nil => rfl
  | cons c scheme =>
    obtain ⟨-, hslash, hquery, hfrag⟩ := h
    simp only [List.mem_cons, not_or] at hslash hquery hfrag
    simp only [List.cons_append]
    unfold startSection
    split
    · next heq => exact absurd (List.cons.inj heq).1.symm hslash.1
    · next heq => exact absurd (List.cons.inj heq).1.symm hslash.1
    · next heq => exact absurd (List.cons.inj heq).1.symm hquery.1
    · next heq => exact absurd (List.cons.inj heq).1.symm hfrag.1
    · rfl

/-- The scheme is read, and the authority begins after `://`. -/
theorem parseUrl_scheme (scheme t : Bytes) (h : IsScheme scheme) :
    ∃ p : UrlParse, parseUrl strToNum (scheme ++ [58, 47, 47] ++ t)
        = parseRest strToNum (scheme ++ [58, 47, 47] ++ t) p ∧
      p.sect = .auth ∧ p.subSec = none ∧ p.spos = (scheme ++ [58, 47, 47]).length ∧
      p.error = none ∧ p.url.authority = ([], [], [], []) := by
  have htext : scheme ++ [58, 47, 47] ++ t = [] ++ (scheme ++ 58 :: 47 :: 47 :: t) := by simp
  have hcolon := findCh_some [] scheme (47 :: 47 :: t) 58 h.1
  have hslash := findCh_some (scheme ++ [58]) [] (47 :: t) 47 (by simp)
  have hslash' := findCh_some (scheme ++ [58, 47]) [] t 47 (by simp)
  have hstart := startSection_scheme scheme t h
  have hlen : (0 : Nat) < (scheme ++ [58, 47, 47] ++ t).length := by
    simp only [List.length_append, List.length_cons]
    omega
  unfold parseUrl
  rw [hstart]
  refine ⟨_, parseRest_step { sect := .scheme } hlen rfl, ?_⟩
  rw [htext]
  simp only [List.nil_append, List.length_nil, List.length_append, List.length_cons,
    List.append_assoc, List.cons_append, Nat.zero_add] at hcolon hslash hslash' ⊢
  simp only [parseSection, parseScheme, hcolon, hslash, hslash', if_true]
  exact ⟨trivial, trivial, by omega, trivial, rfl⟩

/-- With no `@` to be found in the rest, the loop comes to the host of the authority. -/
theorem parseUrl_host (scheme a rest : Bytes) (hscheme : IsScheme scheme)
    (hat : 64 ∈ a ∨ 64 ∉ rest) :
    ∃ (pre : Bytes) (p : UrlParse),
      (parseUrl strToNum (schemeUrl scheme a rest)).url.authority
        = (parseRest strToNum (pre ++ (hostPart a ++ rest)) p).url.authority ∧
      p.sect = .auth ∧ p.subSec = some .host ∧ p.spos = pre.length ∧ p.error = none ∧
      p.url.authority = (beforeColon (userPart a), afterColon (userPart a), [], []) := by
  obtain ⟨p, hparse, hs, hsub, hpos, herr, hauth⟩ :=
    parseUrl_scheme strToNum scheme (a ++ rest) hscheme
  simp only [Url.authority, Prod.mk.injEq] at hauth
  obtain ⟨hname, hpass, hhost, hport⟩ := hauth
  unfold schemeUrl
  rw [hparse]
  by_cases hin : 64 ∈ a
  · obtain ⟨u, h, rfl, hu⟩ := List.eq_append_cons_of_mem hin
    obtain ⟨huser, hhostPart⟩ := userPart_at u h hu
    have htext : u ++ 64 :: h ++ rest = u ++ 64 :: (h ++ rest) := by simp
    have htext' : scheme ++ [58, 47, 47] ++ (u ++ 64 :: (h ++ rest))
        = (scheme ++ [58, 47, 47] ++ u ++ [64]) ++ (h ++ rest) := by simp
    have hlen : p.spos < (scheme ++ [58, 47, 47] ++ (u ++ 64 :: (h ++ rest))).length := by
      simp only [hpos, List.length_append, List.length_cons]
      omega
    have hpre : 1 < (scheme ++ [58, 47, 47]).length := by
      simp only [List.length_append, List.length_cons]
      omega
    rw [htext, parseRest_step p hlen herr,
      parseUserinfo_at strToNum _ u (h ++ rest) p hu hpre hs hsub hpos, htext', huser, hhostPart]
    exact ⟨_, _, rfl, hs, rfl, rfl, herr,
      by simp only [UrlParse.afterUser, Url.authority, hhost, hport]⟩
  · have hnone : 64 ∉ a ++ rest := by simp [hin, hat.resolve_left hin]
    have huser : userPart a = [] := if_neg hin
    have hhostPart : hostPart a = a := if_neg hin
    rw [huser, hhostPart]
    refine ⟨scheme ++ [58, 47, 47], p.atHost, ?_, hs, rfl, hpos, herr, ?_⟩
    rotate_left
    · simp [UrlParse.atHost, Url.authority, hname, hpass, hhost, hport, beforeColon, afterColon]
    by_cases hover : a ++ rest = []
    · have hlen : (scheme ++ [58, 47, 47] ++ (a ++ rest)).length ≤ p.spos := by
        rw [hover, List.append_nil, hpos]
      rw [parseRest_end p hlen, parseRest_end p.atHost hlen]
      rfl
    · have hpos' : 0 < (a ++ rest).length := List.length_pos_iff.2 hover
      have hlen : p.spos < (scheme ++ [58, 47, 47] ++ (a ++ rest)).length := by
        simp only [hpos, List.length_append] at hpos' ⊢
        omega
      rw [parseRest_step p hlen herr, parseAuth_no_at strToNum _ _ p hnone hs hsub hpos,
        parseRest_step p.atHost hlen herr]

/-- With nothing to be found in the rest, the members are those of the authority. -/
theorem authority_hidden (scheme a rest : Bytes) (hscheme : IsScheme scheme) (ha : NoDelim a)
    (hrest : IsRest rest) (h : RestHidden a rest) :
    (parseUrl strToNum (schemeUrl scheme a rest)).url.authority = authorityOf a := by
  obtain ⟨pre, p, hparse, hs, hsub, hpos, herr, hauth⟩ :=
    parseUrl_host strToNum scheme a rest hscheme h.1
  simp only [Url.authority, Prod.mk.injEq] at hauth
  obtain ⟨hname, hpass, hhost, hport⟩ := hauth
  rw [hparse, parseHost_authority strToNum pre (hostPart a) rest p (noDelim_hostPart ha) hrest h.2 hs
    hsub hpos herr hport hhost, hname, hpass]
  rfl

theorem IsRest.cons_of_mem {rest : Bytes} (hrest : IsRest rest) {ch : UInt8} (h : ch ∈ rest)
    (hch : ch ≠ 47 ∧ ch ≠ 63 ∧ ch ≠ 35) :
    ∃ c t, rest = c :: t ∧ (c = 47 ∨ c = 63 ∨ c = 35) ∧ c ≠ ch ∧ ch ∈ t := by
  rcases hrest with rfl | ⟨c, t, rfl, hc⟩
  · cases h
  · have hne : c ≠ ch := by
      rintro rfl
      exact hc.elim hch.1 fun hc => hc.elim hch.2.1 hch.2.2
    exact ⟨c, t, rfl, hc, hne, (List.mem_cons.1 h).resolve_left (Ne.symm hne)⟩

/-- A text with a character other than `:` in it has something before or after its first `:`. -/
theorem colon_split_ne_nil (a x : Bytes) (c : UInt8) (hc : c ≠ 58) :
    ¬ (beforeColon (a ++ c :: x) = [] ∧ afterColon (a ++ c :: x) = []) := by
  rintro ⟨hbefore, hafter⟩
  by_cases hcolon : 58 ∈ a ++ c :: x
  · obtain ⟨y, z, heq, hy⟩ := List.eq_append_cons_of_mem hcolon
    obtain ⟨hb, ha⟩ := beforeColon_colon y z hy
    rw [heq, hb] at hbefore
    rw [heq, ha] at hafter
    subst hbefore hafter
    have hmem : c ∈ a ++ c :: x := by simp
    rw [heq] at hmem
    simp [hc] at hmem
  · rw [(beforeColon_plain _ hcolon).1] at hbefore
    simp at hbefore

/-- An `@` that is first found in the rest gives the URL a user. -/
theorem authority_at_in_rest (scheme a rest : Bytes) (hscheme : IsScheme scheme)
    (hrest : IsRest rest) (hin : 64 ∉ a) (hat : 64 ∈ rest) :
    (parseUrl strToNum (schemeUrl scheme a rest)).url.authority ≠ authorityOf a := by
  obtain ⟨c, t, rfl, hc, hne, ht⟩ := hrest.cons_of_mem hat (by decide)
  obtain ⟨x, y, rfl, hx⟩ := List.eq_append_cons_of_mem ht
  obtain ⟨p, hparse, hs, hsub, hpos, herr, -⟩ :=
    parseUrl_scheme strToNum scheme (a ++ c :: (x ++ 64 :: y)) hscheme
  have hu : 64 ∉ a ++ c :: x := by simp [hin, hx, Ne.symm hne]
  have htext : a ++ c :: (x ++ 64 :: y) = (a ++ c :: x) ++ 64 :: y := by simp
  have hlen : p.spos < (scheme ++ [58, 47, 47] ++ ((a ++ c :: x) ++ 64 :: y)).length := by
    simp only [hpos, List.length_append, List.length_cons]
    omega
  have hpre : 1 < (scheme ++ [58, 47, 47]).length := by
    simp only [List.length_append, List.length_cons]
    omega
  have huser : userPart a = [] := if_neg hin
  have hcolon : c ≠ 58 := by
    rcases hc with rfl | rfl | rfl <;> decide
  unfold schemeUrl
  rw [hparse, htext, parseRest_step p hlen herr,
    parseUserinfo_at strToNum _ (a ++ c :: x) y p hu hpre hs hsub hpos]
  intro heq
  have hlate : PastUser
      (p.afterUser (a ++ c :: x) (scheme ++ [58, 47, 47] ++ (a ++ c :: x) ++ [64]).length) :=
    .inr ⟨hs, rfl⟩
  obtain ⟨hkeep, hkeep'⟩ := parseRest_pastUser strToNum
    (scheme ++ [58, 47, 47] ++ ((a ++ c :: x) ++ 64 :: y)) hlate
  simp only [Url.authority, authorityOf, huser, Prod.mk.injEq, hkeep, hkeep'] at heq
  obtain ⟨hname, hpass, -⟩ := heq
  exact colon_split_ne_nil a x c hcolon ⟨hname, hpass⟩

/-- A `:` that is first found in the rest drags its beginning into the host. -/
theorem authority_colon_in_rest (scheme a rest : Bytes) (hscheme : IsScheme scheme)
    (ha : NoDelim a) (hrest : IsRest rest) (hat : 64 ∈ a ∨ 64 ∉ rest) (hin : 58 ∉ hostPart a)
    (hcolon : 58 ∈ rest) :
    (parseUrl strToNum (schemeUrl scheme a rest)).url.authority ≠ authorityOf a := by
  obtain ⟨c, t, rfl, hc, hne, ht⟩ := hrest.cons_of_mem hcolon (by decide)
  obtain ⟨pre, p, hparse, hs, hsub, hpos, herr, -⟩ :=
    parseUrl_host strToNum scheme a (c :: t) hscheme hat
  have hmem := parseHost_runs_on strToNum pre (hostPart a) c t p hin hne ht hs hsub hpos herr
  rw [hparse]
  intro heq
  simp only [Url.authority, authorityOf, Prod.mk.injEq, (beforeColon_plain _ hin).1] at heq
  rw [heq.2.2.1] at hmem
  obtain ⟨hslash, hquery, hfrag⟩ := noDelim_hostPart ha
  rcases hc with rfl | rfl | rfl
  · exact hslash hmem
  · exact hquery hmem
  · exact hfrag hmem

end Authority

/-- No `/`, `?`, `#` or `@`. -/
def HostClean (host : Bytes) : Prop := NoDelim host ∧ 64 ∉ host

theorem hostClean_authorityOf {a : Bytes} (ha : NoDelim a) :
    HostClean (authorityOf a).2.2.1 ↔ 64 ∉ beforeColon (hostPart a) := by
  have hsub : ∀ c, c ∈ beforeColon (hostPart a) → c ∈ hostPart a := fun c hc =>
    List.takeWhile_subset _ hc
  obtain ⟨hslash, hquery, hfrag⟩ := noDelim_hostPart ha
  constructor
  · intro h
    exact h.2
  · intro h
    exact ⟨⟨fun hc => hslash (hsub _ hc), fun hc => hquery (hsub _ hc),
      fun hc => hfrag (hsub _ hc)⟩, h⟩

/-- **A URL gives the same user, password, host and port as one with the same authority and a
    harmless rest, and a host without `/`, `?`, `#` and `@`, exactly if its own rest is harmless too
    and the host has no second `@`.** A rest is harmless if it is empty, or if neither an `@` nor a
    `:` is first found in it. -/
theorem authority_iff (strToNum : Bytes → Option Nat) (scheme scheme' a rest rest' : Bytes)
    (hscheme : IsScheme scheme) (hscheme' : IsScheme scheme') (ha : NoDelim a)
    (hrest : IsRest rest) (hrest' : IsRest rest') (hhidden : RestHidden a rest') :
    ((parseUrl strToNum (schemeUrl scheme a rest)).url.authority
        = (parseUrl strToNum (schemeUrl scheme' a rest')).url.authority ∧
      HostClean (parseUrl strToNum (schemeUrl scheme a rest)).url.hostname)
      ↔ RestHidden a rest ∧ 64 ∉ beforeColon (hostPart a) := by
  rw [authority_hidden strToNum scheme' a rest' hscheme' ha hrest' hhidden]
  constructor
  · rintro ⟨heq, hclean⟩
    refine ⟨⟨?_, ?_⟩, ?_⟩
    · by_contra hnot
      rw [not_or, not_not] at hnot
      exact authority_at_in_rest strToNum scheme a rest hscheme hrest hnot.1 hnot.2 heq
    · by_contra hnot
      rw [not_or, not_not] at hnot
      by_cases hat : 64 ∈ a ∨ 64 ∉ rest
      · exact authority_colon_in_rest strToNum scheme a rest hscheme ha hrest hat hnot.1 hnot.2 heq
      · rw [not_or, not_not] at hat
        exact authority_at_in_rest strToNum scheme a rest hscheme hrest hat.1 hat.2 heq
    · rw [← hostClean_authorityOf ha, ← heq]
      exact hclean
  · rintro ⟨hhid, hclean⟩
    have heq := authority_hidden strToNum scheme a rest hscheme ha hrest hhid
    refine ⟨heq, ?_⟩
    have hhost : (parseUrl strToNum (schemeUrl scheme a rest)).url.hostname
        = (authorityOf a).2.2.1 := by
      rw [← heq]
      rfl
    rw [hhost, hostClean_authorityOf ha]
    exact hclean

/-- A user and a port in the authority hide what the path and the query hold. -/
theorem authority_hides_rest :
    (parseUrl (fun _ => some 0) (bytes "http://u:p@h:80/a:b@c")).url.authority
        = (parseUrl (fun _ => some 0) (bytes "https://u:p@h:80?q")).url.authority ∧
      HostClean (parseUrl (fun _ => some 0) (bytes "http://u:p@h:80/a:b@c")).url.hostname :=
  (authority_iff (fun _ => some 0) (bytes "http") (bytes "https") (bytes "u:p@h:80")
    (bytes "/a:b@c") (bytes "?q") (by decide) (by decide) (by decide)
    (.inr ⟨47, bytes "a:b@c", by decide, .inl rfl⟩)
    (.inr ⟨63, bytes "q", by decide, .inr (.inl rfl)⟩) (by decide)).2 (by decide)

/-- `http://good.example/@evil.example` has the host `evil.example`. -/
theorem authority_leaks :
    ¬ ∀ (strToNum : Bytes → Option Nat) (scheme scheme' a rest rest' : Bytes),
      IsScheme scheme → IsScheme scheme' → NoDelim a → IsRest rest → IsRest rest' →
      (parseUrl strToNum (schemeUrl scheme a rest)).url.authority
          = (parseUrl strToNum (schemeUrl scheme' a rest')).url.authority ∧
        HostClean (parseUrl strToNum (schemeUrl scheme a rest)).url.hostname := by
  intro hall
  have hsame := (hall (fun _ => none) (bytes "http") (bytes "http") (bytes "good.example")
    (bytes "/@evil.example") [] (by decide) (by decide) (by decide)
    (.inr ⟨47, bytes "@evil.example", by decide, .inl rfl⟩) (.inl rfl)).1
  revert hsame
  decide

end LibEvmvc
