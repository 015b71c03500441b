import LibEvmvc.Http.Url

set_option autoImplicit false

/-! # The loop of `_parse` moves on

Every turn of the loop throws or moves `spos`, to the end of the text at most, and takes only such parts of the
text as lie in it: where the searches find nothing no part ends there, and where two are compared the part
between them is not turned around (`parseUrl_progress`). -/

namespace LibEvmvc

/-! ## Parts that are checked

The same functions; `none` is a part that ends in front of where it begins, or behind the text. -/

/-- `data_substring`, if there is such a part. -/
def dataSubstring? (data : Bytes) (offset endIdx : Nat) : Option Bytes :=
  if offset ≤ endIdx ∧ endIdx ≤ data.length then some (dataSubstring data offset endIdx) else none

theorem dataSubstring?_eq {data : Bytes} {offset endIdx : Nat} (h : offset ≤ endIdx)
    (hend : endIdx ≤ data.length) :
    dataSubstring? data offset endIdx = some (dataSubstring data offset endIdx) :=
  if_pos ⟨h, hend⟩

section Checked

variable (strToNum : Bytes → Option Nat) (data : Bytes)

def parseSchemeChecked (p : UrlParse) : Option UrlParse :=
  match findCh data 58 p.spos with
  | none => some { p with error := some .invalidUri }
  | some idx1 => (dataSubstring? data p.spos idx1).map fun text =>
    let name := lower text
    let scheme : UrlScheme :=
      if name = bytes "http" then .http else if name = bytes "https" then .https else .unknown
    let url := { p.url with schemeString := name, scheme := scheme }
    if findCh data 47 (idx1 + 1) = some (idx1 + 1) then
      if findCh data 47 (idx1 + 2) = some (idx1 + 2) then
        { p with url := url, sect := .auth, spos := p.spos + (idx1 + 3) }
      else { p with url := url, sect := .path, spos := p.spos + (idx1 + 1) }
    else
      let sect : UrlSection := match data[idx1 + 1]? with
        | none => p.sect
        | some c => if c = 63 then .query else if c = 35 then .frag else .path
      { p with url := url, sect := sect, spos := p.spos + (idx1 + 1) }

/-- Without an `@` the user information would be a part up to -1. -/
def parseUserinfoChecked (p : UrlParse) : Option UrlParse :=
  match findCh data 64 p.spos with
  | none => none
  | some atIdx =>
    let url := match (findCh data 58 p.spos).filter (fun idx => idx > 1 && idx < atIdx) with
      | some idx => (dataSubstring? data p.spos idx).bind fun username =>
        (dataSubstring? data (idx + 1) atIdx).map fun password =>
          { p.url with username := username, password := password }
      | none => (dataSubstring? data p.spos atIdx).map fun username =>
        { p.url with username := username, password := [] }
    url.map fun url => { p with url := url, subSec := some .host, spos := atIdx + 1 }

def parseHostChecked (p : UrlParse) : Option UrlParse :=
  match findCh data 58 p.spos with
  | some pidx => (dataSubstring? data p.spos pidx).map fun hostname =>
    { p with url := { p.url with hostname := hostname }, spos := pidx + 1, subSec := some .port }
  | none => match nextSection data p.spos with
    | some (i, sect) => (dataSubstring? data p.spos i).map fun hostname =>
      { p with url := { p.url with hostname := hostname }, spos := i + 1, sect := sect }
    | none => (dataSubstring? data p.spos data.length).map fun hostname =>
      { p with url := { p.url with hostname := hostname }, spos := p.spos + hostname.length }

def parsePortChecked (p : UrlParse) : Option UrlParse :=
  match nextSection data p.spos with
  | some (i, sect) => (dataSubstring? data p.spos i).map fun portString =>
    setPort strToNum p portString (i + 1) sect
  | none => (dataSubstring? data p.spos data.length).map fun portString =>
    setPort strToNum p portString (p.spos + portString.length) p.sect

def parseAuthChecked (p : UrlParse) : Option UrlParse :=
  match enterAuth data p with
  | (p, .userinfo) => parseUserinfoChecked data p
  | (p, .host) => parseHostChecked data p
  | (p, .port) => parsePortChecked strToNum data p

def parsePathChecked (p : UrlParse) : Option UrlParse :=
  let qidx := findCh data 63 p.spos
  match (findCh data 35 p.spos).filter (fun f => absentOrAfter qidx f) with
  | some f => (dataSubstring? data p.spos f).map fun path =>
    { p with url := { p.url with path := path }, spos := f + 1, sect := .frag }
  | none => match qidx with
    | some q => (dataSubstring? data p.spos q).map fun path =>
      { p with url := { p.url with path := path }, spos := q + 1, sect := .query }
    | none => (dataSubstring? data p.spos data.length).map fun path =>
      { p with url := { p.url with path := path }, spos := p.spos + path.length }

def parseQueryChecked (p : UrlParse) : Option UrlParse :=
  match findCh data 35 p.spos with
  | some f => (dataSubstring? data p.spos f).map fun query =>
    { p with url := { p.url with query := query }, spos := f + 1, sect := .frag }
  | none => (dataSubstring? data p.spos data.length).map fun query =>
    { p with url := { p.url with query := query }, spos := p.spos + query.length }

def parseFragChecked (p : UrlParse) : Option UrlParse :=
  (dataSubstring? data p.spos data.length).map fun fragment =>
    { p with url := { p.url with fragment := fragment }, spos := p.spos + fragment.length }

/-- The body of the loop. -/
def parseSectionChecked (p : UrlParse) : Option UrlParse :=
  match p.sect with
  | .scheme => parseSchemeChecked data p
  | .auth => parseAuthChecked strToNum data p
  | .path => parsePathChecked data p
  | .query => parseQueryChecked data p
  | .frag => parseFragChecked data p

/-- The loop; it is `none`, too, if the rounds do not suffice. -/
def parseLoopChecked : Nat → UrlParse → Option UrlParse
  | rounds, p =>
    if p.spos < data.length ∧ p.error = none then
      match rounds with
      | 0 => none
      | rounds + 1 => (parseSectionChecked strToNum data p).bind (parseLoopChecked rounds)
    else some p

end Checked

/-! ## One turn -/

/-- What holds where a turn begins. The scheme is looked for only once, and the turn that finds user
information takes it. -/
structure AtTurn (data : Bytes) (p : UrlParse) : Prop where
  inside : p.spos < data.length
  scheme : p.sect = .scheme → p.spos = 0
  subSec : p.subSec ≠ some .userinfo

/-- What comes of a turn, and of the same turn with its parts checked. -/
structure TurnChecked (data : Bytes) (o : Option UrlParse) (p : UrlParse) : Prop where
  checked : o = some p
  inside : p.spos ≤ data.length
  sect : p.spos < data.length → p.error = none → p.sect ≠ .scheme
  subSec : p.subSec ≠ some .userinfo

section Turn

variable {strToNum : Bytes → Option Nat} {data : Bytes} {p : UrlParse}

theorem nextSection_ne_scheme {pos i : Nat} {sect : UrlSection} (h : nextSection data pos = some (i, sect)) :
    sect ≠ .scheme := by
  rcases nextSection_pastAuth h with rfl | rfl | rfl <;> exact nofun

/-- The part up to the end. -/
theorem dataSubstring?_end (h : p.spos ≤ data.length) :
    dataSubstring? data p.spos data.length = some (dataSubstring data p.spos data.length) ∧
      p.spos + (dataSubstring data p.spos data.length).length = data.length := by
  refine ⟨dataSubstring?_eq h (Nat.le_refl _), ?_⟩
  rw [length_dataSubstring]
  exact Nat.max_eq_right h

theorem parseScheme_checked (hp : AtTurn data p) (hsect : p.sect = .scheme) :
    TurnChecked data (parseSchemeChecked data p) (parseScheme data p) := by
  have hstart := hp.scheme hsect
  unfold parseSchemeChecked parseScheme
  cases hcolon : findCh data 58 p.spos with
  | none => exact ⟨rfl, Nat.le_of_lt hp.inside, fun _ herr => (nomatch herr), hp.subSec⟩
  | some idx1 =>
    obtain ⟨hle, hlt⟩ := findCh_lt hcolon
    dsimp only
    rw [dataSubstring?_eq hle (Nat.le_of_lt hlt), Option.map_some]
    split
    · split
      · next hslash =>
        have hend := (findCh_lt hslash).2
        refine ⟨rfl, ?_, fun _ _ => nofun, hp.subSec⟩
        show p.spos + (idx1 + 3) ≤ data.length
        omega
      · refine ⟨rfl, ?_, fun _ _ => nofun, hp.subSec⟩
        show p.spos + (idx1 + 1) ≤ data.length
        omega
    · refine ⟨rfl, ?_, fun hin _ => ?_, hp.subSec⟩
      · show p.spos + (idx1 + 1) ≤ data.length
        omega
      · -- there is a character behind the `:`
        have hnext : idx1 + 1 < data.length := by
          have hin : p.spos + (idx1 + 1) < data.length := hin
          omega
        rw [List.getElem?_eq_getElem hnext]
        dsimp only
        split_ifs <;> exact nofun

theorem parseUserinfo_checked (hsect : p.sect = .auth)
    (hat : findCh data 64 p.spos ≠ none) :
    TurnChecked data (parseUserinfoChecked data p) (parseUserinfo data p) := by
  unfold parseUserinfoChecked parseUserinfo
  cases hfind : findCh data 64 p.spos with
  | none => exact absurd hfind hat
  | some atIdx =>
    obtain ⟨hle, hlt⟩ := findCh_lt hfind
    have hnext : p.sect ≠ .scheme := by rw [hsect]; exact nofun
    refine ⟨?_, hlt, fun _ _ => hnext, nofun⟩
    dsimp only
    cases hcolon : (findCh data 58 p.spos).filter (fun idx => idx > 1 && idx < atIdx) with
    | none =>
      dsimp only
      rw [dataSubstring?_eq hle (Nat.le_of_lt hlt), Option.map_some, Option.map_some]
    | some idx =>
      obtain ⟨hidx, hbefore⟩ := Option.filter_eq_some_iff.1 hcolon
      have hidxlt : idx < atIdx := of_decide_eq_true (Bool.and_eq_true_iff.1 hbefore).2
      dsimp only
      rw [dataSubstring?_eq (findCh_lt hidx).1 (Nat.le_of_lt (findCh_lt hidx).2),
        dataSubstring?_eq hidxlt (Nat.le_of_lt hlt), Option.bind_some, Option.map_some, Option.map_some]

theorem parseHost_checked (hp : p.spos < data.length) (hsect : p.sect = .auth)
    (hsub : p.subSec = some .host) : TurnChecked data (parseHostChecked data p) (parseHost data p) := by
  have hnext : p.sect ≠ .scheme := by rw [hsect]; exact nofun
  have hnotuser : p.subSec ≠ some .userinfo := by rw [hsub]; exact nofun
  unfold parseHostChecked parseHost
  cases hcolon : findCh data 58 p.spos with
  | some pidx =>
    obtain ⟨hle, hlt⟩ := findCh_lt hcolon
    dsimp only
    rw [dataSubstring?_eq hle (Nat.le_of_lt hlt)]
    exact ⟨rfl, hlt, fun _ _ => hnext, nofun⟩
  | none =>
    cases hsection : nextSection data p.spos with
    | some found =>
      obtain ⟨hle, hlt⟩ := nextSection_lt hsection
      dsimp only
      rw [dataSubstring?_eq hle (Nat.le_of_lt hlt)]
      exact ⟨rfl, hlt, fun _ _ => nextSection_ne_scheme hsection, hnotuser⟩
    | none =>
      obtain ⟨hpart, hend⟩ := dataSubstring?_end (Nat.le_of_lt hp)
      dsimp only
      rw [hpart]
      exact ⟨rfl, Nat.le_of_eq hend, fun _ _ => hnext, hnotuser⟩

theorem setPort_checked {portString : Bytes} {spos : Nat} {sect : UrlSection} (hp : p.spos ≤ data.length)
    (hspos : spos ≤ data.length) (hsect : sect ≠ .scheme) (hsub : p.subSec ≠ some .userinfo) :
    TurnChecked data (some (setPort strToNum p portString spos sect))
      (setPort strToNum p portString spos sect) := by
  unfold setPort
  split
  · exact ⟨rfl, hspos, fun _ _ => hsect, hsub⟩
  · exact ⟨rfl, hp, fun _ herr => (nomatch herr), hsub⟩

theorem parsePort_checked (hp : p.spos < data.length) (hsect : p.sect = .auth)
    (hsub : p.subSec = some .port) :
    TurnChecked data (parsePortChecked strToNum data p) (parsePort strToNum data p) := by
  have hnotuser : p.subSec ≠ some .userinfo := by rw [hsub]; exact nofun
  unfold parsePortChecked parsePort
  cases hsection : nextSection data p.spos with
  | some found =>
    obtain ⟨hle, hlt⟩ := nextSection_lt hsection
    dsimp only
    rw [dataSubstring?_eq hle (Nat.le_of_lt hlt)]
    exact setPort_checked (Nat.le_of_lt hp) hlt (nextSection_ne_scheme hsection) hnotuser
  | none =>
    have hnext : p.sect ≠ .scheme := by rw [hsect]; exact nofun
    obtain ⟨hpart, hend⟩ := dataSubstring?_end (Nat.le_of_lt hp)
    dsimp only
    rw [hpart]
    exact setPort_checked (Nat.le_of_lt hp) (Nat.le_of_eq hend) hnext hnotuser

theorem parseAuth_checked (hp : AtTurn data p) (hsect : p.sect = .auth) :
    TurnChecked data (parseAuthChecked strToNum data p) (parseAuth strToNum data p) := by
  unfold parseAuthChecked parseAuth enterAuth
  cases hsub : p.subSec with
  | none =>
    cases hat : findCh data 64 p.spos with
    | none => exact parseHost_checked hp.inside hsect rfl
    | some atIdx => exact parseUserinfo_checked hsect (by rw [hat]; exact nofun)
  | some sub =>
    cases sub with
    | userinfo => exact absurd hsub hp.subSec
    | host => exact parseHost_checked hp.inside hsect hsub
    | port => exact parsePort_checked hp.inside hsect hsub

theorem parsePath_checked (hp : AtTurn data p) (hsect : p.sect = .path) :
    TurnChecked data (parsePathChecked data p) (parsePath data p) := by
  unfold parsePathChecked parsePath
  dsimp only
  cases hf : (findCh data 35 p.spos).filter (fun f => absentOrAfter (findCh data 63 p.spos) f) with
  | some f =>
    obtain ⟨hle, hlt⟩ := findCh_lt (Option.filter_eq_some_iff.1 hf).1
    dsimp only
    rw [dataSubstring?_eq hle (Nat.le_of_lt hlt)]
    exact ⟨rfl, hlt, fun _ _ => nofun, hp.subSec⟩
  | none =>
    cases hq : findCh data 63 p.spos with
    | some q =>
      obtain ⟨hle, hlt⟩ := findCh_lt hq
      dsimp only
      rw [dataSubstring?_eq hle (Nat.le_of_lt hlt)]
      exact ⟨rfl, hlt, fun _ _ => nofun, hp.subSec⟩
    | none =>
      have hnext : p.sect ≠ .scheme := by rw [hsect]; exact nofun
      obtain ⟨hpart, hend⟩ := dataSubstring?_end (Nat.le_of_lt hp.inside)
      dsimp only
      rw [hpart]
      exact ⟨rfl, Nat.le_of_eq hend, fun _ _ => hnext, hp.subSec⟩

theorem parseQuery_checked (hp : AtTurn data p) (hsect : p.sect = .query) :
    TurnChecked data (parseQueryChecked data p) (parseQuery data p) := by
  unfold parseQueryChecked parseQuery
  cases hf : findCh data 35 p.spos with
  | some f =>
    obtain ⟨hle, hlt⟩ := findCh_lt hf
    dsimp only
    rw [dataSubstring?_eq hle (Nat.le_of_lt hlt)]
    exact ⟨rfl, hlt, fun _ _ => nofun, hp.subSec⟩
  | none =>
    have hnext : p.sect ≠ .scheme := by rw [hsect]; exact nofun
    obtain ⟨hpart, hend⟩ := dataSubstring?_end (Nat.le_of_lt hp.inside)
    dsimp only
    rw [hpart]
    exact ⟨rfl, Nat.le_of_eq hend, fun _ _ => hnext, hp.subSec⟩

theorem parseFrag_checked (hp : AtTurn data p) (hsect : p.sect = .frag) :
    TurnChecked data (parseFragChecked data p) (parseFrag data p) := by
  have hnext : p.sect ≠ .scheme := by rw [hsect]; exact nofun
  obtain ⟨hpart, hend⟩ := dataSubstring?_end (Nat.le_of_lt hp.inside)
  unfold parseFragChecked parseFrag
  rw [hpart]
  exact ⟨rfl, Nat.le_of_eq hend, fun _ _ => hnext, hp.subSec⟩

theorem parseSection_checked (hp : AtTurn data p) :
    TurnChecked data (parseSectionChecked strToNum data p) (parseSection strToNum data p) := by
  unfold parseSectionChecked parseSection
  cases hsect : p.sect with
  | scheme => exact parseScheme_checked hp hsect
  | auth => exact parseAuth_checked hp hsect
  | path => exact parsePath_checked hp hsect
  | query => exact parseQuery_checked hp hsect
  | frag => exact parseFrag_checked hp hsect

/-- The next turn begins as this one did. -/
theorem AtTurn.next (hp : AtTurn data p) (hin : (parseSection strToNum data p).spos < data.length)
    (herr : (parseSection strToNum data p).error = none) : AtTurn data (parseSection strToNum data p) := by
  have hturn : TurnChecked data (parseSectionChecked strToNum data p) _ := parseSection_checked hp
  exact ⟨hin, fun hsect => absurd hsect (hturn.sect hin herr), hturn.subSec⟩

end Turn

/-! ## The whole loop -/

/-- The variables where the turns of the loop begin. -/
inductive TurnBegins (strToNum : Bytes → Option Nat) (data : Bytes) : UrlParse → Prop
  | start (hne : data ≠ []) : TurnBegins strToNum data { sect := startSection data }
  | next {p : UrlParse} (hp : TurnBegins strToNum data p)
      (hin : (parseSection strToNum data p).spos < data.length)
      (herr : (parseSection strToNum data p).error = none) :
      TurnBegins strToNum data (parseSection strToNum data p)

section Loop

variable {strToNum : Bytes → Option Nat} {data : Bytes} {p : UrlParse}

theorem atTurn_start (h : 0 < data.length) : AtTurn data { sect := startSection data } :=
  ⟨h, fun _ => rfl, nofun⟩

theorem TurnBegins.atTurn (hp : TurnBegins strToNum data p) : AtTurn data p := by
  induction hp with
  | start hne => exact atTurn_start (List.length_pos_iff.2 hne)
  | next _ hin herr ih => exact ih.next hin herr

theorem parseLoop_checked (rounds : Nat) (hp : p.spos < data.length → p.error = none → AtTurn data p)
    (hrounds : data.length - p.spos ≤ rounds) :
    parseLoopChecked strToNum data rounds p = some (parseLoop strToNum data rounds p) := by
  induction rounds generalizing p with
  | zero => rw [parseLoopChecked, parseLoop, if_neg fun hgo => by omega]
  | succ rounds ih =>
    rw [parseLoopChecked, parseLoop]
    split
    · next hgo =>
      have hat := hp hgo.1 hgo.2
      have hturn : TurnChecked data (parseSectionChecked strToNum data p) _ := parseSection_checked hat
      rw [hturn.checked, Option.bind_some]
      rcases parseSection_progress strToNum hgo.1 with hmove | herr
      · exact ih (fun hin herr => hat.next hin herr) (by omega)
      · have hstop : ¬((parseSection strToNum data p).spos < data.length ∧
            (parseSection strToNum data p).error = none) := fun hgo' => herr hgo'.2
        cases rounds with
        | zero => rw [parseLoopChecked, parseLoop, if_neg hstop]
        | succ rounds => rw [parseLoopChecked, parseLoop, if_neg hstop, if_neg hstop]
    · rfl

/-- **Every turn of the loop throws or moves on inside the text, the parts that are taken are parts of the
text, and the loop comes to its end** in no more turns than the text has characters. -/
theorem parseUrl_progress (strToNum : Bytes → Option Nat) (data : Bytes) :
    (∀ p, TurnBegins strToNum data p →
      parseSectionChecked strToNum data p = some (parseSection strToNum data p) ∧
        ((parseSection strToNum data p).error ≠ none ∨
          p.spos < (parseSection strToNum data p).spos ∧ (parseSection strToNum data p).spos ≤ data.length)) ∧
      ∀ rounds, data.length ≤ rounds →
        parseLoopChecked strToNum data rounds { sect := startSection data }
          = some (parseUrl strToNum data) := by
  refine ⟨fun p hp => ?_, fun rounds hrounds => ?_⟩
  · have hat := hp.atTurn
    have hturn : TurnChecked data (parseSectionChecked strToNum data p) _ := parseSection_checked hat
    refine ⟨hturn.checked, ?_⟩
    rcases parseSection_progress strToNum hat.inside with hmove | herr
    · exact .inr ⟨hmove, hturn.inside⟩
    · exact .inl herr
  · rw [parseLoop_checked rounds (fun hin _ => atTurn_start (Nat.zero_lt_of_lt hin)) (by omega)]
    unfold parseUrl
    rw [parseLoop_enough rounds data.length _ (by omega) (by omega)]

end Loop

end LibEvmvc
