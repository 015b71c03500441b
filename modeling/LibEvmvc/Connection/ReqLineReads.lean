import LibEvmvc.Connection.RequestHead

set_option autoImplicit false

/-! # Where a request line is read

`parse_req_line` with a check at every read, whether it is inside the line. `rfind_ch` counts an
unsigned index down while it is at least zero, so it never returns `-1`: where there is no space, it
reads in front of the line. And the scan for the method looks at the character before the first space
before it asks whether that is the start of the line.

A line that is read inside only is parsed alike whatever stands before it
(`parseReqLine_of_inLine`). -/

namespace LibEvmvc

/-! ## The searches -/

/-- The loop of `rfind_ch` from an index on; `none` is a read outside the line. -/
def rfindFrom (data : Bytes) (c : UInt8) : Nat → Option Nat
  | 0 => if data[0]? = some c then some 0 else none
  | i + 1 =>
    match data[i + 1]? with
    | none => none
    | some x => if x = c then some (i + 1) else rfindFrom data c i

/-- The index a search starts from, where none is `-1`. -/
def searchStart (line : Bytes) (start : Option Nat) : Nat := start.getD (line.length - 1)

/-- `rfind_ch`: it leaves the line, or returns a place. -/
def rfindChecked (line : Bytes) (c : UInt8) (start : Option Nat) : Option (Option Nat) :=
  (rfindFrom line c (searchStart line start)).map some

/-- What `rfind_ch` is for: the last place of `c` at or before the start, or none. -/
def lastPlace (line : Bytes) (c : UInt8) (start : Option Nat) : Option Nat :=
  rfindCh c (line.take (searchStart line start + 1))

/-- The loop over the method, from the place of the space; `none` is a read outside the line. -/
def scanMethod (line : Bytes) : Nat → Option Bytes
  | 0 => none
  | i + 1 =>
    match (line)[i]? with
    | none => none
    | some c =>
      if isMethodChar c then if i = 0 then some [c] else (scanMethod line i).map (c :: ·)
      else some []

/-- What the version leaves behind. -/
def ParserHead.withVer (env : HeadEnv) (p : ParserHead) (ver : Bytes) : ParserHead :=
  { p with httpVerString := env.trim ver, httpVer := parseHttpVer (env.trim ver) }

/-- What the method, which is found backwards, leaves behind. -/
def ParserHead.withMethod (p : ParserHead) (reversed : Bytes) : ParserHead :=
  { p with
    method := (methodName reversed).1, methodString := (methodName reversed).2, status := .parseHeader,
    hdrs := some (.empty _ _) }

/-- The URI between the two spaces, and the method in front of it. -/
def uriAndMethod (env : HeadEnv) (scan : Nat → Option Bytes) (line : Bytes) (p : ParserHead)
    (ssp fsp : Nat) : Option ReqLineResult :=
  -- a string of negative length cannot be made
  if ssp < fsp + 1 then some (.thrown p)
  else
    let uri := (line.take ssp).drop (fsp + 1)
    let p := { p with uriString := uri }
    if env.urlOk uri = false then some (.thrown p)
    else (scan fsp).map fun reversed => .keep (p.withMethod reversed)

/-- The version behind the second space, and what is in front of it. -/
def verAndUri (env : HeadEnv) (find : Option Nat → Option (Option Nat)) (scan : Nat → Option Bytes)
    (line : Bytes) (p : ParserHead) (ssp : Nat) : Option ReqLineResult :=
  let p := p.withVer env (line.drop (ssp + 1))
  if p.httpVer = .unknown then some (.keep p)
  else
    (find (if ssp = 0 then none else some (ssp - 1))).bind fun
      | none => some (.keep p)
      | some fsp => uriAndMethod env scan line p ssp fsp

/-- `http_parser::parse_req_line` on a line that is not empty, with the two searches and the scan. Each
    of them may leave the line, and a search may find nothing. -/
def reqLineOver (env : HeadEnv) (find : Option Nat → Option (Option Nat)) (scan : Nat → Option Bytes)
    (line : Bytes) (p : ParserHead) : Option ReqLineResult :=
  (find none).bind fun
    | none => some (.keep p)
    | some ssp => verAndUri env find scan line p ssp

/-- `parse_req_line` with its reads checked; `none` is a read outside the line. -/
def reqLineChecked (env : HeadEnv) (line : Bytes) (p : ParserHead) : Option ReqLineResult :=
  reqLineOver env (rfindChecked line 32) (scanMethod line) line p

/-- `parse_req_line` as it is meant: the searches find the last place or say that there is none, and the
    method ends where the line starts. -/
def reqLineMeant (env : HeadEnv) (line : Bytes) (p : ParserHead) : Option ReqLineResult :=
  reqLineOver env (fun start => some (lastPlace line 32 start))
    (fun fsp => some ((line.take fsp).reverse.takeWhile isMethodChar)) line p

/-- The line is read inside only: it has a space, and if a version that is supported is behind the last
    one, that space is at the start, or there is another one, in front of which there is something
    unless the URI is refused. -/
def InLine (env : HeadEnv) (line : Bytes) : Prop :=
  ∃ a v, line = a ++ 32 :: v ∧ 32 ∉ v ∧
    (parseHttpVer (env.trim v) = .unknown ∨ a = [] ∨
      ∃ m u, a = m ++ 32 :: u ∧ 32 ∉ u ∧ (m = [] → env.urlOk u = false))

theorem take_succ_of_lt {data : Bytes} {i : Nat} (h : i < data.length) :
    data.take (i + 1) = data.take i ++ [data[i]] := by
  rw [List.take_append_getElem h]

theorem rfindCh_concat {c x : UInt8} (h : x ≠ c) (l : Bytes) : rfindCh c (l ++ [x]) = rfindCh c l := by
  induction l with
  | nil =>
    rw [List.nil_append, rfindCh, rfindCh]
    exact if_neg h
  | cons y l ih => rw [List.cons_append, rfindCh, rfindCh, ih]

/-- Inside the line, `rfind_ch` finds the last place; where there is none, it leaves the line. -/
theorem rfindFrom_eq {line : Bytes} (c : UInt8) {i : Nat} (h : i < line.length) :
    rfindFrom line c i = rfindCh c (line.take (i + 1)) := by
  induction i with
  | zero =>
    rw [rfindFrom, List.getElem?_eq_getElem h, take_succ_of_lt h, List.take_zero, List.nil_append, rfindCh,
      rfindCh]
    simp only [Option.some.injEq]
  | succ i ih =>
    rw [rfindFrom, List.getElem?_eq_getElem h, take_succ_of_lt h]
    simp only
    split
    · next hx =>
      have hlen : (line.take (i + 1)).length = i + 1 := List.length_take_of_le (Nat.le_of_lt h)
      rw [hx, rfindCh_last c _ List.not_mem_nil, hlen]
    · next hx => rw [rfindCh_concat hx, ih (Nat.lt_of_succ_lt h)]

/-- The last place of a character: it is there, and nowhere behind. -/
theorem rfindCh_eq_some_iff {c : UInt8} {b : Bytes} {j : Nat} :
    rfindCh c b = some j ↔ b[j]? = some c ∧ ∀ k, j < k → b[k]? ≠ some c := by
  induction b using List.reverseRecOn with
  | nil => simp [rfindCh]
  | append_singleton b x ih =>
    have hlast : (b ++ [x])[b.length]? = some x := by simp
    have hold : ∀ k, k < b.length → (b ++ [x])[k]? = b[k]? := fun k hk => List.getElem?_append_left hk
    have hnew : ∀ k, b.length < k → (b ++ [x])[k]? = none := fun k hk =>
      List.getElem?_eq_none (by rw [List.length_append]; exact hk)
    by_cases hx : x = c
    · subst hx
      rw [rfindCh_last x b List.not_mem_nil, Option.some.injEq]
      constructor
      · rintro rfl
        refine ⟨hlast, fun k hk => ?_⟩
        rw [hnew k hk]
        exact (Option.some_ne_none x).symm
      · rintro ⟨hj, hbehind⟩
        rcases Nat.lt_trichotomy b.length j with h | h | h
        · rw [hnew j h] at hj
          cases hj
        · exact h
        · exact absurd hlast (hbehind _ h)
    · rw [rfindCh_concat hx, ih]
      constructor
      · rintro ⟨hj, hbehind⟩
        have hlt : j < b.length := (List.getElem?_eq_some_iff.1 hj).1
        refine ⟨(hold j hlt).trans hj, fun k hk => ?_⟩
        rcases Nat.lt_trichotomy b.length k with h | h | h
        · rw [hnew k h]
          exact (Option.some_ne_none c).symm
        · rw [← h, hlast]
          exact fun heq => hx (Option.some.inj heq)
        · rw [hold k h]
          exact hbehind k hk
      · rintro ⟨hj, hbehind⟩
        rcases Nat.lt_trichotomy b.length j with h | h | h
        · rw [hnew j h] at hj
          cases hj
        · rw [← h, hlast] at hj
          exact absurd (Option.some.inj hj) hx
        · refine ⟨(hold j h).symm.trans hj, fun k hk => ?_⟩
          by_cases hlt : k < b.length
          · rw [← hold k hlt]
            exact hbehind k hk
          · rw [List.getElem?_eq_none (Nat.not_lt.1 hlt)]
            exact (Option.some_ne_none c).symm

/-- A text in which there is a `c` has a last one. -/
theorem exists_last {c : UInt8} {b : Bytes} (h : c ∈ b) : ∃ a v, b = a ++ c :: v ∧ c ∉ v := by
  obtain ⟨v, a, hrev, hv⟩ := List.eq_append_cons_of_mem (List.mem_reverse.2 h)
  refine ⟨a.reverse, v.reverse, ?_, fun hmem => hv (List.mem_reverse.1 hmem)⟩
  rw [← List.reverse_reverse b, hrev, List.reverse_append, List.reverse_cons, List.append_assoc]
  rfl

/-- The scan for the method stays inside the line, if the space is not at its start. -/
theorem scanMethod_eq {line : Bytes} {i : Nat} (h : i < line.length) :
    scanMethod line (i + 1) = some ((line.take (i + 1)).reverse.takeWhile isMethodChar) := by
  induction i with
  | zero =>
    rw [scanMethod, List.getElem?_eq_getElem h, take_succ_of_lt h]
    simp only [List.take_zero, List.nil_append, List.reverse_singleton, if_true]
    split
    · next hc => rw [List.takeWhile_cons_of_pos hc, List.takeWhile_nil]
    · next hc => rw [List.takeWhile_cons_of_neg hc]
  | succ i ih =>
    rw [scanMethod, List.getElem?_eq_getElem h, take_succ_of_lt h, List.reverse_append,
      List.reverse_singleton, List.singleton_append]
    simp only
    split
    · next hc =>
      rw [if_neg (Nat.succ_ne_zero i), ih (Nat.lt_of_succ_lt h), List.takeWhile_cons_of_pos hc]
      rfl
    · next hc => rw [List.takeWhile_cons_of_neg hc]

/-! ## The line -/

section Line

variable (env : HeadEnv) (p : ParserHead)

theorem drop_past (a : Bytes) (c : UInt8) (v : Bytes) : (a ++ c :: v).drop (a.length + 1) = v := by simp

/-- A search is inside the line exactly if it finds something, and then it finds what it is to find. -/
theorem rfindChecked_eq {line : Bytes} (c : UInt8) {start : Option Nat}
    (hstart : searchStart line start < line.length) :
    rfindChecked line c start = (lastPlace line c start).map some := by
  rw [rfindChecked, lastPlace, rfindFrom_eq c hstart]

/-- The places of the last two spaces. -/
theorem lastPlace_last {a v : Bytes} (hv : 32 ∉ v) :
    lastPlace (a ++ 32 :: v) 32 none = some a.length := by
  have htake : (a ++ 32 :: v).take (searchStart (a ++ 32 :: v) none + 1) = a ++ 32 :: v := by
    refine List.take_of_length_le ?_
    simp only [searchStart, Option.getD_none, List.length_append, List.length_cons]
    omega
  rw [lastPlace, htake, rfindCh_last 32 a hv]

theorem lastPlace_before {a : Bytes} (ha : a ≠ []) (v : Bytes) :
    lastPlace (a ++ 32 :: v) 32 (some (a.length - 1)) = rfindCh 32 a := by
  have hpos := List.length_pos_iff.2 ha
  have hstart : searchStart (a ++ 32 :: v) (some (a.length - 1)) + 1 = a.length := by
    rw [searchStart, Option.getD_some]
    omega
  rw [lastPlace, hstart, List.take_left]

theorem last_unique {a a' v v' : Bytes} (hv : 32 ∉ v) (hv' : 32 ∉ v')
    (h : a ++ 32 :: v = a' ++ 32 :: v') : a = a' ∧ v = v' := by
  have hlen := congrArg (rfindCh 32) h
  rw [rfindCh_last 32 a hv, rfindCh_last 32 a' hv', Option.some.injEq] at hlen
  obtain ⟨ha, hrest⟩ := List.append_inj h hlen
  exact ⟨ha, (List.cons.inj hrest).2⟩

theorem inLine_iff {a v : Bytes} (hv : 32 ∉ v) :
    InLine env (a ++ 32 :: v) ↔ parseHttpVer (env.trim v) = .unknown ∨ a = [] ∨
      ∃ m u, a = m ++ 32 :: u ∧ 32 ∉ u ∧ (m = [] → env.urlOk u = false) := by
  constructor
  · rintro ⟨a', v', heq, hv', h⟩
    obtain ⟨rfl, rfl⟩ := last_unique hv hv' heq
    exact h
  · intro h
    exact ⟨a, v, rfl, hv, h⟩

/-- With a version and two spaces, what counts is whether the first one is at the start. -/
theorem last_iff {m u v : Bytes} (hver : ¬ parseHttpVer (env.trim v) = .unknown) (ha : m ++ 32 :: u ≠ [])
    (hu : 32 ∉ u) :
    (parseHttpVer (env.trim v) = .unknown ∨ m ++ 32 :: u = [] ∨
      ∃ m' u', m ++ 32 :: u = m' ++ 32 :: u' ∧ 32 ∉ u' ∧ (m' = [] → env.urlOk u' = false)) ↔
      (m = [] → env.urlOk u = false) := by
  constructor
  · rintro (h | h | ⟨m', u', heq, hu', h⟩)
    · exact absurd h hver
    · exact absurd h ha
    · obtain ⟨rfl, rfl⟩ := last_unique hu hu' heq
      exact h
  · intro h
    exact .inr (.inr ⟨m, u, rfl, hu, h⟩)

/-- **A request line is read inside only, and as it is meant, exactly under `InLine`.** -/
theorem reqLineChecked_iff {line : Bytes} (hne : line ≠ []) :
    (∃ r, reqLineChecked env line p = some r ∧ reqLineMeant env line p = some r) ↔ InLine env line := by
  have hpos := List.length_pos_iff.2 hne
  have hend : searchStart line none < line.length := Nat.sub_lt hpos Nat.one_pos
  by_cases hspace : 32 ∈ line
  · obtain ⟨a, v, rfl, hv⟩ := exists_last hspace
    have hfirst : rfindChecked (a ++ 32 :: v) 32 none = some (some a.length) := by
      rw [rfindChecked_eq 32 hend, lastPlace_last hv]
      rfl
    have hchecked : reqLineChecked env (a ++ 32 :: v) p = verAndUri env (rfindChecked (a ++ 32 :: v) 32)
        (scanMethod (a ++ 32 :: v)) (a ++ 32 :: v) p a.length := by
      rw [reqLineChecked, reqLineOver, hfirst]
      rfl
    have hmeant : reqLineMeant env (a ++ 32 :: v) p
        = verAndUri env (fun start => some (lastPlace (a ++ 32 :: v) 32 start))
          (fun fsp => some (((a ++ 32 :: v).take fsp).reverse.takeWhile isMethodChar)) (a ++ 32 :: v) p
          a.length := by
      rw [reqLineMeant, reqLineOver, lastPlace_last hv]
      rfl
    have hdrop := drop_past a 32 v
    rw [inLine_iff env hv, hchecked, hmeant, verAndUri, verAndUri, hdrop]
    by_cases hver : parseHttpVer (env.trim v) = .unknown
    · have hunknown : (p.withVer env v).httpVer = .unknown := hver
      rw [if_pos hunknown, if_pos hunknown]
      exact iff_of_true ⟨_, rfl, rfl⟩ (.inl hver)
    · have hknown : ¬ (p.withVer env v).httpVer = .unknown := hver
      rw [if_neg hknown, if_neg hknown]
      by_cases ha : a = []
      · -- a space at the start: the second search starts over at the end, and finds it again
        subst ha
        rw [List.length_nil, if_pos rfl, hfirst, lastPlace_last hv]
        exact iff_of_true ⟨_, rfl, rfl⟩ (.inr (.inl rfl))
      · have hlen : a.length ≠ 0 := fun h => ha (List.length_eq_zero_iff.1 h)
        have hbefore : searchStart (a ++ 32 :: v) (some (a.length - 1)) < (a ++ 32 :: v).length := by
          rw [searchStart, Option.getD_some, List.length_append, List.length_cons]
          omega
        rw [if_neg hlen, rfindChecked_eq 32 hbefore, lastPlace_before ha]
        by_cases hmore : 32 ∈ a
        · obtain ⟨m, u, rfl, hu⟩ := exists_last hmore
          have hlt : ¬ (m ++ 32 :: u).length < m.length + 1 := by
            rw [List.length_append, List.length_cons]
            omega
          have huri : (((m ++ 32 :: u) ++ 32 :: v).take (m ++ 32 :: u).length).drop (m.length + 1) = u := by
            rw [List.take_left, drop_past]
          rw [rfindCh_last 32 m hu]
          simp only [Option.map_some, Option.bind_some, uriAndMethod, if_neg hlt, huri]
          rw [last_iff env hver ha hu]
          by_cases hok : env.urlOk u = false
          · rw [if_pos hok, if_pos hok]
            exact iff_of_true ⟨_, rfl, rfl⟩ fun _ => hok
          · rw [if_neg hok, if_neg hok]
            cases m with
            | nil => exact iff_of_false (fun ⟨r, hr, _⟩ => (by cases hr)) fun h => hok (h rfl)
            | cons c m =>
              have hin : m.length < ((c :: m) ++ 32 :: u ++ 32 :: v).length := by
                simp only [List.length_append, List.length_cons]
                omega
              rw [List.length_cons, scanMethod_eq hin]
              exact iff_of_true ⟨_, rfl, rfl⟩ fun h => absurd h (List.cons_ne_nil c m)
        · rw [rfindCh_none hmore]
          refine iff_of_false (fun ⟨r, hr, _⟩ => (by cases hr)) ?_
          rintro (h | h | ⟨m, u, rfl, -⟩)
          · exact hver h
          · exact ha h
          · exact hmore (by simp)
  · constructor
    · rintro ⟨r, hr, -⟩
      have hnone : rfindChecked line 32 none = none := by
        rw [rfindChecked_eq 32 hend, lastPlace, rfindCh_none fun hmem => hspace (List.mem_of_mem_take hmem)]
        rfl
      rw [reqLineChecked, reqLineOver, hnone] at hr
      cases hr
    · rintro ⟨a, v, rfl, -⟩
      exact absurd (by simp) hspace

/-- **What is read inside only does not depend on what stands before the line.** -/
theorem parseReqLine_of_inLine {line : Bytes} (h : InLine env line) (before : Bytes) :
    reqLineMeant env line p = some (parseReqLine env before line p) := by
  obtain ⟨a, v, rfl, hv, hcase⟩ := h
  have hne : a ++ 32 :: v ≠ [] := by simp
  have htext : before ++ (a ++ 32 :: v) = (before ++ a) ++ 32 :: v := (List.append_assoc ..).symm
  have hbase : ¬ (before ++ a).length + 1 = before.length := by
    rw [List.length_append]
    omega
  rw [reqLineMeant, reqLineOver, lastPlace_last hv, Option.bind_some]
  simp only [verAndUri, drop_past]
  unfold parseReqLine
  rw [if_neg hne]
  simp only [htext, rfindCh_last 32 (before ++ a) hv, if_neg hbase, drop_past]
  by_cases hunknown : parseHttpVer (env.trim v) = .unknown
  · have hp : (p.withVer env v).httpVer = .unknown := hunknown
    rw [if_pos hp, if_pos hunknown]
    rfl
  · have hp : ¬ (p.withVer env v).httpVer = .unknown := hunknown
    rw [if_neg hp, if_neg hunknown]
    rcases hcase with hcase | rfl | ⟨m, u, rfl, hu, hmethod⟩
    · exact absurd hcase hunknown
    · have hstart : (before ++ []).length = before.length := by rw [List.append_nil]
      rw [List.length_nil, if_pos rfl, lastPlace_last hv, if_pos hstart]
      rfl
    · have hlen : ¬ (m ++ 32 :: u).length = 0 := by simp
      have hmid : ¬ (before ++ (m ++ 32 :: u)).length = before.length := by simp
      have hbefore : before ++ (m ++ 32 :: u) = (before ++ m) ++ 32 :: u := (List.append_assoc ..).symm
      have hfsp : ¬ (before ++ m).length + 1 = before.length := by
        rw [List.length_append]
        omega
      have hlt : ¬ (m ++ 32 :: u).length < m.length + 1 := by
        rw [List.length_append, List.length_cons]
        omega
      rw [if_neg hlen, lastPlace_before (List.append_ne_nil_of_right_ne_nil m (List.cons_ne_nil 32 u)),
        if_neg hmid, rfindCh_last 32 m hu]
      simp only [Option.bind_some, uriAndMethod, if_neg hlt, List.take_left, drop_past, hbefore,
        rfindCh_last 32 (before ++ m) hu, if_neg hfsp]
      by_cases hok : env.urlOk u = false
      · rw [if_pos hok, if_pos hok]
        rfl
      · have hm : m ≠ [] := fun h => hok (hmethod h)
        have hpos := List.length_pos_iff.2 hm
        have hinside : before.length < (before ++ m).length := by
          rw [List.length_append]
          omega
        have hmethodText : (m ++ 32 :: u ++ 32 :: v).take m.length = m := by
          rw [List.append_assoc, List.take_left]
        have hbeforeText : ((before ++ m) ++ 32 :: u ++ 32 :: v).take (before ++ m).length = before ++ m := by
          rw [List.append_assoc, List.take_left]
        have hno : ¬ ((before ++ m).length ≤ before.length ∧ (before ++ m).all isMethodChar = true) :=
          fun h => absurd h.1 (Nat.not_le.2 hinside)
        rw [if_neg hok, if_neg hok]
        simp only [hmethodText, hbeforeText, if_neg hno, if_pos hinside, List.drop_left, Option.map_some]
        rfl

/-- `GET / HTTP/1.1` is read inside only. -/
theorem reqLineChecked_get :
    ∃ r, reqLineChecked ⟨id, fun _ => true, []⟩ (bytes "GET / HTTP/1.1") .fresh = some r ∧
      reqLineMeant ⟨id, fun _ => true, []⟩ (bytes "GET / HTTP/1.1") .fresh = some r := by
  refine (reqLineChecked_iff ⟨id, fun _ => true, []⟩ .fresh (by decide)).2 ?_
  refine ⟨bytes "GET /", bytes "HTTP/1.1", by decide, by decide, .inr (.inr ?_)⟩
  exact ⟨bytes "GET", bytes "/", by decide, by decide, fun h => absurd h (by decide)⟩

/-- A line without a space. -/
theorem reqLineChecked_noSpace :
    ¬ ∀ (env : HeadEnv) (line : Bytes) (p : ParserHead), line ≠ [] →
      ∃ r, reqLineChecked env line p = some r ∧ reqLineMeant env line p = some r := by
  intro h
  obtain ⟨r, hr, -⟩ := h ⟨id, fun _ => true, []⟩ [97] .fresh (by decide)
  cases hr

end Line

end LibEvmvc
