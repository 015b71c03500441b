import LibEvmvc.Http.Url

set_option autoImplicit false

/-! # Query parameters

`request_t` splits the query of its URI. In each round it looks for the next `&` and for the next `=`,
both from where it is to the end of the query; an `=` behind the `&` belongs to a later parameter. The
`url` is moved into the request before the query is taken from it, but it has a copy constructor and
none that moves.

What is given to `data_substring` is kept as a range, so that it can be compared with the text. -/

namespace LibEvmvc

/-- The ranges of a parameter; where the code has `""` there is none. -/
structure QryPiece where
  name : Option (Nat × Nat)
  value : Option (Nat × Nat)
  deriving DecidableEq, Repr

/-- The text of a range. -/
def rangeText (qry : Bytes) : Option (Nat × Nat) → Bytes
  | none => []
  | some r => dataSubstring qry r.1 r.2

/-- The parameter that is added to `_qry_params`. -/
def QryPiece.param (qry : Bytes) (p : QryPiece) : Bytes × Bytes :=
  (rangeText qry p.name, rangeText qry p.value)

/-- The parameter between `it_idx` and `nit_idx`. -/
def qryPiece (itIdx nitIdx : Nat) (sepIdx : Option Nat) : QryPiece :=
  match sepIdx with
  | some sepIdx =>
    if sepIdx < nitIdx then
      { name := if sepIdx = itIdx then none else some (itIdx, sepIdx)
        value := some (sepIdx + 1, nitIdx) }
    else { name := some (itIdx, nitIdx), value := none }
  | none => { name := some (itIdx, nitIdx), value := none }

/-- The loop from `it_idx` on; `none` if the rounds do not suffice. -/
def qryLoop (qry : Bytes) : Nat → Nat → Option (List QryPiece)
  | 0, _ => none
  | rounds + 1, itIdx =>
    let nitIdx := (findCh qry 38 itIdx).getD qry.length
    let piece := qryPiece itIdx nitIdx (findCh qry 61 itIdx)
    if nitIdx + 1 < qry.length then (qryLoop qry rounds (nitIdx + 1)).map (piece :: ·)
    else some [piece]

/-- What the constructor makes of a query; there are no more rounds than characters. -/
def qryPieces (qry : Bytes) : Option (List QryPiece) :=
  if qry = [] then some [] else qryLoop qry qry.length 0

/-- `_qry_params` of a request for a URI. -/
def qryParams (uri : Url) : Option (List (Bytes × Bytes)) :=
  (qryPieces uri.query).map fun ps => ps.map (QryPiece.param uri.query)

/-! ## Any query -/

/-- The range is one of the text. -/
def RangeInside (qry : Bytes) (r : Nat × Nat) : Prop := r.1 ≤ r.2 ∧ r.2 ≤ qry.length

/-- The ranges of a parameter are ranges of the text. -/
def QryPiece.Inside (qry : Bytes) (p : QryPiece) : Prop :=
  (∀ r ∈ p.name, RangeInside qry r) ∧ ∀ r ∈ p.value, RangeInside qry r

section Any

variable {qry : Bytes} {itIdx : Nat}

/-- The end of a round lies between where it began and the end of the query. -/
theorem nitIdx_bounds (h : itIdx ≤ qry.length) :
    itIdx ≤ (findCh qry 38 itIdx).getD qry.length ∧ (findCh qry 38 itIdx).getD qry.length ≤ qry.length := by
  cases hfind : findCh qry 38 itIdx with
  | none => exact ⟨h, Nat.le_refl _⟩
  | some i =>
    obtain ⟨hle, hlt⟩ := findCh_lt hfind
    exact ⟨hle, Nat.le_of_lt hlt⟩

theorem qryPiece_inside {nitIdx : Nat} (hit : itIdx ≤ nitIdx) (hnit : nitIdx ≤ qry.length) :
    (qryPiece itIdx nitIdx (findCh qry 61 itIdx)).Inside qry := by
  have hwhole : QryPiece.Inside qry { name := some (itIdx, nitIdx), value := none } := by
    refine ⟨fun r hr => ?_, fun r hr => absurd hr (Option.not_mem_none r)⟩
    obtain rfl := Option.mem_some.1 hr
    exact ⟨hit, hnit⟩
  unfold qryPiece
  cases hfind : findCh qry 61 itIdx with
  | none => exact hwhole
  | some sepIdx =>
    obtain ⟨hle, -⟩ := findCh_lt hfind
    by_cases hsep : sepIdx < nitIdx
    · simp only [if_pos hsep]
      constructor
      · intro r hr
        split at hr
        · exact absurd hr (Option.not_mem_none r)
        · obtain rfl := Option.mem_some.1 hr
          exact ⟨hle, Nat.le_trans (Nat.le_of_lt hsep) hnit⟩
      · intro r hr
        obtain rfl := Option.mem_some.1 hr
        exact ⟨hsep, hnit⟩
    · simp only [if_neg hsep]
      exact hwhole

/-- Every round gets past a character, so the loop ends. -/
theorem qryLoop_ends (rounds : Nat) (hlt : itIdx < qry.length) (hrounds : qry.length ≤ itIdx + rounds) :
    ∃ ps, qryLoop qry rounds itIdx = some ps ∧ ∀ p ∈ ps, p.Inside qry := by
  induction rounds generalizing itIdx with
  | zero => omega
  | succ rounds ih =>
    obtain ⟨hit, hnit⟩ := nitIdx_bounds (Nat.le_of_lt hlt)
    have hpiece := qryPiece_inside hit hnit
    rw [qryLoop]
    by_cases hmore : (findCh qry 38 itIdx).getD qry.length + 1 < qry.length
    · obtain ⟨ps, hps, hinside⟩ := ih hmore (by omega)
      refine ⟨_ :: ps, ?_, List.forall_mem_cons.2 ⟨hpiece, hinside⟩⟩
      simp only [if_pos hmore, hps, Option.map_some]
    · refine ⟨[_], ?_, List.forall_mem_singleton.2 hpiece⟩
      simp only [if_neg hmore]

/-- Whatever the query, the loop ends, and every substring it takes is one of the query. -/
theorem qryPieces_inside (qry : Bytes) : ∃ ps, qryPieces qry = some ps ∧ ∀ p ∈ ps, p.Inside qry := by
  unfold qryPieces
  by_cases hempty : qry = []
  · rw [if_pos hempty]
    exact ⟨[], rfl, fun p hp => absurd hp List.not_mem_nil⟩
  · rw [if_neg hempty]
    exact qryLoop_ends qry.length (List.length_pos_iff.2 hempty) (by omega)

end Any

/-! ## A query made of parameters -/

/-- A parameter, written as `k=v`. -/
def renderParam (p : Bytes × Bytes) : Bytes := p.1 ++ 61 :: p.2

/-- Parameters, joined by `&`. -/
def renderQuery (ps : List (Bytes × Bytes)) : Bytes := [38].intercalate (ps.map renderParam)

/-- The name has no `&` and no `=`, the value no `&`. -/
def PlainParam (p : Bytes × Bytes) : Prop := 38 ∉ p.1 ∧ 61 ∉ p.1 ∧ 38 ∉ p.2

section Rendered

variable {p : Bytes × Bytes} {pre post : Bytes}

theorem length_snoc (b : Bytes) (c : UInt8) : b.length + 1 = (b ++ [c]).length := by simp

theorem renderQuery_cons (p q : Bytes × Bytes) (ps : List (Bytes × Bytes)) :
    renderQuery (p :: q :: ps) = renderParam p ++ 38 :: renderQuery (q :: ps) := by
  unfold renderQuery
  rw [List.map_cons, List.map_cons, List.intercalate_cons_cons, List.append_assoc]
  rfl

/-- There are no more parameters than characters. -/
theorem length_lt_renderQuery (p : Bytes × Bytes) (ps : List (Bytes × Bytes)) :
    ps.length < (renderQuery (p :: ps)).length := by
  induction ps generalizing p with
  | nil =>
    have hsingle : renderQuery [p] = renderParam p := by simp [renderQuery]
    rw [hsingle, renderParam, List.length_append, List.length_cons, List.length_nil]
    omega
  | cons q ps ih =>
    have hrest := ih q
    rw [renderQuery_cons, List.length_append, List.length_cons, List.length_cons]
    omega

theorem PlainParam.noAmp (h : PlainParam p) : 38 ∉ renderParam p := by
  unfold renderParam
  rw [List.mem_append, List.mem_cons]
  rintro (hname | heq | hvalue)
  · exact h.1 hname
  · exact absurd heq (by decide)
  · exact h.2.2 hvalue

/-- The first `=` of a parameter is the one behind its name. -/
theorem findCh_eq (h : PlainParam p) (pre post : Bytes) :
    findCh (pre ++ (renderParam p ++ post)) 61 pre.length = some (pre ++ p.1).length := by
  have hassoc : pre ++ (renderParam p ++ post) = pre ++ (p.1 ++ 61 :: (p.2 ++ post)) := by
    simp [renderParam]
  rw [hassoc]
  exact findCh_some pre p.1 (p.2 ++ post) 61 h.2.1

/-- A round that begins at a parameter and ends behind it adds this parameter. -/
theorem qryPiece_param (h : PlainParam p) (pre post : Bytes) :
    (qryPiece pre.length (pre ++ renderParam p).length
        (findCh (pre ++ (renderParam p ++ post)) 61 pre.length)).param
      (pre ++ (renderParam p ++ post)) = p := by
  have hsep : (pre ++ p.1).length < (pre ++ renderParam p).length := by
    simp only [renderParam, List.length_append, List.length_cons]
    omega
  have hname : pre ++ (renderParam p ++ post) = pre ++ (p.1 ++ (61 :: p.2 ++ post)) := by
    simp [renderParam]
  have hvalue : pre ++ (renderParam p ++ post) = (pre ++ p.1 ++ [61]) ++ (p.2 ++ post) := by
    simp [renderParam]
  have hend : (pre ++ renderParam p).length = (pre ++ p.1 ++ [61] ++ p.2).length := by
    simp [renderParam]
  have hstart : (pre ++ p.1).length + 1 = (pre ++ p.1 ++ [61]).length := length_snoc _ _
  rw [findCh_eq h]
  simp only [qryPiece, if_pos hsep, QryPiece.param]
  refine Prod.ext ?_ ?_
  · show rangeText _ (if (pre ++ p.1).length = pre.length then none else _) = p.1
    split
    · next hlen =>
      rw [List.length_append] at hlen
      exact (List.length_eq_zero_iff.1 (by omega)).symm
    · rw [rangeText, hname]
      exact dataSubstring_mid pre p.1 _
  · show dataSubstring _ ((pre ++ p.1).length + 1) (pre ++ renderParam p).length = p.2
    rw [hvalue, hend, hstart]
    exact dataSubstring_mid _ p.2 post

/-- The loop from the first of the parameters that are left. -/
theorem qryLoop_render {ps : List (Bytes × Bytes)} (hp : PlainParam p) (hps : ∀ q ∈ ps, PlainParam q)
    (pre : Bytes) {rounds : Nat} (hrounds : ps.length < rounds) :
    (qryLoop (pre ++ renderQuery (p :: ps)) rounds pre.length).map
        (List.map (QryPiece.param (pre ++ renderQuery (p :: ps)))) = some (p :: ps) := by
  induction ps generalizing p pre rounds with
  | nil =>
    obtain ⟨rounds, rfl⟩ : ∃ n, rounds = n + 1 := ⟨rounds - 1, by omega⟩
    have hquery : pre ++ renderQuery [p] = pre ++ (renderParam p ++ []) := by
      simp [renderQuery]
    have hnit : (findCh (pre ++ (renderParam p ++ [])) 38 pre.length).getD
        (pre ++ (renderParam p ++ [])).length = (pre ++ renderParam p).length := by
      rw [List.append_nil, findCh_none hp.noAmp, Option.getD_none]
    have hlast : ¬ (pre ++ renderParam p).length + 1 < (pre ++ (renderParam p ++ [])).length := by
      rw [List.append_nil]
      omega
    rw [hquery, qryLoop]
    simp only [hnit, if_neg hlast, Option.map_some, List.map_cons, List.map_nil, qryPiece_param hp]
  | cons q ps ih =>
    obtain ⟨rounds, rfl⟩ : ∃ n, rounds = n + 1 := ⟨rounds - 1, by omega⟩
    rw [List.length_cons] at hrounds
    rw [List.forall_mem_cons] at hps
    have hquery : pre ++ renderQuery (p :: q :: ps)
        = pre ++ (renderParam p ++ 38 :: renderQuery (q :: ps)) := by
      rw [renderQuery_cons]
    have hnext : pre ++ (renderParam p ++ 38 :: renderQuery (q :: ps))
        = (pre ++ renderParam p ++ [38]) ++ renderQuery (q :: ps) := by simp
    have hstart : (pre ++ renderParam p).length + 1 = (pre ++ renderParam p ++ [38]).length :=
      length_snoc _ _
    have hnit : (findCh (pre ++ (renderParam p ++ 38 :: renderQuery (q :: ps))) 38 pre.length).getD
        (pre ++ (renderParam p ++ 38 :: renderQuery (q :: ps))).length
        = (pre ++ renderParam p).length := by
      rw [findCh_some _ _ _ _ hp.noAmp, Option.getD_some]
    have hmore : (pre ++ renderParam p).length + 1
        < (pre ++ (renderParam p ++ 38 :: renderQuery (q :: ps))).length := by
      have hpos := length_lt_renderQuery q ps
      simp only [List.length_append, List.length_cons]
      omega
    have htail := ih hps.1 hps.2 (pre ++ renderParam p ++ [38])
      (by omega : ps.length < rounds)
    obtain ⟨pieces, hpieces, hparams⟩ := Option.map_eq_some_iff.1 htail
    rw [hquery, qryLoop]
    simp only [hnit, if_pos hmore]
    rw [hstart, hnext, hpieces, Option.map_some, Option.map_some, List.map_cons, hparams, ← hnext,
      qryPiece_param hp]

end Rendered

/-- A query of parameters is split into them. For any query the loop ends, and every substring that is
    taken lies in the query. -/
theorem qryParams_render {uri : Url} {ps : List (Bytes × Bytes)} (hne : ps ≠ [])
    (hps : ∀ p ∈ ps, PlainParam p) (huri : uri.query = renderQuery ps) :
    qryParams uri = some ps ∧ ∀ qry, ∃ pieces, qryPieces qry = some pieces ∧
      ∀ p ∈ pieces, p.Inside qry := by
  refine ⟨?_, qryPieces_inside⟩
  obtain ⟨p, ps, rfl⟩ := List.exists_cons_of_ne_nil hne
  rw [List.forall_mem_cons] at hps
  have hlen := length_lt_renderQuery p ps
  have hquery : renderQuery (p :: ps) ≠ [] := by
    rw [← List.length_pos_iff]
    omega
  have hloop := qryLoop_render hps.1 hps.2 [] hlen
  rw [qryParams, huri, qryPieces, if_neg hquery]
  exact hloop

theorem qryParams_render_form :
    qryParams { query := bytes "a=&=b=c" } = some [(bytes "a", []), ([], bytes "b=c")] ∧
      ∀ qry, ∃ pieces, qryPieces qry = some pieces ∧ ∀ p ∈ pieces, p.Inside qry :=
  qryParams_render (by simp) (by simp [PlainParam, bytes]) (by decide)

end LibEvmvc
