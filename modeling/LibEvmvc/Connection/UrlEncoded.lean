import LibEvmvc.Connection.BodyParser
import LibEvmvc.Foundation.Percent
import LibEvmvc.Foundation.Segments

set_option autoImplicit false

/-! # Urlencoded bodies

`parse_form_urlenc` goes over the body once, with a flag that says whether it is in a name or in a value.
An `=` sets the flag and is dropped, also inside a value. An `&` adds a parameter, also behind an empty
piece; and what is behind the last `&` is a parameter unless name and value are empty, also if there is a
lone `=`.

`unescape` makes a C string of what it has decoded, which ends at the first NUL. -/

namespace LibEvmvc

open BodyParser (urlencLoop urlencParams)

/-- `evmvc::unescape`; `decodeUri` is `evhttp_decode_uri`. -/
def unescape (decodeUri : Bytes → Bytes) (s : Bytes) : Bytes := cstr (decodeUri (cstr s))

/-- `evhttp_decode_uri` decodes every `%` with two digits, and where there is no `+` it leaves the other
    bytes alone. -/
def DecodesPercent (decodeUri : Bytes → Bytes) : Prop :=
  ∀ s, 0 ∉ s → 43 ∉ s → decodeUri s = percentDecode s

/-- `md::replace_substring(sbody, "+", " ")`. -/
def plusToSpace (s : Bytes) : Bytes := s.map fun c => if c = 43 then 32 else c

/-- The piece up to its first `=`. -/
def pieceName (piece : Bytes) : Bytes := piece.takeWhile (· ≠ 61)

/-- What is behind the first `=` of the piece. -/
def pieceValue (piece : Bytes) : Bytes := (piece.dropWhile (· ≠ 61)).drop 1

/-- The parameter a piece stands for. -/
def pieceParam (piece : Bytes) : Bytes × Bytes :=
  (percentDecode (plusToSpace (pieceName piece)), percentDecode (plusToSpace (pieceValue piece)))

/-- The parameters of a form: its pieces between `&`, without the empty ones. -/
def formParams (body : Bytes) : List (Bytes × Bytes) := (segments 38 body).map pieceParam

/-- The parameter the loop makes of a piece. -/
def loopParam (unescape : Bytes → Bytes) (piece : Bytes) : Bytes × Bytes :=
  (unescape (pieceName piece), unescape ((pieceValue piece).filter (· ≠ 61)))

/-- The parameters the loop makes of the pieces. -/
def loopParams (unescape : Bytes → Bytes) : List Bytes → List (Bytes × Bytes)
  | [] => []
  | [x] => if pieceName x = [] ∧ (pieceValue x).filter (· ≠ 61) = [] then [] else [loopParam unescape x]
  | x :: y :: ps => loopParam unescape x :: loopParams unescape (y :: ps)

/-- A piece the loop makes the right parameter of: there is no second `=`, and no NUL is decoded. -/
def GoodPiece (piece : Bytes) : Prop :=
  61 ∉ pieceValue piece ∧ 0 ∉ (pieceParam piece).1 ∧ 0 ∉ (pieceParam piece).2

/-- All pieces are good, only the last one is empty, and it is no lone `=`. Or an empty piece has only lone
    `=` behind it: the parameter it should not have made stands for the one that is missing. -/
def GoodPieces : List Bytes → Prop
  | [] => True
  | [x] => x = [] ∨ (GoodPiece x ∧ x ≠ [61])
  | x :: y :: ps =>
    (x ≠ [] ∧ GoodPiece x ∧ GoodPieces (y :: ps)) ∨ (x = [] ∧ ∀ z ∈ y :: ps, z = [61])

/-! ## The loop -/

section Loop

variable {un : Bytes → Bytes}

/-- In a value, all but the `=` is kept. -/
theorem urlencLoop_value {w : Bytes} (hw : 38 ∉ w) (s k v : Bytes) :
    urlencLoop un (w ++ s) false k v = urlencLoop un s false k (v ++ w.filter (· ≠ 61)) := by
  induction w generalizing v with
  | nil => rw [List.nil_append, List.filter_nil, List.append_nil]
  | cons c w ih =>
    rw [List.mem_cons, not_or] at hw
    rw [List.cons_append, urlencLoop]
    by_cases hc : c = 61
    · rw [if_pos hc, ih hw.2, List.filter_cons_of_neg (by simp [hc])]
    · rw [if_neg hc, if_neg (Ne.symm hw.1), if_neg Bool.false_ne_true, ih hw.2,
        List.filter_cons_of_pos (by simp [hc]), List.append_assoc]
      rfl

theorem urlencLoop_name {w : Bytes} (hw : 38 ∉ w) (heq : 61 ∉ w) (s k v : Bytes) :
    urlencLoop un (w ++ s) true k v = urlencLoop un s true (k ++ w) v := by
  induction w generalizing k with
  | nil => rw [List.nil_append, List.append_nil]
  | cons c w ih =>
    rw [List.mem_cons, not_or] at hw heq
    rw [List.cons_append, urlencLoop, if_neg (Ne.symm heq.1), if_neg (Ne.symm hw.1), if_pos rfl,
      ih hw.2 heq.2, List.append_assoc]
    rfl

theorem piece_of_not_mem {x : Bytes} (h : 61 ∉ x) : pieceName x = x ∧ pieceValue x = [] := by
  have hall : ∀ c ∈ x, decide (c ≠ 61) = true := fun c hc => decide_eq_true fun he => h (he ▸ hc)
  constructor
  · exact List.takeWhile_eq_self_iff.2 hall
  · rw [pieceValue, List.dropWhile_eq_nil_iff.2 hall]
    rfl

theorem piece_append {n v : Bytes} (h : 61 ∉ n) :
    pieceName (n ++ 61 :: v) = n ∧ pieceValue (n ++ 61 :: v) = v := by
  have hall : ∀ c ∈ n, decide (c ≠ 61) = true := fun c hc => decide_eq_true fun he => h (he ▸ hc)
  constructor
  · rw [pieceName, List.takeWhile_append_of_pos hall]
    simp
  · rw [pieceValue, List.dropWhile_append_of_pos hall]
    simp

/-- The loop has the piece up to its end in its two strings. -/
theorem urlencLoop_piece {x : Bytes} (hx : 38 ∉ x) (s : Bytes) :
    ∃ tkfv, urlencLoop un (x ++ s) true [] []
      = urlencLoop un s tkfv (pieceName x) ((pieceValue x).filter (· ≠ 61)) := by
  by_cases heq : 61 ∈ x
  · obtain ⟨n, v, rfl, hn⟩ := List.eq_append_cons_of_mem heq
    rw [List.mem_append, List.mem_cons, not_or, not_or] at hx
    obtain ⟨hname, hvalue⟩ := piece_append (v := v) hn
    refine ⟨false, ?_⟩
    rw [hname, hvalue, List.append_assoc, urlencLoop_name hx.1 hn, List.cons_append, urlencLoop, if_pos rfl,
      urlencLoop_value hx.2.2, List.nil_append]
    rfl
  · obtain ⟨hname, hvalue⟩ := piece_of_not_mem heq
    refine ⟨true, ?_⟩
    rw [hname, hvalue, urlencLoop_name hx heq]
    rfl

/-- The loop makes a parameter of each piece. -/
theorem urlencLoop_eq (s : Bytes) :
    urlencLoop un s true [] [] = loopParams un (s.splitOn 38) := by
  induction hlen : s.length using Nat.strong_induction_on generalizing s with
  | _ n ih =>
    subst hlen
    by_cases hamp : 38 ∈ s
    · obtain ⟨x, rest, rfl, hx⟩ := List.eq_append_cons_of_mem hamp
      obtain ⟨tkfv, hpiece⟩ := @urlencLoop_piece un x hx (38 :: rest)
      have hlt : rest.length < (x ++ 38 :: rest).length := by
        rw [List.length_append, List.length_cons]
        omega
      rw [hpiece, urlencLoop, if_neg (by decide), if_pos rfl, ih rest.length hlt rest rfl,
        List.splitOn_append_cons_self_of_not_mem hx]
      obtain ⟨y, ps, hsplit⟩ := List.exists_cons_of_ne_nil (List.splitOn_ne_nil 38 rest)
      rw [hsplit]
      rfl
    · obtain ⟨tkfv, hpiece⟩ := @urlencLoop_piece un _ hamp []
      rw [List.append_nil] at hpiece
      rw [hpiece, List.splitOn_eq_singleton hamp]
      rfl

end Loop

/-! ## What it makes of the pieces -/

section Plus

theorem plus_eq_iff {c d : UInt8} (h43 : d ≠ 43) (h32 : d ≠ 32) :
    (if c = 43 then 32 else c) = d ↔ c = d := by
  constructor
  · intro h
    split at h
    · exact absurd h.symm h32
    · exact h
  · rintro rfl
    exact if_neg h43

theorem mem_plusToSpace {s : Bytes} {d : UInt8} (h43 : d ≠ 43) (h32 : d ≠ 32) :
    d ∈ plusToSpace s ↔ d ∈ s := by
  rw [plusToSpace, List.mem_map]
  constructor
  · rintro ⟨c, hc, h⟩
    rwa [← (plus_eq_iff h43 h32).1 h]
  · intro h
    exact ⟨d, h, if_neg h43⟩

theorem plus_not_mem (s : Bytes) : 43 ∉ plusToSpace s := by
  intro h
  obtain ⟨c, -, hc⟩ := List.mem_map.1 h
  split at hc
  · exact absurd hc (by decide)
  · next hne => exact hne hc

/-- The separators are found where they were. -/
theorem splitOn_plusToSpace (s : Bytes) :
    (plusToSpace s).splitOn 38 = (s.splitOn 38).map plusToSpace := by
  induction hlen : s.length using Nat.strong_induction_on generalizing s with
  | _ n ih =>
    subst hlen
    by_cases hamp : 38 ∈ s
    · obtain ⟨x, rest, rfl, hx⟩ := List.eq_append_cons_of_mem hamp
      have hlt : rest.length < (x ++ 38 :: rest).length := by
        rw [List.length_append, List.length_cons]
        omega
      have htext : plusToSpace (x ++ 38 :: rest) = plusToSpace x ++ 38 :: plusToSpace rest := by
        simp [plusToSpace]
      rw [htext, List.splitOn_append_cons_self_of_not_mem hx, List.map_cons, ← ih rest.length hlt rest rfl]
      exact List.splitOn_append_cons_self_of_not_mem
        (fun h => hx ((mem_plusToSpace (by decide) (by decide)).1 h)) _
    · rw [List.splitOn_eq_singleton hamp, List.splitOn_eq_singleton
        (fun h => hamp ((mem_plusToSpace (by decide) (by decide)).1 h))]
      rfl

theorem piece_plusToSpace (x : Bytes) :
    pieceName (plusToSpace x) = plusToSpace (pieceName x) ∧
      pieceValue (plusToSpace x) = plusToSpace (pieceValue x) := by
  have hnot : ∀ n : Bytes, 61 ∉ n → 61 ∉ plusToSpace n := fun n h hmem =>
    h ((mem_plusToSpace (by decide) (by decide)).1 hmem)
  by_cases heq : 61 ∈ x
  · obtain ⟨n, v, rfl, hn⟩ := List.eq_append_cons_of_mem heq
    have htext : plusToSpace (n ++ 61 :: v) = plusToSpace n ++ 61 :: plusToSpace v := by
      simp [plusToSpace]
    obtain ⟨hname, hvalue⟩ := piece_append (v := v) hn
    rw [htext, hname, hvalue]
    exact piece_append (hnot n hn)
  · obtain ⟨hname, hvalue⟩ := piece_of_not_mem heq
    rw [hname, hvalue]
    exact piece_of_not_mem (hnot x heq)

end Plus

section Params

variable {decodeUri : Bytes → Bytes}

theorem cstr_eq_iff {s : Bytes} : cstr s = s ↔ 0 ∉ s :=
  ⟨fun h => h ▸ not_mem_cstr s, cstr_of_noNul⟩

theorem unescape_eq (hdec : DecodesPercent decodeUri) {s : Bytes} (hnul : 0 ∉ s) (hplus : 43 ∉ s) :
    unescape decodeUri s = cstr (percentDecode s) := by
  rw [unescape, cstr_of_noNul hnul, hdec s hnul hplus]

theorem mem_of_mem_piece {x : Bytes} {c : UInt8} (h : c ∈ pieceName x ∨ c ∈ pieceValue x) : c ∈ x := by
  rcases h with h | h
  · exact (List.takeWhile_prefix _).subset h
  · exact (List.dropWhile_suffix _).subset (List.mem_of_mem_drop h)

/-- The parameter the loop makes of a piece of the body. -/
theorem loopParam_eq (hdec : DecodesPercent decodeUri) {x : Bytes} (hnul : 0 ∉ x) :
    loopParam (unescape decodeUri) (plusToSpace x) =
      (cstr (percentDecode (plusToSpace (pieceName x))),
        cstr (percentDecode ((plusToSpace (pieceValue x)).filter (· ≠ 61)))) := by
  have hzero : ∀ s : Bytes, 0 ∉ s → 0 ∉ plusToSpace s := fun s h hmem =>
    h ((mem_plusToSpace (by decide) (by decide)).1 hmem)
  have hname := hzero (pieceName x) fun h => hnul (mem_of_mem_piece (.inl h))
  have hvalue := hzero (pieceValue x) fun h => hnul (mem_of_mem_piece (.inr h))
  rw [loopParam, (piece_plusToSpace x).1, (piece_plusToSpace x).2,
    unescape_eq hdec hname (plus_not_mem _),
    unescape_eq hdec (fun h => hvalue (List.mem_of_mem_filter h))
      (fun h => plus_not_mem _ (List.mem_of_mem_filter h))]

/-- Of a value that has an `=` the loop decodes less. -/
theorem cstr_filter_eq_iff (v : Bytes) :
    cstr (percentDecode (v.filter (· ≠ 61))) = percentDecode v ↔ 61 ∉ v ∧ 0 ∉ percentDecode v := by
  constructor
  · intro h
    have heq : 61 ∉ v := by
      intro hmem
      have hshort := length_percentDecode_filter (d := 61) (by decide) (by decide) v
      have hcut := (List.takeWhile_prefix (· ≠ 0) (l := percentDecode (v.filter (· ≠ 61)))).length_le
      have hpos := List.count_pos_iff.2 hmem
      have hlen := congrArg List.length h
      rw [cstr] at hlen
      omega
    have hsame : v.filter (· ≠ 61) = v :=
      List.filter_eq_self.2 fun c hc => decide_eq_true fun he => heq (he ▸ hc)
    rw [hsame] at h
    exact ⟨heq, cstr_eq_iff.1 h⟩
  · rintro ⟨heq, hnul⟩
    have hsame : v.filter (· ≠ 61) = v :=
      List.filter_eq_self.2 fun c hc => decide_eq_true fun he => heq (he ▸ hc)
    rw [hsame]
    exact cstr_eq_iff.2 hnul

/-- A piece is made the right parameter of exactly if it is good. -/
theorem loopParam_eq_iff (hdec : DecodesPercent decodeUri) {x : Bytes} (hnul : 0 ∉ x) :
    loopParam (unescape decodeUri) (plusToSpace x) = pieceParam x ↔ GoodPiece x := by
  have hmem : 61 ∈ plusToSpace (pieceValue x) ↔ 61 ∈ pieceValue x :=
    mem_plusToSpace (by decide) (by decide)
  rw [loopParam_eq hdec hnul, pieceParam, Prod.mk.injEq, cstr_eq_iff, cstr_filter_eq_iff, hmem, GoodPiece,
    pieceParam, and_left_comm]

/-- Name and value are empty if there is nothing but `=`. -/
theorem piece_empty_iff (x : Bytes) :
    pieceName x = [] ∧ (pieceValue x).filter (· ≠ 61) = [] ↔ ∀ c ∈ x, c = 61 := by
  have hfilter : ∀ v : Bytes, v.filter (· ≠ 61) = [] ↔ ∀ c ∈ v, c = 61 := by
    intro v
    rw [List.filter_eq_nil_iff]
    simp
  rw [hfilter]
  by_cases heq : 61 ∈ x
  · obtain ⟨n, v, rfl, hn⟩ := List.eq_append_cons_of_mem heq
    obtain ⟨hname, hvalue⟩ := piece_append (v := v) hn
    rw [hname, hvalue]
    constructor
    · rintro ⟨rfl, hv⟩
      exact List.forall_mem_cons.2 ⟨rfl, hv⟩
    · intro hall
      rw [List.forall_mem_append, List.forall_mem_cons] at hall
      refine ⟨List.eq_nil_iff_forall_not_mem.2 fun c hc => hn ?_, hall.2.2⟩
      rw [← hall.1 c hc]
      exact hc
  · obtain ⟨hname, hvalue⟩ := piece_of_not_mem heq
    rw [hname, hvalue]
    constructor
    · rintro ⟨rfl, -⟩
      exact fun c hc => absurd hc List.not_mem_nil
    · intro hall
      refine ⟨List.eq_nil_iff_forall_not_mem.2 fun c hc => heq ?_, fun c hc => absurd hc List.not_mem_nil⟩
      rw [← hall c hc]
      exact hc

/-- The empty parameter is that of a lone `=`. -/
theorem pieceParam_eq_empty_iff {x : Bytes} (hx : x ≠ []) : pieceParam x = ([], []) ↔ x = [61] := by
  constructor
  · intro h
    rw [pieceParam, Prod.mk.injEq, percentDecode_eq_nil_iff, percentDecode_eq_nil_iff, plusToSpace,
      plusToSpace, List.map_eq_nil_iff, List.map_eq_nil_iff] at h
    obtain ⟨hname, hvalue⟩ := h
    by_cases heq : 61 ∈ x
    · obtain ⟨n, v, rfl, hn⟩ := List.eq_append_cons_of_mem heq
      rw [(piece_append hn).1] at hname
      rw [(piece_append hn).2] at hvalue
      rw [hname, hvalue]
      rfl
    · rw [(piece_of_not_mem heq).1] at hname
      exact absurd hname hx
  · rintro rfl
    rfl

theorem loopParam_empty (hdec : DecodesPercent decodeUri) :
    loopParam (unescape decodeUri) (plusToSpace []) = ([], []) := by
  rw [loopParam_eq hdec List.not_mem_nil]
  rfl

theorem goodPiece_eq : GoodPiece [61] := ⟨by decide, by decide, by decide⟩

/-- There are as many parameters as pieces, or one less. -/
theorem length_loopParams (un : Bytes → Bytes) (ps : List Bytes) :
    ps.length ≤ (loopParams un ps).length + 1 := by
  induction ps with
  | nil => exact Nat.zero_le 1
  | cons x ps ih =>
    cases ps with
    | nil => exact Nat.le_add_left 1 _
    | cons y ps =>
      rw [loopParams, List.length_cons, @List.length_cons _ _ (loopParams un (y :: ps))]
      exact Nat.succ_le_succ ih

/-- Name and value of the last piece are empty if it is empty or consists of `=`. -/
theorem last_empty_iff (x : Bytes) :
    pieceName (plusToSpace x) = [] ∧ (pieceValue (plusToSpace x)).filter (· ≠ 61) = [] ↔
      ∀ c ∈ x, c = 61 := by
  rw [piece_empty_iff, plusToSpace, List.forall_mem_map]
  exact forall_congr' fun c => imp_congr_right fun _ => plus_eq_iff (by decide) (by decide)

/-- Such a piece is left out. -/
theorem loopParams_last_empty (un : Bytes → Bytes) {x : Bytes} (hall : ∀ c ∈ x, c = 61) :
    loopParams un [plusToSpace x] = [] := by
  rw [loopParams, if_pos ((last_empty_iff x).2 hall)]

theorem loopParams_last (un : Bytes → Bytes) {x : Bytes} (hall : ¬ ∀ c ∈ x, c = 61) :
    loopParams un [plusToSpace x] = [loopParam un (plusToSpace x)] := by
  rw [loopParams, if_neg (mt (last_empty_iff x).1 hall)]

theorem loopParams_cons (un : Bytes → Bytes) (x y : Bytes) (ps : List Bytes) :
    loopParams un ((x :: y :: ps).map plusToSpace)
      = loopParam un (plusToSpace x) :: loopParams un ((y :: ps).map plusToSpace) := rfl

/-- The parameter that should not have been made stands for the one that is missing only if all there is
    are lone `=`. -/
theorem shifted_iff (hdec : DecodesPercent decodeUri) {ps : List Bytes} (hne : ps ≠ [])
    (hnul : ∀ x ∈ ps, 0 ∉ x) :
    ([], []) :: loopParams (unescape decodeUri) (ps.map plusToSpace)
        = (ps.filter (· ≠ [])).map pieceParam ↔ ∀ z ∈ ps, z = [61] := by
  induction ps with
  | nil => exact absurd rfl hne
  | cons x ps ih =>
    rw [List.forall_mem_cons] at hnul
    cases ps with
    | nil =>
      rw [List.map_cons, List.map_nil, List.forall_mem_singleton]
      by_cases hx : x = []
      · subst hx
        refine iff_of_false (fun h => ?_) (by simp)
        have hlen := congrArg List.length h
        simp at hlen
      · rw [List.filter_cons_of_pos (by simp [hx]), List.filter_nil, List.map_cons, List.map_nil]
        constructor
        · intro h
          have hhead := (List.cons.inj h).1
          exact (pieceParam_eq_empty_iff hx).1 hhead.symm
        · rintro rfl
          rfl
    | cons y ps =>
      have hrest := ih (List.cons_ne_nil y ps) hnul.2
      rw [loopParams_cons, List.forall_mem_cons]
      by_cases hx : x = []
      · subst hx
        refine iff_of_false (fun h => ?_) (by simp)
        -- two parameters too many, and at most one too few
        have hlen := congrArg List.length h
        have hmany := length_loopParams (unescape decodeUri) ((y :: ps).map plusToSpace)
        have hfew : ((y :: ps).filter (· ≠ [])).length ≤ (y :: ps).length := List.length_filter_le _ _
        rw [List.filter_cons_of_neg (by simp), List.length_cons, List.length_cons, List.length_map] at hlen
        rw [List.length_map] at hmany
        omega
      · rw [List.filter_cons_of_pos (by simp [hx]), List.map_cons (f := pieceParam), List.cons.injEq, eq_comm,
          pieceParam_eq_empty_iff hx]
        refine and_congr_right ?_
        rintro rfl
        rw [(loopParam_eq_iff hdec hnul.1).2 goodPiece_eq, (pieceParam_eq_empty_iff hx).2 rfl]
        exact hrest

/-- The loop finds the parameters of a list of pieces exactly if these are good. -/
theorem loopParams_eq_iff (hdec : DecodesPercent decodeUri) (ps : List Bytes) (hnul : ∀ x ∈ ps, 0 ∉ x) :
    loopParams (unescape decodeUri) (ps.map plusToSpace) = (ps.filter (· ≠ [])).map pieceParam ↔
      GoodPieces ps := by
  induction ps with
  | nil => exact iff_of_true rfl trivial
  | cons x ps ih =>
    rw [List.forall_mem_cons] at hnul
    cases ps with
    | nil =>
      rw [List.map_cons, List.map_nil, GoodPieces]
      by_cases hx : x = []
      · subst hx
        exact iff_of_true (loopParams_last_empty _ fun c hc => absurd hc List.not_mem_nil) (.inl rfl)
      · rw [List.filter_cons_of_pos (by simp [hx]), List.filter_nil, List.map_cons, List.map_nil]
        by_cases hall : ∀ c ∈ x, c = 61
        · rw [loopParams_last_empty _ hall]
          refine iff_of_false (fun h => (by cases h)) ?_
          rintro (h | ⟨hgood, hone⟩)
          · exact hx h
          · -- a second `=` is in the value
            obtain ⟨c, x, rfl⟩ := List.exists_cons_of_ne_nil hx
            obtain ⟨rfl, hrest⟩ := List.forall_mem_cons.1 hall
            cases x with
            | nil => exact hone rfl
            | cons d x =>
              obtain ⟨rfl, -⟩ := List.forall_mem_cons.1 hrest
              exact hgood.1 List.mem_cons_self
        · have hone : x ≠ [61] := by
            rintro rfl
            exact hall (by simp)
          rw [loopParams_last _ hall, List.cons.injEq, loopParam_eq_iff hdec hnul.1]
          exact ⟨fun h => .inr ⟨h.1, hone⟩, fun h => ⟨(h.resolve_left hx).1, rfl⟩⟩
    | cons y ps =>
      rw [loopParams_cons, GoodPieces]
      by_cases hx : x = []
      · subst hx
        rw [List.filter_cons_of_neg (by simp), loopParam_empty hdec,
          shifted_iff hdec (List.cons_ne_nil y ps) hnul.2]
        exact ⟨fun h => .inr ⟨rfl, h⟩, fun h => (h.resolve_left fun h => h.1 rfl).2⟩
      · rw [List.filter_cons_of_pos (by simp [hx]), List.map_cons (f := pieceParam), List.cons.injEq,
          loopParam_eq_iff hdec hnul.1, ih hnul.2]
        exact ⟨fun h => .inl ⟨hx, h⟩, fun h => (h.resolve_right fun h => hx h.1).2⟩

/-- **A urlencoded body is read as it should be exactly if its pieces are good.** -/
theorem urlencParams_eq_iff (hdec : DecodesPercent decodeUri) {body : Bytes} (hnul : 0 ∉ body) :
    urlencParams (unescape decodeUri) body = formParams body ↔ GoodPieces (body.splitOn 38) := by
  have hpieces : ∀ x ∈ body.splitOn 38, 0 ∉ x := by
    intro x hx h0
    obtain ⟨before, after, hsplit⟩ := List.append_of_mem hx
    obtain ⟨pre, post, htext, -, -⟩ := place_of_splitOn hsplit
    exact hnul (by rw [htext]; simp [h0])
  have hloop : urlencParams (unescape decodeUri) body
      = loopParams (unescape decodeUri) ((body.splitOn 38).map plusToSpace) := by
    rw [← splitOn_plusToSpace]
    exact urlencLoop_eq (plusToSpace body)
  rw [hloop]
  exact loopParams_eq_iff hdec (body.splitOn 38) hpieces

end Params

theorem urlencParams_sample :
    urlencParams (unescape percentDecode) (bytes "a=1&b=x+y") = formParams (bytes "a=1&b=x+y") := by
  refine (urlencParams_eq_iff (fun _ _ _ => rfl) (by decide)).2 ?_
  have hsplit : (bytes "a=1&b=x+y").splitOn 38 = [bytes "a=1", bytes "b=x+y"] := by decide
  rw [hsplit]
  refine .inl ⟨by decide, ⟨by decide, by decide, by decide⟩, .inr ⟨⟨?_, ?_, ?_⟩, ?_⟩⟩
  · decide
  · decide
  · decide
  · decide

/-- The second `=` of `a=b=c` is lost. -/
theorem urlencParams_second_equals :
    ¬ ∀ (decodeUri : Bytes → Bytes) (body : Bytes), DecodesPercent decodeUri → 0 ∉ body →
      urlencParams (unescape decodeUri) body = formParams body := by
  intro h
  exact absurd (h percentDecode (bytes "a=b=c") (fun _ _ _ => rfl) (by decide)) (by decide)

end LibEvmvc
