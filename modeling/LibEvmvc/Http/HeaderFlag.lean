import LibEvmvc.Http.ContentType

set_option autoImplicit false

/-! # The pieces that a flag is compared with

`header_t::flag` is to look for a name among the pieces of a value between `;` and `=`. It compares a piece
when it comes to a separator, and the last one when it comes to the last character. If that character is
a separator it is taken for a part of the piece: `flagPieces` says which pieces are compared, and
`flagPieces_eq` how they differ from those of the value. -/

namespace LibEvmvc

/-- The test for a separator of `flag`. -/
def isAttrSep (c : UInt8) : Bool := attrSeps.contains c

theorem isAttrSep_iff {c : UInt8} : isAttrSep c = true ↔ c ∈ attrSeps := List.contains_iff_mem

/-- A piece that is a name, up to case and the blanks around it. -/
def Spells (name piece : Bytes) : Prop := lower (strip piece) = lower name

/-- A name among the pieces of a value. -/
def HasPiece (v name : Bytes) : Prop := ∃ x ∈ v.splitOnP isAttrSep, Spells name x

/-- The pieces that `flag` compares, where `cur` is what it has of the next one. -/
def flagPieces : Bytes → Bytes → List Bytes
  | [], _ => []
  | [c], cur => [cur ++ [c]]
  | c :: d :: t, cur =>
    if isAttrSep c then cur :: flagPieces (d :: t) [] else flagPieces (d :: t) (cur ++ [c])

/-! ## Comparing -/

theorem lowerByte_eq_zero {c : UInt8} (h : lowerByte c = 0) : c = 0 := by
  rcases lowerByte_cases c with hsame | ⟨hlow, hhigh⟩
  · rw [← hsame, h]
  · have hupper : (65 ≤ c && c ≤ 90) = true := by simp [hlow, hhigh]
    rw [lowerByte, if_pos hupper] at h
    have hlow := UInt8.le_iff_toNat_le.1 hlow
    have hhigh := UInt8.le_iff_toNat_le.1 hhigh
    have hsum := congrArg UInt8.toNat h
    rw [UInt8.toNat_add] at hsum
    have h65 : (65 : UInt8).toNat = 65 := rfl
    have h90 : (90 : UInt8).toNat = 90 := rfl
    have h32 : (32 : UInt8).toNat = 32 := rfl
    have h0 : (0 : UInt8).toNat = 0 := rfl
    omega

theorem noNul_of_lower {a b : Bytes} (h : lower a = lower b) (hb : 0 ∉ b) : 0 ∉ a := by
  intro ha
  have hzero : 0 ∈ lower b := h ▸ List.mem_map.2 ⟨0, ha, rfl⟩
  obtain ⟨c, hc, hlow⟩ := List.mem_map.1 hzero
  exact hb (lowerByte_eq_zero hlow ▸ hc)

/-- A name without NUL is compared as a whole. -/
theorem pieceIs_iff {name : Bytes} (hname : 0 ∉ name) (x : Bytes) :
    pieceIs x name = true ↔ Spells name x := by
  unfold pieceIs Spells
  rw [Bool.and_eq_true, beq_iff_eq, beq_iff_eq, cstr_of_noNul hname]
  constructor
  · rintro ⟨hlen, htext⟩
    have hfull : (cstr (strip x)).length = (strip x).length := by
      rw [hlen]
      simpa [lower] using congrArg List.length htext
    have hcstr : cstr (strip x) = strip x := (List.takeWhile_prefix _).eq_of_length hfull
    rw [hcstr] at htext
    exact htext
  · intro htext
    refine ⟨by simpa [lower] using congrArg List.length htext, ?_⟩
    rw [cstr_of_noNul (noNul_of_lower htext hname), htext]

/-- The loop compares the pieces that are left. -/
theorem flagLoop_eq (name pre cur rest : Bytes) :
    flagLoop (pre ++ cur ++ rest) name attrSeps rest (pre ++ cur).length pre.length = true ↔
      ∃ x ∈ flagPieces rest cur, pieceIs x name = true := by
  induction rest generalizing pre cur with
  | nil => simp [flagLoop, flagPieces]
  | cons c rest ih =>
    rcases rest with - | ⟨d, t⟩
    · have hlast : (pre ++ cur).length = (pre ++ cur ++ [c]).length - 1 := by simp
      have hcut : substr (pre ++ cur ++ [c]) pre.length ((pre ++ cur).length + 1 - pre.length)
          = cur ++ [c] := by
        have hlen : (pre ++ cur).length + 1 - pre.length = (cur ++ [c]).length := by
          simp only [List.length_append, List.length_singleton]
          omega
        have hmid := substr_mid pre (cur ++ [c]) []
        rw [List.append_nil, ← List.append_assoc] at hmid
        rw [hlen, hmid]
      rw [flagLoop, if_pos (Or.inr hlast)]
      simp only [if_pos hlast, hcut, flagLoop, flagPieces, List.mem_singleton, exists_eq_left]
      split <;> simp_all
    · have hlast : ¬ (pre ++ cur).length = (pre ++ cur ++ c :: d :: t).length - 1 := by
        simp only [List.length_append, List.length_cons]
        omega
      rw [flagLoop, flagPieces]
      by_cases hsep : c ∈ attrSeps
      · have hcut : substr (pre ++ cur ++ c :: d :: t) pre.length ((pre ++ cur).length - pre.length)
            = cur := by
          have hlen : (pre ++ cur).length - pre.length = cur.length := by simp
          rw [hlen, List.append_assoc]
          exact substr_mid pre cur _
        have hnext := ih (pre ++ cur ++ [c]) []
        have htext : pre ++ cur ++ [c] ++ [] ++ d :: t = pre ++ cur ++ c :: d :: t := by simp
        have hpos : (pre ++ cur ++ [c] ++ []).length = (pre ++ cur).length + 1 := by
          simp [Nat.add_assoc]
        have hpos' : (pre ++ cur ++ [c]).length = (pre ++ cur).length + 1 := by
          simp [Nat.add_assoc]
        rw [htext, hpos, hpos'] at hnext
        rw [if_pos (Or.inl hsep), if_pos (isAttrSep_iff.2 hsep)]
        simp only [if_neg hlast, hcut, List.mem_cons, exists_eq_or_imp]
        rw [← hnext]
        by_cases hfound : pieceIs cur name = true
        · rw [if_pos hfound]
          exact iff_of_true rfl (.inl hfound)
        · rw [if_neg hfound]
          exact (or_iff_right hfound).symm
      · have hnext := ih pre (cur ++ [c])
        have htext : pre ++ (cur ++ [c]) ++ d :: t = pre ++ cur ++ c :: d :: t := by simp
        have hpos : (pre ++ (cur ++ [c])).length = (pre ++ cur).length + 1 := by
          simp [Nat.add_assoc]
        rw [htext, hpos] at hnext
        rw [if_neg (not_or.2 ⟨hsep, hlast⟩), if_neg fun h => hsep (isAttrSep_iff.1 h)]
        exact hnext

theorem flag_eq (v name : Bytes) :
    flag v name = true ↔ ∃ x ∈ flagPieces v [], pieceIs x name = true :=
  flagLoop_eq name [] [] v

/-! ## The pieces of a value -/

/-- The pieces in front of the last character `c`, those that are compared, and those of the value: the
    last piece is compared with `c`, be it a separator or not. -/
theorem flagPieces_eq (cur u : Bytes) (c : UInt8) (hcur : ∀ x ∈ cur, isAttrSep x = false) :
    ∃ front last, (cur ++ u).splitOnP isAttrSep = front ++ [last] ∧
      flagPieces (u ++ [c]) cur = front ++ [last ++ [c]] ∧
      (cur ++ u ++ [c]).splitOnP isAttrSep =
        if isAttrSep c then front ++ [last, []] else front ++ [last ++ [c]] := by
  induction u generalizing cur with
  | nil =>
    refine ⟨[], cur, ?_, rfl, ?_⟩
    · rw [List.append_nil, List.splitOnP_eq_singleton hcur, List.nil_append]
    · rw [List.append_nil]
      by_cases hc : isAttrSep c = true
      · rw [if_pos hc, List.splitOnP_append_cons _ _ hc, List.splitOnP_eq_singleton hcur]
        rfl
      · rw [if_neg hc, List.nil_append]
        refine List.splitOnP_eq_singleton fun x hx => ?_
        rcases List.mem_append.1 hx with hx | hx
        · exact hcur x hx
        · rw [List.mem_singleton.1 hx]
          exact Bool.not_eq_true _ ▸ hc
  | cons d u ih =>
    have hstep : flagPieces (d :: u ++ [c]) cur = if isAttrSep d then cur :: flagPieces (u ++ [c]) []
        else flagPieces (u ++ [c]) (cur ++ [d]) := by
      rcases u with - | ⟨e, u⟩ <;> rfl
    by_cases hd : isAttrSep d = true
    · obtain ⟨front, last, hfront, hpieces, hvalue⟩ := ih [] fun x hx => absurd hx List.not_mem_nil
      rw [List.nil_append] at hfront hvalue
      refine ⟨cur :: front, last, ?_, ?_, ?_⟩
      · rw [List.splitOnP_append_cons_of_forall_mem hcur d hd, hfront, List.cons_append]
      · rw [hstep, if_pos hd, hpieces, List.cons_append]
      · rw [List.append_assoc, List.cons_append,
          List.splitOnP_append_cons_of_forall_mem hcur d hd, hvalue]
        split <;> rfl
    · have hnext : ∀ x ∈ cur ++ [d], isAttrSep x = false := by
        intro x hx
        rcases List.mem_append.1 hx with hx | hx
        · exact hcur x hx
        · rw [List.mem_singleton.1 hx]
          exact Bool.not_eq_true _ ▸ hd
      obtain ⟨front, last, hfront, hpieces, hvalue⟩ := ih (cur ++ [d]) hnext
      have hassoc : cur ++ [d] ++ u = cur ++ d :: u := by simp
      rw [hassoc] at hfront hvalue
      refine ⟨front, last, hfront, ?_, hvalue⟩
      rw [hstep, if_neg hd, hpieces]

/-- The pieces in front of the last character, but for the one it ends. -/
def frontPieces (v : Bytes) : List Bytes := (v.dropLast.splitOnP isAttrSep).dropLast

/-- The piece that the last character ends or belongs to. -/
def lastPiece (v : Bytes) : Bytes := (v.dropLast.splitOnP isAttrSep).getLastD []

/-- The value does not end with a separator; or it has the name in front of its last two pieces; or the
    name is neither the piece in front of the separator nor that piece together with the separator. -/
def FlagReaches (v name : Bytes) : Prop :=
  v.getLast?.any isAttrSep = false ∨ (∃ x ∈ frontPieces v, Spells name x) ∨
    ¬ Spells name (lastPiece v) ∧ ¬ Spells name (lastPiece v ++ v.getLast?.toList)

theorem isspace_sep {c : UInt8} (h : isAttrSep c = true) : isspace c = false := by
  have hseps : attrSeps.all (fun c => !isspace c) = true := by decide
  simpa using List.all_eq_true.1 hseps c (isAttrSep_iff.1 h)

/-- A separator makes a piece longer. -/
theorem length_strip_lt {c : UInt8} (hc : isspace c = false) (x : Bytes) :
    (strip x).length < (strip (x ++ [c])).length := by
  have hwhole : strip (x ++ [c]) = x.dropWhile isspace ++ [c] := by
    have hdrop : (x ++ [c]).dropWhile isspace = x.dropWhile isspace ++ [c] := by
      rw [List.dropWhile_append]
      split
      · next hempty =>
        rw [List.isEmpty_iff.1 hempty, List.dropWhile_cons_of_neg (by simp [hc]), List.nil_append]
      · rfl
    rw [strip, hdrop, List.rdropWhile_concat_neg _ _ _ (by simp [hc])]
  have hle : (strip x).length ≤ (x.dropWhile isspace).length := (List.rdropWhile_prefix _ _).length_le
  rw [hwhole, List.length_append, List.length_singleton]
  omega

/-- A piece and the piece with a separator are not both the name. -/
theorem spells_one {name x : Bytes} {c : UInt8} (hc : isAttrSep c = true) (hx : Spells name x) :
    ¬ Spells name (x ++ [c]) := by
  intro hlong
  have hlen := length_strip_lt (isspace_sep hc) x
  have hshort := congrArg List.length hx
  have hlong := congrArg List.length hlong
  simp only [lower, List.length_map] at hshort hlong
  omega

/-- `flag` finds exactly the names among the pieces of a value, unless the value ends with a separator
    that makes the difference. -/
theorem flag_iff_hasPiece {v name : Bytes} (hne : name ≠ []) (hnul : 0 ∉ name) :
    (flag v name = true ↔ HasPiece v name) ↔ FlagReaches v name := by
  have hempty : ¬ Spells name [] := by
    intro h
    exact hne (List.map_eq_nil_iff.1 (Eq.symm h))
  simp only [flag_eq, pieceIs_iff hnul]
  rcases List.eq_nil_or_concat v with rfl | ⟨u, c, rfl⟩
  · refine iff_of_true ?_ (.inl rfl)
    simp [flagPieces, HasPiece, List.splitOnP_nil, hempty]
  · rw [List.concat_eq_append]
    obtain ⟨front, last, hfront, hpieces, hvalue⟩ :=
      flagPieces_eq [] u c fun x hx => absurd hx List.not_mem_nil
    rw [List.nil_append] at hfront hvalue
    have hfirst : frontPieces (u ++ [c]) = front := by
      rw [frontPieces, List.dropLast_concat, hfront, List.dropLast_concat]
    have hlast : lastPiece (u ++ [c]) = last := by
      rw [lastPiece, List.dropLast_concat, hfront, List.getLastD_concat]
    rw [HasPiece, hvalue, hpieces, FlagReaches, hfirst, hlast, List.getLast?_concat]
    by_cases hc : isAttrSep c = true
    · have hone := @spells_one name last c hc
      rw [if_pos hc]
      simp only [List.mem_append, List.mem_cons, List.not_mem_nil, or_false, or_and_right,
        exists_or, exists_eq_left, hempty, Option.any_some, hc, Option.toList_some, Bool.true_eq_false,
        false_or]
      -- the two pieces are not both the name, so they agree only where neither is
      by_cases hfound : ∃ x, x ∈ front ∧ Spells name x
      · exact iff_of_true (iff_of_true (.inl hfound) (.inl hfound)) (.inl hfound)
      · simp only [hfound, false_or]
        constructor
        · intro hsame
          have hnot : ¬ Spells name last := fun hx => hone hx (hsame.2 hx)
          exact ⟨hnot, fun hlong => hnot (hsame.1 hlong)⟩
        · rintro ⟨hshort, hlong⟩
          exact iff_of_false hlong hshort
    · have hend : isAttrSep c = false := Bool.not_eq_true _ ▸ hc
      rw [if_neg hc]
      exact iff_of_true Iff.rfl (.inl hend)

theorem flag_iff_hasPiece_keepAlive :
    (flag (bytes "keep-alive") (bytes "keep-alive") = true ↔
        HasPiece (bytes "keep-alive") (bytes "keep-alive")) ↔
      FlagReaches (bytes "keep-alive") (bytes "keep-alive") :=
  flag_iff_hasPiece (by decide) (by decide)

/-- A separator at the end hides the piece in front of it. -/
theorem flag_missed_at_end :
    bytes "gzip" ≠ [] ∧ ¬ (flag (bytes "gzip;") (bytes "gzip") = true ↔
      HasPiece (bytes "gzip;") (bytes "gzip")) := by
  refine ⟨by decide, fun h => ?_⟩
  have hpiece : HasPiece (bytes "gzip;") (bytes "gzip") := ⟨bytes "gzip", by decide, rfl⟩
  exact absurd (h.2 hpiece) (by decide)

end LibEvmvc
