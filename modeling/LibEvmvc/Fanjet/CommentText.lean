import LibEvmvc.Foundation.CppComment
import LibEvmvc.Fanjet.Generate

set_option autoImplicit false

/-! # The text of a comment

A comment of a template is written with the markers of C++: `@**` becomes `//`, then `@*` becomes `/*`, then
`*@` becomes `*/`, wherever they stand in it. After the first replacement that makes a slash of each `@`
beside a `*` (`slashes`). What is written is a comment of C++ only if nothing in the content ends it, or
leaves it open; that of a region begins with an `@` still. -/

namespace LibEvmvc

namespace Fanjet

open Brackets

/-! ## The markers -/

/-- What `comment_node_t::gen_header_code` makes of the text of the node. -/
def commentCode (env : GenEnv) (w : Bytes) : Bytes :=
  let s := env.replaceSubstring w (bytes "@**") (bytes "//")
  let s := env.replaceSubstring s (bytes "@*") (bytes "/*")
  env.replaceSubstring s (bytes "*@") (bytes "*/")

/-- Each `@` beside a `*` becomes a slash; `star` says whether there is a `*` in front of the text, and `next`
is the character behind it. -/
def slashes (next : Option UInt8) : Bool → Bytes → Bytes
  | _, [] => []
  | star, c :: s =>
    (if c = 64 ∧ (star = true ∨ s.head?.or next = some 42) then 47 else c) :: slashes next (c == 42) s

/-- The text with each `@**` read as `//`. -/
def lineMarkers (w : Bytes) : Bytes := replaceAll [64, 42, 42] [47, 47] w

/-- The content of a block comment, read as C++. -/
def blockContent (s : Bytes) : Bytes := slashes (some 42) true (lineMarkers s)

section Markers

variable {env : GenEnv} {next : Option UInt8} {star : Bool} {s u v w x : Bytes} {c : UInt8}

theorem slashes_nil : slashes next star [] = [] := rfl

theorem slashes_cons (c : UInt8) (s : Bytes) : slashes next star (c :: s)
    = (if c = 64 ∧ (star = true ∨ s.head?.or next = some 42) then 47 else c) :: slashes next (c == 42) s := rfl

theorem slashes_plain (hc : c ≠ 64) : slashes next star (c :: s) = c :: slashes next (c == 42) s := by
  rw [slashes_cons, if_neg fun h => hc h.1]

theorem slashes_append (hc : c ≠ 64) (v : Bytes) :
    slashes next star (u ++ c :: v) = slashes (some c) star u ++ c :: slashes next (c == 42) v := by
  induction u generalizing star with
  | nil => exact slashes_plain hc
  | cons d u ih =>
    rw [List.cons_append, slashes_cons, slashes_cons, ih, List.head?_append, List.head?_cons]
    cases u with
    | nil => rfl
    | cons e u => rfl

theorem mem_slashes (hc : c ≠ 47) (h : c ∈ slashes next star s) : c ∈ s := by
  induction s generalizing star with
  | nil => exact h
  | cons d s ih =>
    rw [slashes_cons, List.mem_cons] at h
    rcases h with h | h
    · split at h
      · exact absurd h hc
      · rw [h]
        exact List.mem_cons_self
    · exact List.mem_cons_of_mem d (ih h)

/-- A character that is no `@` and no slash stays the last one. -/
theorem getLast?_slashes (hat : c ≠ 64) (hslash : c ≠ 47) :
    (slashes next star s).getLast? = some c ↔ s.getLast? = some c := by
  induction s generalizing star with
  | nil => exact Iff.rfl
  | cons d s ih =>
    rw [slashes_cons]
    cases s with
    | nil =>
      rw [slashes_nil, List.getLast?_singleton, List.getLast?_singleton]
      split
      · next h => simp [h.1, Ne.symm hat, Ne.symm hslash]
      · exact Iff.rfl
    | cons e s =>
      rw [List.getLast?_cons_cons, ← @ih (d == 42), slashes_cons, List.getLast?_cons_cons]

/-- The second and the third replacement, behind a `*` or not. -/
theorem replaceAll_slashes (s : Bytes) :
    replaceAll [42, 64] [42, 47] (replaceAll [64, 42] [47, 42] s) = slashes none false s ∧
      replaceAll [42, 64] [42, 47] (42 :: replaceAll [64, 42] [47, 42] s) = 42 :: slashes none true s := by
  have hne : ([64, 42] : Bytes) ≠ [] := List.cons_ne_nil 64 [42]
  have hkept {c : UInt8} {v : Bytes} (h : ¬ (c = 42 ∧ v.head? = some 64)) :
      replaceAll [42, 64] [42, 47] (c :: v) = c :: replaceAll [42, 64] [42, 47] v := by
    refine replaceAll_cons ?_
    rw [pair_prefix_iff]
    exact fun hpair => h ⟨hpair.1.symm, hpair.2⟩
  induction s using replace_induction hne with
  | nil => exact ⟨rfl, rfl⟩
  | found s ih =>
    have hslash : slashes none false ([64, 42] ++ s) = 47 :: 42 :: slashes none true s := rfl
    have hslash' : slashes none true ([64, 42] ++ s) = 47 :: 42 :: slashes none true s := rfl
    rw [replaceAll_found hne, hslash, hslash', ← ih.2]
    constructor
    · exact hkept fun h => absurd h.1 (by decide)
    · have hhead : some (47 : UInt8) ≠ some 64 := by decide
      have hnext := @hkept 42 (47 :: 42 :: replaceAll [64, 42] [47, 42] s) fun h => hhead h.2
      refine hnext.trans (congrArg (42 :: ·) ?_)
      exact hkept fun h => absurd h.1 (by decide)
  | kept c s hno ih =>
    rw [pair_prefix_iff] at hno
    rw [replaceAll_cons (by rwa [pair_prefix_iff])]
    have hfirst : replaceAll [42, 64] [42, 47] (c :: replaceAll [64, 42] [47, 42] s)
        = slashes none false (c :: s) := by
      by_cases hstar : c = 42
      · rw [hstar, ih.2, slashes_plain (by decide)]
        rfl
      · have hat : ¬ (c = 64 ∧ (false = true ∨ s.head?.or none = some 42)) := by
          rintro ⟨rfl, h | h⟩
          · cases h
          · rw [Option.or_none] at h
            exact hno ⟨rfl, h⟩
        have hfalse : (c == 42) = false := by simpa using hstar
        rw [hkept fun h => hstar h.1, ih.1, slashes_cons, if_neg hat, hfalse]
    refine ⟨hfirst, ?_⟩
    by_cases hat : c = 64
    · -- the `*` in front and the `@` are replaced
      have hfound := @replaceAll_found _ _ [42, 64] [42, 47] (List.cons_ne_nil _ _)
        (replaceAll [64, 42] [47, 42] s)
      rw [hat]
      refine hfound.trans ?_
      rw [ih.1]
      rfl
    · have hsame : slashes none true (c :: s) = slashes none false (c :: s) := by
        rw [slashes_plain hat, slashes_plain hat]
      have hhead : some c ≠ some 64 := fun h => hat (Option.some.inj h)
      have hnext := @hkept 42 (c :: replaceAll [64, 42] [47, 42] s) fun h => hhead h.2
      rw [hnext, hfirst, hsame]

/-- The three replacements. -/
theorem commentCode_eq (env : GenEnv) (w : Bytes) : commentCode env w = slashes none false (lineMarkers w) := by
  have hline : bytes "@**" = [64, 42, 42] ∧ bytes "//" = [47, 47] := by decide
  have hopen : bytes "@*" = [64, 42] ∧ bytes "/*" = [47, 42] := by decide
  have hclose : bytes "*@" = [42, 64] ∧ bytes "*/" = [42, 47] := by decide
  unfold commentCode lineMarkers
  simp only [hline, hopen, hclose, env.replace_eq _ _ _ (List.cons_ne_nil _ _)]
  exact (replaceAll_slashes _).1

end Markers

/-! ## Comments -/

/-- The texts of the comments of a parsed template. What is not closed has lost its content. A comment that
begins with a stray `*@` is taken for a region. -/
inductive CommentText : CommentSec → Bytes → Prop
  | line {body : Bytes} (hbody : 10 ∉ body) : CommentText .commentLine ([64, 42, 42] ++ (body ++ [10]))
  | block {c : UInt8} {body : Bytes} (hc : c ≠ 42) :
      CommentText .commentBlock ([64, 42] ++ (c :: body ++ [42, 64]))
  | region {op rest : Bytes} (hop : op ∈ ["@region", "@endregion", "*@"].map bytes) :
      CommentText .regionStart (op ++ rest)
  | lineOpen : CommentText .commentLine [64, 42, 42]
  | blockOpen : CommentText .commentBlock [64, 42]

/-- The comment is closed, and its content lets it be one: the content of a line comment does not end with a
backslash; that of a block comment ends with no `@*`, which would make `@**` of the end, and has nothing but
white space outside of comments if C++ reads it from inside one. -/
def CommentSafe : CommentSec → Bytes → Prop
  | .commentLine, w => ∃ body, w = [64, 42, 42] ++ (body ++ [10]) ∧ body.getLast? ≠ some 92
  | .commentBlock, w =>
    ∃ body, w = [64, 42] ++ (body ++ [42, 64]) ∧ ¬ [64, 42] <:+ body ∧ StaysInComment (blockContent body)
  | .regionStart, _ => False

section Texts

variable {env : GenEnv} {body : Bytes}

/-- A line comment. -/
theorem commentsOnly_lineComment (env : GenEnv) (hbody : 10 ∉ body) :
    CommentsOnly (commentCode env ([64, 42, 42] ++ (body ++ [10]))) ↔ body.getLast? ≠ some 92 := by
  have hne : ([64, 42, 42] : Bytes) ≠ [] := List.cons_ne_nil _ _
  have hcut : lineMarkers (body ++ [10]) = lineMarkers body ++ [10] :=
    replaceAll_append_cons hne (by decide) body []
  have hmarkers : lineMarkers ([64, 42, 42] ++ (body ++ [10])) = [47, 47] ++ (lineMarkers body ++ [10]) := by
    rw [lineMarkers, replaceAll_found hne]
    exact congrArg ([47, 47] ++ ·) hcut
  have hcode : commentCode env ([64, 42, 42] ++ (body ++ [10]))
      = [47, 47] ++ (slashes (some 10) false (lineMarkers body) ++ [10]) := by
    rw [commentCode_eq, hmarkers, List.cons_append, slashes_plain (by decide), List.cons_append,
      slashes_plain (by decide), List.nil_append, slashes_append (by decide)]
    rfl
  have hline : 10 ∉ slashes (some 10) false (lineMarkers body) := by
    intro h
    rcases mem_replaceAll hne (mem_slashes (by decide) h) with hr | hmem
    · exact absurd hr (by decide)
    · exact hbody hmem
  rw [hcode, commentsOnly_line hline, Ne, Ne, getLast?_slashes (by decide) (by decide)]
  refine not_congr ⟨fun h => getLast?_replaceAll hne (by decide) (by decide) h, fun h => ?_⟩
  -- a backslash is in no marker
  obtain ⟨u, rfl⟩ := List.getLast?_eq_some_iff.1 h
  rw [lineMarkers, replaceAll_append_cons hne (by decide), List.getLast?_append]
  rfl

/-- A block comment whose end is not taken for an `@**`. -/
theorem commentsOnly_blockComment (env : GenEnv) {c : UInt8} (hc : c ≠ 42) (hend : ¬ [64, 42] <:+ c :: body) :
    CommentsOnly (commentCode env ([64, 42] ++ (c :: body ++ [42, 64]))) ↔
      StaysInComment (blockContent (c :: body)) := by
  have hne : ([64, 42, 42] : Bytes) ≠ [] := List.cons_ne_nil _ _
  have hcut : lineMarkers (c :: body ++ [42, 64]) = lineMarkers (c :: body) ++ [42, 64] := by
    refine replaceAll_append hne fun f₁ f₂ hsplit h₁ h₂ hu hv => ?_
    rcases f₁ with _ | ⟨a, _ | ⟨b, _ | ⟨d, f₁⟩⟩⟩
    · exact h₁ rfl
    · obtain ⟨-, rfl⟩ := List.cons.inj hsplit
      exact absurd hv (by decide)
    · obtain ⟨rfl, htail⟩ := List.cons.inj hsplit
      obtain ⟨rfl, -⟩ := List.cons.inj htail
      exact hend hu
    · have hlen := congrArg List.length hsplit
      have hpos := List.length_pos_iff.2 h₂
      simp only [List.length_append, List.length_cons, List.length_nil] at hlen
      omega
  have hmarkers : lineMarkers ([64, 42] ++ (c :: body ++ [42, 64]))
      = 64 :: 42 :: (lineMarkers (c :: body) ++ [42, 64]) := by
    have hopen : ¬ [64, 42, 42] <+: 64 :: 42 :: (c :: body ++ [42, 64]) := by
      intro hpre
      have hpre' := (List.cons_prefix_cons.1 (List.cons_prefix_cons.1 hpre).2).2
      exact hc (List.cons_prefix_cons.1 hpre').1.symm
    have hstar : ¬ [64, 42, 42] <+: 42 :: (c :: body ++ [42, 64]) :=
      fun hpre => absurd (List.cons_prefix_cons.1 hpre).1 (by decide)
    rw [← hcut]
    exact (replaceAll_cons hopen).trans (congrArg (64 :: ·) (replaceAll_cons hstar))
  have hcode : commentCode env ([64, 42] ++ (c :: body ++ [42, 64]))
      = [47, 42] ++ (blockContent (c :: body) ++ [42, 47]) := by
    have hfirst (v : Bytes) : slashes none false (64 :: 42 :: v) = 47 :: 42 :: slashes none true v := rfl
    rw [commentCode_eq, hmarkers, hfirst, slashes_append (by decide)]
    rfl
  rw [hcode, commentsOnly_block]

/-- If it is, an `@` is left at the end. -/
theorem not_commentsOnly_marker (env : GenEnv) (u : Bytes) :
    ¬ CommentsOnly (commentCode env (u ++ [64, 42, 42, 64])) := by
  have hne : ([64, 42, 42] : Bytes) ≠ [] := List.cons_ne_nil _ _
  have hmarkers : lineMarkers (u ++ [64, 42, 42, 64]) = lineMarkers u ++ 47 :: 47 :: [64] := by
    refine replaceAll_append hne fun f₁ f₂ hsplit h₁ h₂ _ hv => ?_
    -- what begins behind the first character does not begin with an `@`
    obtain ⟨a, f₁, rfl⟩ := List.exists_cons_of_ne_nil h₁
    obtain ⟨b, f₂, rfl⟩ := List.exists_cons_of_ne_nil h₂
    have hmem : b ∈ ([42, 42] : Bytes) :=
      (List.cons.inj hsplit).2 ▸ List.mem_append_right f₁ List.mem_cons_self
    rw [(List.cons_prefix_cons.1 hv).1] at hmem
    exact absurd hmem (by decide)
  have hcode : commentCode env (u ++ [64, 42, 42, 64])
      = slashes (some 47) false (lineMarkers u) ++ [47, 47] ++ [64] := by
    rw [commentCode_eq, hmarkers, slashes_append (by decide), List.append_assoc]
    rfl
  rw [hcode]
  refine not_commentsOnly_concat (by decide) (fun s hs h => ?_) _
  cases s with
  | code v =>
    have hitems : (Lex.step 64 (.code v)).1 = wordItem v ++ [.sign 64] := rfl
    rw [h] at hitems
    exact absurd (List.append_eq_nil_iff.1 hitems.symm).2 (List.cons_ne_nil _ _)
  | slash => exact absurd h (by decide)
  | literal quote => cases hs
  | escape quote => cases hs
  | line => exact absurd h (by decide)
  | block => exact absurd h (by decide)
  | blockStar => exact absurd h (by decide)

/-- The text of a region begins with a sign. -/
theorem not_commentsOnly_region (env : GenEnv) {op : Bytes}
    (hop : op ∈ ["@region", "@endregion", "*@"].map bytes) (rest : Bytes) :
    ¬ CommentsOnly (commentCode env (op ++ rest)) := by
  have hword {d : UInt8} (hd : d ≠ 42 ∧ d ≠ 64) (w : Bytes) :
      ∃ w', commentCode env (64 :: d :: w) = 64 :: w' := by
    have hno : ¬ [64, 42, 42] <+: 64 :: d :: w := fun hpre =>
      hd.1 (List.cons_prefix_cons.1 (List.cons_prefix_cons.1 hpre).2).1.symm
    have hno' : ¬ [64, 42, 42] <+: d :: w := fun hpre => hd.2 (List.cons_prefix_cons.1 hpre).1.symm
    have hkept : ¬ ((64 : UInt8) = 64 ∧ (false = true ∨ (some d).or none = some 42)) := by
      rintro ⟨-, h | h⟩
      · cases h
      · exact hd.1 (Option.some.inj h)
    rw [commentCode_eq, lineMarkers, replaceAll_cons hno, replaceAll_cons hno', slashes, List.head?_cons,
      if_neg hkept]
    exact ⟨_, rfl⟩
  have hsign {c : UInt8} (hc : ((Lex.code []).step c).1 ≠ [] ∧ c ≠ 92)
      (h : ∃ w, commentCode env (op ++ rest) = c :: w) : ¬ CommentsOnly (commentCode env (op ++ rest)) := by
    obtain ⟨w, hw⟩ := h
    rw [hw]
    exact not_commentsOnly_cons hc.2 hc.1 w
  simp only [List.map_cons, List.map_nil, List.mem_cons, List.not_mem_nil, or_false] at hop
  rcases hop with rfl | rfl | rfl
  · exact @hsign 64 (by decide) (@hword 114 (by decide) (bytes "egion" ++ rest))
  · exact @hsign 64 (by decide) (@hword 101 (by decide) (bytes "ndregion" ++ rest))
  · refine @hsign 42 (by decide) ?_
    have hno : ¬ [64, 42, 42] <+: bytes "*@" ++ rest := fun hpre =>
      absurd (List.cons_prefix_cons.1 hpre).1 (by decide)
    have hfirst : bytes "*@" ++ rest = 42 :: 64 :: rest := rfl
    rw [hfirst] at hno ⊢
    rw [commentCode_eq, lineMarkers, replaceAll_cons hno, slashes_plain (by decide)]
    exact ⟨_, rfl⟩

/-- **What is written for a comment is white space and complete comments exactly if it is closed and its
content lets it be a comment.** That of a region never is. -/
theorem CommentText.commentsOnly_iff (env : GenEnv) {sec : CommentSec} {w : Bytes} (h : CommentText sec w) :
    CommentsOnly (commentCode env w) ↔ CommentSafe sec w := by
  have hopened {v : Bytes} (hv : ¬ CommentsOnly (slashes none false (lineMarkers v))) :
      ¬ CommentsOnly (commentCode env v) := by
    rw [commentCode_eq]
    exact hv
  cases h with
  | @line body hbody =>
    rw [commentsOnly_lineComment env hbody]
    constructor
    · exact fun hlast => ⟨body, rfl, hlast⟩
    · rintro ⟨body', heq, hlast⟩
      obtain rfl := List.append_cancel_right (List.append_cancel_left heq)
      exact hlast
  | @block c body hc =>
    constructor
    · intro hcode
      by_cases hend : [64, 42] <:+ c :: body
      · obtain ⟨u, hu⟩ := hend
        have hsplit : [64, 42] ++ (c :: body ++ [42, 64]) = ([64, 42] ++ u) ++ [64, 42, 42, 64] := by
          rw [← hu]
          simp
        rw [hsplit] at hcode
        exact absurd hcode (not_commentsOnly_marker env _)
      · exact ⟨c :: body, rfl, hend, (commentsOnly_blockComment env hc hend).1 hcode⟩
    · rintro ⟨body', heq, hend, hstays⟩
      obtain rfl := List.append_cancel_right (List.append_cancel_left heq)
      exact (commentsOnly_blockComment env hc hend).2 hstays
  | region hop => exact iff_of_false (not_commentsOnly_region env hop _) fun h => h
  | lineOpen =>
    refine iff_of_false (hopened (by decide)) ?_
    rintro ⟨body, heq, -⟩
    exact absurd (congrArg List.length heq) (by simp)
  | blockOpen =>
    refine iff_of_false (hopened (by decide)) ?_
    rintro ⟨body, heq, -, -⟩
    exact absurd (congrArg List.length heq) (by simp)

end Texts

end Fanjet

end LibEvmvc
