import LibEvmvc.Foundation.Segments
import LibEvmvc.Routing.Dispatch

set_option autoImplicit false

/-! # Normalising paths

`_norm_path` is meant to leave one `/` behind every segment. It replaces `//` by nothing, not by `/`, so
two slashes between two segments join them, and a path of slashes only is left without a character
to look at. -/

namespace LibEvmvc

/-- `_norm_path`, where `//` is replaced from the left to the right. -/
def normPathLeft (path : Bytes) : Option Bytes := normPath (replaceAll (bytes "//") []) path

/-- The result is `/`, or segments that are not empty with a `/` behind each. -/
def IsNormPath (p : Bytes) : Prop :=
  p = bytes "/" ∨ (p.head? ≠ some 47 ∧
    ∃ q, p = q ++ bytes "/" ∧ q.getLast? ≠ some 47 ∧ [] ∉ q.splitOn 47)

/-- A path is normalised: there is a result of the right form, it has the segments of the path, and
    normalising it again changes nothing. -/
def Normalises (path : Bytes) : Prop :=
  ∃ p, normPathLeft path = some p ∧ IsNormPath p ∧ segments 47 p = segments 47 path ∧
    normPathLeft p = some p

theorem normPathLeft_eq {path : Bytes} (hne : path ≠ []) (hslash : path ≠ bytes "/") :
    normPathLeft path =
      if stripSep 47 (dropPairs 47 path) = [] then none
      else some (closeSep 47 (stripSep 47 (dropPairs 47 path))) := by
  have htext : replaceAll (bytes "//") [] path = dropPairs 47 path := rfl
  have hstrip : (if (dropPairs 47 path).head? = some 47 then (dropPairs 47 path).drop 1
      else dropPairs 47 path) = stripSep 47 (dropPairs 47 path) := rfl
  rw [normPathLeft, normPath, if_neg (by simp [hne, hslash])]
  simp only [htext, hstrip]
  cases hlast : (stripSep 47 (dropPairs 47 path)).getLast? with
  | none => rw [if_pos (List.getLast?_eq_none_iff.1 hlast)]
  | some c =>
    have hmore : stripSep 47 (dropPairs 47 path) ≠ [] := by
      intro hnil
      rw [hnil] at hlast
      cases hlast
    rw [if_neg hmore, closeSep, hlast]
    simp only [Option.some.injEq]

/-- The joined segments of a path are in normal form, and stay. -/
theorem normalised_joinSegments {path : Bytes} (hne : segments 47 path ≠ []) :
    IsNormPath (joinSegments 47 (segments 47 path)) ∧
      normPathLeft (joinSegments 47 (segments 47 path)) = some (joinSegments 47 (segments 47 path)) := by
  have hwords : ∀ w ∈ segments 47 path, w ≠ [] ∧ 47 ∉ w := fun _ => mem_segments
  have hhead := @head?_joinSegments _ 47 _ hwords
  have heq := @joinSegments_eq _ 47 _ hne
  have hsplit := splitOn_intercalate_segments path hne
  have hnonempty : joinSegments 47 (segments 47 path) ≠ [] := by
    rw [heq]
    simp
  constructor
  · refine .inr ⟨hhead, _, heq, ?_, ?_⟩
    · -- a slash at the end would leave an empty segment behind it
      intro hlast
      obtain ⟨q, hq⟩ := List.getLast?_eq_some_iff.1 hlast
      rw [hq, List.splitOn_append_cons_self, List.splitOn_nil] at hsplit
      exact (hwords [] (hsplit ▸ by simp)).1 rfl
    · rw [hsplit]
      exact fun hmem => (hwords [] hmem).1 rfl
  · rw [normPathLeft_eq hnonempty (fun h => hhead (by rw [h]; rfl)), dropPairs_joinSegments hwords,
      stripSep_joinSegments hwords, closeSep_joinSegments hne, if_neg hnonempty]

/-- **A path is normalised exactly if it does not consist of two or more slashes, and has an odd number
    of slashes between any two segments.** -/
theorem normalises_iff (path : Bytes) :
    Normalises path ↔
      (2 ≤ path.length → ∃ c ∈ path, c ≠ 47) ∧ oddRuns 47 none path = true := by
  by_cases hroot : path = [] ∨ path = bytes "/"
  · refine iff_of_true ⟨bytes "/", if_pos hroot, .inl rfl, ?_, rfl⟩ ⟨?_, ?_⟩
    · rcases hroot with rfl | rfl <;> rfl
    · rcases hroot with rfl | rfl
      · exact fun h => absurd h (by decide)
      · exact fun h => absurd h (by decide)
    · rcases hroot with rfl | rfl <;> rfl
  · rw [not_or] at hroot
    have hnorm := normPathLeft_eq hroot.1 hroot.2
    by_cases hsegs : segments 47 path = []
    · -- slashes only, two or more: nothing is left
      have hrun := segments_eq_nil_iff.1 hsegs
      have hlen : 2 ≤ path.length := by
        by_contra hshort
        rcases Nat.le_one_iff_eq_zero_or_eq_one.1 (by omega : path.length ≤ 1) with h | h
        · exact hroot.1 (List.length_eq_zero_iff.1 h)
        · rw [h] at hrun
          exact hroot.2 hrun
      rw [if_pos (stripSep_dropPairs_eq_nil_iff.2 hsegs)] at hnorm
      refine iff_of_false ?_ fun h => ?_
      · rintro ⟨p, hp, -⟩
        rw [hnorm] at hp
        cases hp
      · obtain ⟨c, hc, hne⟩ := h.1 hlen
        rw [hrun] at hc
        exact hne (List.eq_of_mem_replicate hc)
    · have hchar : ∃ c ∈ path, c ≠ 47 := by
        by_contra hall
        push Not at hall
        refine hsegs (segments_eq_nil_iff.2 ?_)
        exact List.eq_replicate_of_mem hall
      rw [if_neg (mt stripSep_dropPairs_eq_nil_iff.1 hsegs)] at hnorm
      have hresult : segments 47 (closeSep 47 (stripSep 47 (dropPairs 47 path)))
          = segments 47 (dropPairs 47 path) := by
        rw [segments_closeSep, segments_stripSep]
      constructor
      · rintro ⟨p, hp, -, hsame, -⟩
        rw [hnorm] at hp
        cases hp
        rw [hresult, segments_dropPairs_iff] at hsame
        exact ⟨fun _ => hchar, hsame⟩
      · rintro ⟨-, hodd⟩
        rw [closeSep_dropPairs hodd hsegs] at hnorm hresult
        obtain ⟨hform, hagain⟩ := normalised_joinSegments hsegs
        refine ⟨_, hnorm, hform, ?_, hagain⟩
        rw [hresult, segments_dropPairs_iff]
        exact hodd

/-- The segments of `a//b` are joined. -/
theorem normPathLeft_joins : ¬ ∀ path, Normalises path := by
  intro h
  obtain ⟨p, hp, -, hsame, -⟩ := h (bytes "a//b")
  have hjoined : normPathLeft (bytes "a//b") = some (bytes "ab/") := by decide
  rw [hjoined] at hp
  cases hp
  revert hsame
  decide

end LibEvmvc
