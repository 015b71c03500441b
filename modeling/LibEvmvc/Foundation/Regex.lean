import Mathlib.Data.List.Basic

set_option autoImplicit false

/-! # Regular expressions

The part of Perl's regular expressions that has no nested repetition: characters, sets of characters
and their repetitions, the anchors, alternatives and groups. An expression is matched as PCRE does,
by backtracking: `run` lists the ways to match in the order in which they are tried, and the first one
is the result. Each way says what it has taken, what is left and what the groups have captured, in the
order of their opening parentheses.

`^` matches at the start of the subject, `$` at its end and before a line break that ends it. -/

namespace LibEvmvc

abbrev Text := List Char

/-- One character of a subject: a given one, any, or one that is not listed. -/
inductive CharSet where
  | chr (c : Char)
  | dot
  | notIn (cs : List Char)
  deriving DecidableEq, Repr

inductive Re where
  | empty
  | one (s : CharSet)
  /-- one or more, as many as possible -/
  | many (s : CharSet)
  | bol
  | eol
  | seq (x y : Re)
  /-- an alternative stands in a group of its own -/
  | alt (x y : Re)
  | group (name : Option Text) (x : Re)
  deriving DecidableEq, Repr

/-- One way to match: what is taken, what is left, and the text of each group that takes part. -/
structure Hit where
  taken : Text
  rest : Text
  caps : List (Option Text)
  deriving DecidableEq, Repr

/-! ## Syntax -/

/-- A character that stands for itself. -/
def escape (c : Char) : Text :=
  if c.isAlphanum then [c] else if c = '\n' then ['\\', 'n'] else ['\\', c]

def CharSet.render : CharSet → Text
  | .chr c => escape c
  | .dot => ['.']
  | .notIn cs => ['[', '^'] ++ cs.flatMap escape ++ [']']

namespace Re

/-- An expression as it is written. -/
def render : Re → Text
  | .empty => []
  | .one s => s.render
  | .many s => s.render ++ ['+']
  | .bol => ['^']
  | .eol => ['$']
  | .seq x y => x.render ++ y.render
  | .alt x y => x.render ++ ['|'] ++ y.render
  | .group none x => ['('] ++ x.render ++ [')']
  | .group (some n) x => ['(', '?', '<'] ++ n ++ ['>'] ++ x.render ++ [')']

/-- The groups of an expression, with their names. -/
def groups : Re → List (Option Text)
  | .seq x y | .alt x y => x.groups ++ y.groups
  | .group name x => name :: x.groups
  | _ => []

end Re

/-! ## Matching -/

section Matching

variable (same : Char → Char → Bool)

def CharSet.holds : CharSet → Char → Bool
  | .chr d, c => same d c
  | .dot, c => c != '\n'
  | .notIn cs, c => !cs.contains c

/-- The repetitions of a set, the longest first. -/
def manyHits (s : CharSet) : Text → List Hit
  | [] => []
  | c :: rest =>
    if s.holds same c then
      (manyHits s rest).map (fun h => { h with taken := c :: h.taken }) ++ [⟨[c], rest, []⟩]
    else []

namespace Re

/-- The ways to match, in the order they are tried; `before` precedes the place in the subject. -/
@[grind =] def run : Re → Text → Text → List Hit
  | .empty, _, s => [⟨[], s, []⟩]
  | .one p, _, s =>
    match s with
    | c :: rest => if p.holds same c then [⟨[c], rest, []⟩] else []
    | [] => []
  | .many p, _, s => manyHits same p s
  | .bol, before, s => if before = [] then [⟨[], s, []⟩] else []
  | .eol, _, s => if s = [] ∨ s = ['\n'] then [⟨[], s, []⟩] else []
  | .seq x y, before, s =>
    (run x before s).flatMap fun h => (run y (before ++ h.taken) h.rest).map fun k =>
      ⟨h.taken ++ k.taken, k.rest, h.caps ++ k.caps⟩
  | .alt x y, before, s =>
    (run x before s).map (fun h => { h with caps := h.caps ++ y.groups.map fun _ => none })
      ++ (run y before s).map fun h => { h with caps := (x.groups.map fun _ => none) ++ h.caps }
  | .group _ x, before, s =>
    (run x before s).map fun h => { h with caps := some h.taken :: h.caps }

/-- The first match, from the leftmost place on. -/
def search (r : Re) : Text → Text → Option Hit
  | before, [] => (run same r before []).head?
  | before, c :: rest =>
    match run same r before (c :: rest) with
    | h :: _ => some h
    | [] => search r (before ++ [c]) rest

/-- What a match captures: each group with its name and the text it has matched. -/
def exec (r : Re) (s : Text) : Option (List (Option Text × Option Text)) :=
  (search same r [] s).map fun h => r.groups.zip h.caps

end Re

end Matching

/-! ## What can be matched -/

section Hits

variable {same : Char → Char → Bool} {before s : Text} {h : Hit}

theorem mem_manyHits (p : CharSet) :
    h ∈ manyHits same p s ↔ h.taken ≠ [] ∧ (∀ c ∈ h.taken, p.holds same c = true) ∧
      h.taken ++ h.rest = s ∧ h.caps = [] := by
  induction s generalizing h with
  | nil =>
    simp only [manyHits, List.not_mem_nil, false_iff, not_and]
    intro hne _ happ
    exact absurd (List.append_eq_nil_iff.1 happ).1 hne
  | cons c rest ih =>
    unfold manyHits
    split
    · next hc =>
      rw [List.mem_append, List.mem_map, List.mem_singleton]
      constructor
      · rintro (⟨k, hk, rfl⟩ | rfl)
        · obtain ⟨-, hall, happ, hcaps⟩ := ih.1 hk
          refine ⟨by simp, ?_, by simp [happ], hcaps⟩
          intro d hd
          rcases List.mem_cons.1 hd with rfl | hd
          · exact hc
          · exact hall d hd
        · simp [hc]
      · rintro ⟨hne, hall, happ, hcaps⟩
        obtain ⟨taken, rest', caps⟩ := h
        obtain ⟨d, t, rfl⟩ := List.exists_cons_of_ne_nil hne
        simp only [List.cons_append, List.cons.injEq] at happ
        obtain ⟨rfl, happ⟩ := happ
        by_cases ht : t = []
        · subst ht
          right
          simp only at hcaps
          simp_all
        · left
          refine ⟨⟨t, rest', caps⟩, ih.2 ⟨ht, ?_, happ, hcaps⟩, rfl⟩
          exact fun e he => hall e (List.mem_cons_of_mem _ he)
    · next hc =>
      simp only [List.not_mem_nil, false_iff, not_and]
      intro hne hall happ
      obtain ⟨d, t, ht⟩ := List.exists_cons_of_ne_nil hne
      rw [ht, List.cons_append, List.cons.injEq] at happ
      exact absurd (happ.1 ▸ hall d (by simp [ht])) hc

@[simp] theorem mem_run_empty : h ∈ Re.run same .empty before s ↔ h = ⟨[], s, []⟩ := by
  simp [Re.run]

theorem mem_run_one (p : CharSet) :
    h ∈ Re.run same (.one p) before s ↔ ∃ c rest, s = c :: rest ∧ p.holds same c = true ∧
      h = ⟨[c], rest, []⟩ := by
  cases s with
  | nil => simp [Re.run]
  | cons c rest =>
    by_cases hc : p.holds same c = true
    · simp only [Re.run, hc, if_true, List.mem_singleton, List.cons.injEq]
      constructor
      · rintro rfl
        exact ⟨c, rest, ⟨rfl, rfl⟩, hc, rfl⟩
      · rintro ⟨d, rest', ⟨rfl, rfl⟩, -, rfl⟩
        rfl
    · simp only [Re.run, hc, List.cons.injEq]
      constructor
      · exact fun hmem => absurd hmem (by simp)
      · rintro ⟨d, rest', ⟨rfl, rfl⟩, hd, -⟩
        exact absurd hd hc

theorem mem_run_many (p : CharSet) :
    h ∈ Re.run same (.many p) before s ↔ h.taken ≠ [] ∧ (∀ c ∈ h.taken, p.holds same c = true) ∧
      h.taken ++ h.rest = s ∧ h.caps = [] := mem_manyHits p

theorem mem_run_bol : h ∈ Re.run same .bol before s ↔ before = [] ∧ h = ⟨[], s, []⟩ := by
  unfold Re.run
  split <;> simp_all

theorem mem_run_eol :
    h ∈ Re.run same .eol before s ↔ (s = [] ∨ s = ['\n']) ∧ h = ⟨[], s, []⟩ := by
  unfold Re.run
  split <;> simp_all

theorem mem_run_seq (x y : Re) :
    h ∈ Re.run same (.seq x y) before s ↔ ∃ k ∈ Re.run same x before s,
      ∃ l ∈ Re.run same y (before ++ k.taken) k.rest,
        h = ⟨k.taken ++ l.taken, l.rest, k.caps ++ l.caps⟩ := by
  simp only [Re.run, List.mem_flatMap, List.mem_map]
  constructor
  · rintro ⟨k, hk, l, hl, rfl⟩
    exact ⟨k, hk, l, hl, rfl⟩
  · rintro ⟨k, hk, l, hl, rfl⟩
    exact ⟨k, hk, l, hl, rfl⟩

theorem mem_run_alt (x y : Re) :
    h ∈ Re.run same (.alt x y) before s ↔
      (∃ k ∈ Re.run same x before s,
        h = { k with caps := k.caps ++ y.groups.map fun _ => none }) ∨
      ∃ k ∈ Re.run same y before s,
        h = { k with caps := (x.groups.map fun _ => none) ++ k.caps } := by
  simp only [Re.run, List.mem_append, List.mem_map]
  constructor
  · rintro (⟨k, hk, rfl⟩ | ⟨k, hk, rfl⟩)
    · exact .inl ⟨k, hk, rfl⟩
    · exact .inr ⟨k, hk, rfl⟩
  · rintro (⟨k, hk, rfl⟩ | ⟨k, hk, rfl⟩)
    · exact .inl ⟨k, hk, rfl⟩
    · exact .inr ⟨k, hk, rfl⟩

theorem mem_run_group (name : Option Text) (x : Re) :
    h ∈ Re.run same (.group name x) before s ↔ ∃ k ∈ Re.run same x before s,
      h = { k with caps := some k.taken :: k.caps } := by
  simp only [Re.run, List.mem_map]
  constructor
  · rintro ⟨k, hk, rfl⟩
    exact ⟨k, hk, rfl⟩
  · rintro ⟨k, hk, rfl⟩
    exact ⟨k, hk, rfl⟩

/-- A hit cuts the subject in two. -/
theorem taken_append_rest {r : Re} (hh : h ∈ r.run same before s) : h.taken ++ h.rest = s := by
  induction r generalizing before s h with
  | empty =>
    rw [mem_run_empty.1 hh]
    rfl
  | one p =>
    obtain ⟨c, rest, rfl, -, rfl⟩ := (mem_run_one p).1 hh
    rfl
  | many p => exact ((mem_run_many p).1 hh).2.2.1
  | bol =>
    rw [(mem_run_bol.1 hh).2]
    rfl
  | eol =>
    rw [(mem_run_eol.1 hh).2]
    rfl
  | seq x y ihx ihy =>
    obtain ⟨k, hk, l, hl, rfl⟩ := (mem_run_seq x y).1 hh
    rw [← ihx hk, ← ihy hl, List.append_assoc]
  | alt x y ihx ihy =>
    rcases (mem_run_alt x y).1 hh with ⟨k, hk, rfl⟩ | ⟨k, hk, rfl⟩
    · have hcut := ihx hk
      exact hcut
    · have hcut := ihy hk
      exact hcut
  | group name x ih =>
    obtain ⟨k, hk, rfl⟩ := (mem_run_group name x).1 hh
    have hcut := ih hk
    exact hcut

/-- Every group has its place among the captures. -/
theorem length_caps {r : Re} (hh : h ∈ r.run same before s) : h.caps.length = r.groups.length := by
  induction r generalizing before s h with
  | empty => rw [mem_run_empty.1 hh]; rfl
  | one p =>
    obtain ⟨c, rest, -, -, rfl⟩ := (mem_run_one p).1 hh
    rfl
  | many p => rw [((mem_run_many p).1 hh).2.2.2]; rfl
  | bol => rw [(mem_run_bol.1 hh).2]; rfl
  | eol => rw [(mem_run_eol.1 hh).2]; rfl
  | seq x y ihx ihy =>
    obtain ⟨k, hk, l, hl, rfl⟩ := (mem_run_seq x y).1 hh
    simp [Re.groups, ihx hk, ihy hl]
  | alt x y ihx ihy =>
    rcases (mem_run_alt x y).1 hh with ⟨k, hk, rfl⟩ | ⟨k, hk, rfl⟩
    · simp [Re.groups, ihx hk]
    · simp [Re.groups, ihy hk]
  | group name x ih =>
    obtain ⟨k, hk, rfl⟩ := (mem_run_group name x).1 hh
    simp [Re.groups, ih hk]

end Hits

/-! ## Searching -/

section Searching

variable {same : Char → Char → Bool}

/-- An expression that starts with `^` is matched at the start. -/
theorem search_bol (x : Re) (s : Text) :
    Re.search same (.seq .bol x) [] s = (Re.run same (.seq .bol x) [] s).head? := by
  have hlater : ∀ (s before : Text), before ≠ [] → Re.search same (.seq .bol x) before s = none := by
    intro s
    induction s with
    | nil =>
      intro before hne
      simp [Re.search, Re.run, hne]
    | cons c rest ih =>
      intro before hne
      have hnone : Re.run same (.seq .bol x) before (c :: rest) = [] := by simp [Re.run, hne]
      rw [Re.search, hnone]
      exact ih _ (by simp)
  cases s with
  | nil => rfl
  | cons c rest =>
    rw [Re.search]
    split
    · next h t heq => rw [heq]; rfl
    · next heq =>
      rw [heq]
      exact hlater rest ([] ++ [c]) (by simp)

end Searching

/-! ## Line breaks -/

section LineBreaks

variable {same : Char → Char → Bool}

/-- No character of a match is a line break. -/
def Re.OneLine (same : Char → Char → Bool) : Re → Prop
  | .one p | .many p => p.holds same '\n' = false
  | .seq x y | .alt x y => x.OneLine same ∧ y.OneLine same
  | .group _ x => x.OneLine same
  | _ => True

theorem lineBreak_notMem {r : Re} (hr : r.OneLine same) {before s : Text} {h : Hit}
    (hh : h ∈ r.run same before s) : '\n' ∉ h.taken := by
  induction r generalizing before s h with
  | empty => rw [mem_run_empty.1 hh]; simp
  | one p =>
    obtain ⟨c, rest, -, hc, rfl⟩ := (mem_run_one p).1 hh
    intro hmem
    rw [List.mem_singleton] at hmem
    have hline : p.holds same '\n' = false := hr
    rw [← hmem, hline] at hc
    cases hc
  | many p =>
    have hline : p.holds same '\n' = false := hr
    intro hmem
    have hc := ((mem_run_many p).1 hh).2.1 _ hmem
    rw [hline] at hc
    cases hc
  | bol => rw [(mem_run_bol.1 hh).2]; simp
  | eol => rw [(mem_run_eol.1 hh).2]; simp
  | seq x y ihx ihy =>
    obtain ⟨k, hk, l, hl, rfl⟩ := (mem_run_seq x y).1 hh
    simp [ihx hr.1 hk, ihy hr.2 hl]
  | alt x y ihx ihy =>
    rcases (mem_run_alt x y).1 hh with ⟨k, hk, rfl⟩ | ⟨k, hk, rfl⟩
    · have hnot := ihx hr.1 hk
      exact hnot
    · have hnot := ihy hr.2 hk
      exact hnot
  | group name x ih =>
    obtain ⟨k, hk, rfl⟩ := (mem_run_group name x).1 hh
    have hnot := ih hr hk
    exact hnot

/-- A hit with a line break after what is left. -/
def Hit.andBreak (h : Hit) : Hit := { h with rest := h.rest ++ ['\n'] }

theorem manyHits_lineBreak {p : CharSet} (hp : p.holds same '\n' = false) (s : Text) :
    manyHits same p (s ++ ['\n']) = (manyHits same p s).map Hit.andBreak := by
  induction s with
  | nil => simp [manyHits, hp]
  | cons c rest ih =>
    rw [List.cons_append, manyHits, manyHits, ih]
    split
    · simp [Hit.andBreak]
    · rfl

/-- **A line break at the end is not seen**: `$` matches before it, and nothing else takes it. -/
theorem run_lineBreak {r : Re} (hr : r.OneLine same) {s : Text} (hs : '\n' ∉ s) (before : Text) :
    r.run same before (s ++ ['\n']) = (r.run same before s).map Hit.andBreak := by
  induction r generalizing before s with
  | empty => rfl
  | one p =>
    cases s with
    | nil =>
      have hline : p.holds same '\n' = false := hr
      simp [Re.run, hline]
    | cons c rest =>
      simp only [List.cons_append, Re.run]
      split
      · rfl
      · rfl
  | many p => exact manyHits_lineBreak hr s
  | bol =>
    unfold Re.run
    split
    · rfl
    · rfl
  | eol =>
    unfold Re.run
    cases s with
    | nil => rfl
    | cons c rest =>
      have hne : ¬ (c :: rest = [] ∨ c :: rest = ['\n']) := by
        rintro (hnil | hbreak)
        · cases hnil
        · rw [hbreak] at hs
          exact hs (by simp)
      have hne' : ¬ (c :: rest ++ ['\n'] = [] ∨ c :: rest ++ ['\n'] = ['\n']) := by simp
      rw [if_neg hne, if_neg hne']
      rfl
  | seq x y ihx ihy =>
    have hstep : ∀ h ∈ x.run same before s,
        (y.run same (before ++ h.taken) (h.rest ++ ['\n'])).map
          (fun k => (⟨h.taken ++ k.taken, k.rest, h.caps ++ k.caps⟩ : Hit))
        = ((y.run same (before ++ h.taken) h.rest).map
          fun k => (⟨h.taken ++ k.taken, k.rest, h.caps ++ k.caps⟩ : Hit)).map Hit.andBreak := by
      intro h hh
      have hrest : '\n' ∉ h.rest := by
        intro hmem
        refine hs ?_
        rw [← taken_append_rest hh]
        exact List.mem_append_right _ hmem
      rw [ihy hr.2 hrest, List.map_map, List.map_map]
      rfl
    unfold Re.run
    rw [ihx hr.1 hs, List.flatMap_map, List.map_flatMap]
    exact List.flatMap_congr hstep
  | alt x y ihx ihy =>
    unfold Re.run
    rw [ihx hr.1 hs, ihy hr.2 hs]
    simp only [List.map_map, List.map_append]
    rfl
  | group name x ih =>
    unfold Re.run
    rw [ih hr hs]
    simp only [List.map_map]
    rfl

end LineBreaks

end LibEvmvc
