import LibEvmvc.Routing.RoutePattern

set_option autoImplicit false

/-! # Which URLs a route matches

The documentation says what a path means segment by segment (`reads`): a literal is compared without
regard to case, a parameter stands for one segment, an optional one may be absent together with all
that follow, `*` stands for at most one segment and `**` for any number. The expression asks for one
segment at least where a wildcard stands. -/

namespace LibEvmvc

/-- The text of a URL. -/
def urlText (us : List Text) (slash : Bool) : Text :=
  us.flatMap ('/' :: ·) ++ if slash then ['/'] else []

section Reading

variable (same : Char → Char → Bool)

/-- Two texts are the same but for the case of their letters. -/
def sameText : Text → Text → Bool
  | [], [] => true
  | c :: t, d :: u => same c d && sameText t u
  | _, _ => false

/-- What a path says about the segments of a URL, and the values of its parameters, where a wildcard
    stands for no fewer than `least` segments. -/
def reads (least : Nat) : List RoutePart → List Text → Option (List (Text × Text))
  | [], us => if us = [] then some [] else none
  | .lit t :: ps, u :: us => if sameText same t u then reads least ps us else none
  | .param name :: ps, u :: us => (reads least ps us).map ((name, u) :: ·)
  -- an optional parameter is absent together with all that follow
  | .opt _ :: _, [] => some []
  | .opt name :: ps, u :: us => (reads least ps us).map ((name, u) :: ·)
  | .star :: _, us => if least ≤ us.length ∧ us.length ≤ 1 then some [] else none
  | .stars :: _, us => if least ≤ us.length then some [] else none
  | _ :: _, [] => none

/-- The path reads the URL up to its wildcard, and nothing is left for that. -/
def LeavesNothing : List RoutePart → List Text → Prop
  | .lit t :: ps, u :: us => sameText same t u = true ∧ LeavesNothing ps us
  | .param _ :: ps, _ :: us | .opt _ :: ps, _ :: us => LeavesNothing ps us
  | .star :: _, [] | .stars :: _, [] => True
  | _, _ => False

end Reading

/-- A match is as documented: it is there if the path reads the URL, where a wildcard may stand for
    nothing, and binds the parameters to the segments. -/
structure AsDocumented (pcre : Pcre) (ps : List RoutePart) (us : List Text) (m : MatchResult) :
    Prop where
  found : (∃ params, m = .found params) ↔ (reads pcre.caseless.same 0 ps us).isSome = true
  params : ∀ params bs, m = .found params → reads pcre.caseless.same 0 ps us = some bs →
    params.Perm (bs.map fun b => (b.1, pcre.uridecode b.2))


/-! ## Hits of a segment -/

section Hits

variable {cl : Caseless} {before s x y u w : Text} {h : Hit}

/-- The text after a segment. -/
def AfterSeg (x : Text) : Prop := x = [] ∨ ∃ t, x = '/' :: t

/-- Segments end at the same `/`. -/
theorem seg_unique (hu : '/' ∉ u) (hw : '/' ∉ w) (hx : AfterSeg x) (hy : AfterSeg y)
    (h : u ++ x = w ++ y) : u = w ∧ x = y := by
  induction u generalizing w with
  | nil =>
    cases w with
    | nil => exact ⟨rfl, h⟩
    | cons d w =>
      rcases hx with rfl | ⟨t, rfl⟩
      · cases h
      · rw [List.nil_append, List.cons_append, List.cons.injEq] at h
        exact absurd (h.1 ▸ List.mem_cons_self) hw
  | cons c u ih =>
    cases w with
    | nil =>
      rcases hy with rfl | ⟨t, rfl⟩
      · cases h
      · rw [List.nil_append, List.cons_append, List.cons.injEq] at h
        exact absurd (h.1 ▸ List.mem_cons_self) hu
    | cons d w =>
      rw [List.cons_append, List.cons_append, List.cons.injEq] at h
      obtain ⟨rfl, h⟩ := h
      obtain ⟨rfl, rfl⟩ := ih (fun hm => hu (List.mem_cons_of_mem _ hm))
        (fun hm => hw (List.mem_cons_of_mem _ hm)) h
      exact ⟨rfl, rfl⟩

theorem mem_run_slash :
    h ∈ slashRe.run cl.same before s ↔ ∃ t, s = '/' :: t ∧ h = ⟨['/'], t, []⟩ := by
  rw [slashRe, mem_run_one]
  constructor
  · rintro ⟨c, t, rfl, hc, rfl⟩
    obtain rfl := (cl.slash_iff c).1 hc
    exact ⟨t, rfl, rfl⟩
  · rintro ⟨t, rfl, rfl⟩
    exact ⟨'/', t, rfl, (cl.slash_iff '/').2 rfl, rfl⟩

/-- A literal takes a text that is the same but for its case. -/
theorem mem_run_litRe (same : Char → Char → Bool) (t : Text) :
    h ∈ (litRe t).run same before s ↔
      sameText same t h.taken = true ∧ h.taken ++ h.rest = s ∧ h.caps = [] := by
  induction t generalizing before s h with
  | nil =>
    rw [litRe, mem_run_empty]
    constructor
    · rintro rfl
      exact ⟨rfl, rfl, rfl⟩
    · rintro ⟨hsame, rfl, hcaps⟩
      obtain ⟨taken, rest, caps⟩ := h
      cases taken with
      | nil =>
        simp only at hcaps
        subst hcaps
        rfl
      | cons c taken => cases hsame
  | cons c t ih =>
    rw [litRe, mem_run_seq]
    constructor
    · rintro ⟨k, hk, l, hl, rfl⟩
      obtain ⟨d, rest, rfl, hd, rfl⟩ := (mem_run_one _).1 hk
      obtain ⟨hsame, hcut, hcaps⟩ := ih.1 hl
      have hhead : same c d = true := hd
      refine ⟨?_, ?_, ?_⟩
      · show (same c d && sameText same t l.taken) = true
        rw [hhead, hsame]
        rfl
      · show d :: (l.taken ++ l.rest) = _
        rw [hcut]
      · exact hcaps
    · rintro ⟨hsame, rfl, hcaps⟩
      obtain ⟨taken, rest, caps⟩ := h
      cases taken with
      | nil => cases hsame
      | cons d taken =>
        have hboth : same c d = true ∧ sameText same t taken = true := by
          simpa [sameText] using hsame
        refine ⟨⟨[d], taken ++ rest, []⟩, (mem_run_one _).2 ⟨d, taken ++ rest, rfl, hboth.1, rfl⟩,
          ⟨taken, rest, caps⟩, ih.2 ⟨hboth.2, rfl, hcaps⟩, rfl⟩

/-- A literal of letters and digits takes no character that is the same as none of them. -/
theorem notMem_of_sameText {same : Char → Char → Bool} {e : Char}
    (he : ∀ c, c.isAlphanum = true → same c e = false) {t : Text}
    (ht : ∀ c ∈ t, c.isAlphanum = true) (h : sameText same t w = true) : e ∉ w := by
  induction t generalizing w with
  | nil =>
    cases w with
    | nil => simp
    | cons d w => cases h
  | cons c t ih =>
    cases w with
    | nil => cases h
    | cons d w =>
      have hboth : same c d = true ∧ sameText same t w = true := by simpa [sameText] using h
      intro hmem
      rcases List.mem_cons.1 hmem with rfl | hmem
      · rw [he c (ht c List.mem_cons_self)] at hboth
        exact absurd hboth.1 Bool.false_ne_true
      · exact ih (fun f hf => ht f (List.mem_cons_of_mem _ hf)) hboth.2 hmem

theorem mem_run_segRe (same : Char → Char → Bool) :
    h ∈ segRe.run same before s ↔
      h.taken ≠ [] ∧ ('/' ∉ h.taken ∧ '\n' ∉ h.taken) ∧ h.taken ++ h.rest = s ∧ h.caps = [] := by
  have hholds : ∀ c, CharSet.holds same (.notIn ['/', '\n']) c = true ↔ c ≠ '/' ∧ c ≠ '\n' := by
    intro c
    simp [CharSet.holds]
  rw [segRe, mem_run_many]
  simp only [hholds]
  constructor
  · rintro ⟨hne, hall, hcut, hcaps⟩
    exact ⟨hne, ⟨fun hm => (hall _ hm).1 rfl, fun hm => (hall _ hm).2 rfl⟩, hcut, hcaps⟩
  · rintro ⟨hne, ⟨hslash, hbreak⟩, hcut, hcaps⟩
    refine ⟨hne, fun c hc => ⟨?_, ?_⟩, hcut, hcaps⟩
    · rintro rfl
      exact hslash hc
    · rintro rfl
      exact hbreak hc

/-- What a segment of a path asks of a segment of a URL. -/
def RoutePart.Takes (same : Char → Char → Bool) : RoutePart → Text → Prop
  | .lit t, u => sameText same t u = true
  | _, _ => True

/-- What the groups of a segment capture. -/
def RoutePart.caps : RoutePart → Text → List (Option Text)
  | .param _, u | .opt _, u => [some u]
  | _, _ => []

/-- A segment of a path other than `**` takes a text without a `/` or a line break. -/
theorem mem_run_part {p : RoutePart} (hok : p.Ok) (hp : p ≠ .stars) :
    h ∈ p.re.run cl.same before s ↔
      (h.taken ≠ [] ∧ '/' ∉ h.taken ∧ '\n' ∉ h.taken ∧ p.Takes cl.same h.taken) ∧
        h.taken ++ h.rest = s ∧ h.caps = p.caps h.taken := by
  have hgroup : ∀ name, h ∈ (Re.group (some name) segRe).run cl.same before s ↔
      (h.taken ≠ [] ∧ '/' ∉ h.taken ∧ '\n' ∉ h.taken ∧ True) ∧
        h.taken ++ h.rest = s ∧ h.caps = [some h.taken] := by
    intro name
    rw [mem_run_group]
    constructor
    · rintro ⟨k, hk, rfl⟩
      obtain ⟨hne, ⟨hslash, hbreak⟩, hcut, hcaps⟩ := (mem_run_segRe _).1 hk
      exact ⟨⟨hne, hslash, hbreak, trivial⟩, hcut, by rw [hcaps]⟩
    · rintro ⟨⟨hne, hslash, hbreak, -⟩, hcut, hcaps⟩
      refine ⟨⟨h.taken, h.rest, []⟩, (mem_run_segRe _).2 ⟨hne, ⟨hslash, hbreak⟩, hcut, rfl⟩, ?_⟩
      rw [← hcaps]
  cases p with
  | stars => exact absurd rfl hp
  | param name => exact hgroup name
  | opt name => exact hgroup name
  | star =>
    refine (mem_run_segRe cl.same).trans ⟨?_, ?_⟩
    · rintro ⟨hne, ⟨hslash, hbreak⟩, hcut, hcaps⟩
      exact ⟨⟨hne, hslash, hbreak, trivial⟩, hcut, hcaps⟩
    · rintro ⟨⟨hne, hslash, hbreak, -⟩, hcut, hcaps⟩
      exact ⟨hne, ⟨hslash, hbreak⟩, hcut, hcaps⟩
  | lit t =>
    refine (mem_run_litRe cl.same t).trans ⟨?_, ?_⟩
    · rintro ⟨hsame, hcut, hcaps⟩
      have hslash := notMem_of_sameText cl.slash hok.2 hsame
      have hbreak := notMem_of_sameText cl.lineBreak hok.2 hsame
      refine ⟨⟨?_, hslash, hbreak, hsame⟩, hcut, hcaps⟩
      intro hnil
      obtain ⟨c, t, rfl⟩ := List.exists_cons_of_ne_nil hok.1
      rw [hnil] at hsame
      cases hsame
    · rintro ⟨⟨-, -, -, hsame⟩, hcut, hcaps⟩
      exact ⟨hsame, hcut, hcaps⟩

end Hits

/-! ## Hits of a path -/

section Paths

variable {cl : Caseless} {before s : Text} {h : Hit} {ps : List RoutePart} {us : List Text}
  {slash : Bool}

/-- What is left of a URL when the path is read: nothing, or a last `/`. -/
def Ends (rest : Text) : Prop := rest = [] ∨ rest = ['/']

/-- The segments of a URL without line breaks. -/
def PlainSegs (us : List Text) : Prop := ∀ u ∈ us, u ≠ [] ∧ '/' ∉ u ∧ '\n' ∉ u

theorem urlText_cons (u : Text) (us : List Text) (slash : Bool) :
    urlText (u :: us) slash = '/' :: (u ++ urlText us slash) := by
  simp [urlText]

theorem urlText_nil_ends (slash : Bool) : Ends (urlText [] slash) := by
  cases slash with
  | false => exact .inl rfl
  | true => exact .inr rfl

theorem urlText_after (us : List Text) (slash : Bool) : AfterSeg (urlText us slash) := by
  cases us with
  | nil =>
    rcases urlText_nil_ends slash with hnil | hslash
    · exact .inl hnil
    · exact .inr ⟨[], hslash⟩
  | cons u us => exact .inr ⟨u ++ urlText us slash, urlText_cons u us slash⟩

theorem ends_urlText (hus : PlainSegs us) : Ends (urlText us slash) ↔ us = [] := by
  constructor
  · intro hends
    cases us with
    | nil => rfl
    | cons u us =>
      have hne := (hus u List.mem_cons_self).1
      rw [urlText_cons] at hends
      rcases hends with hnil | hslash
      · cases hnil
      · rw [List.cons.injEq] at hslash
        exact absurd (List.append_eq_nil_iff.1 hslash.2).1 hne
  · rintro rfl
    exact urlText_nil_ends slash

theorem lineBreak_notMem_urlText (hus : PlainSegs us) : '\n' ∉ urlText us slash := by
  unfold urlText
  rw [List.mem_append, List.mem_flatMap, not_or]
  constructor
  · rintro ⟨u, hu, hmem⟩
    rcases List.mem_cons.1 hmem with hslash | hmem
    · cases hslash
    · exact (hus u hu).2.2 hmem
  · cases slash <;> simp

/-- One segment of a path and those that follow it. -/
def stepRe (p : RoutePart) (ps : List RoutePart) : Re := .seq slashRe (.seq p.re (partsRe ps))

theorem partsRe_cons {p : RoutePart} (hp : p.isOpt = false) : partsRe (p :: ps) = stepRe p ps := by
  cases p with
  | opt name => cases hp
  | _ => rfl

/-- The groups of a segment and of those that follow it capture nothing. -/
def noCaps (p : RoutePart) (ps : List RoutePart) : List (Option Text) :=
  (stepRe p ps).groups.map fun _ => none

/-- An optional parameter is absent at the end of the URL or at its last `/`, and else read. -/
theorem mem_run_opt (name : Text) :
    h ∈ (partsRe (.opt name :: ps)).run cl.same before s ↔
      ((s = [] ∨ s = ['\n']) ∧ h = ⟨[], s, some [] :: noCaps (.opt name) ps⟩) ∨
      (∃ t, s = '/' :: t ∧ (t = [] ∨ t = ['\n']) ∧
        h = ⟨['/'], t, some ['/'] :: noCaps (.opt name) ps⟩) ∨
      ∃ k ∈ (stepRe (.opt name) ps).run cl.same before s,
        h = ⟨k.taken, k.rest, some k.taken :: k.caps⟩ := by
  have hend : ∀ k : Hit, k ∈ (Re.seq slashRe .eol).run cl.same before s ↔
      ∃ t, s = '/' :: t ∧ (t = [] ∨ t = ['\n']) ∧ k = ⟨['/'], t, []⟩ := by
    intro k
    rw [mem_run_seq]
    constructor
    · rintro ⟨k, hk, l, hl, rfl⟩
      obtain ⟨t, rfl, rfl⟩ := mem_run_slash.1 hk
      obtain ⟨ht, rfl⟩ := mem_run_eol.1 hl
      exact ⟨t, rfl, ht, rfl⟩
    · rintro ⟨t, rfl, ht, rfl⟩
      exact ⟨⟨['/'], t, []⟩, mem_run_slash.2 ⟨t, rfl, rfl⟩, ⟨[], t, []⟩, mem_run_eol.2 ⟨ht, rfl⟩, rfl⟩
  rw [partsRe, mem_run_group]
  constructor
  · rintro ⟨k, hk, rfl⟩
    rcases (mem_run_alt _ _).1 hk with ⟨l, hl, rfl⟩ | ⟨l, hl, rfl⟩
    · obtain ⟨hs, rfl⟩ := mem_run_eol.1 hl
      exact .inl ⟨hs, rfl⟩
    · rcases (mem_run_alt _ _).1 hl with ⟨m, hm, rfl⟩ | ⟨m, hm, rfl⟩
      · obtain ⟨t, rfl, ht, rfl⟩ := (hend m).1 hm
        exact .inr (.inl ⟨t, rfl, ht, rfl⟩)
      · exact .inr (.inr ⟨m, hm, rfl⟩)
  · rintro (⟨hs, rfl⟩ | ⟨t, rfl, ht, rfl⟩ | ⟨k, hk, rfl⟩)
    · refine ⟨⟨[], s, noCaps (.opt name) ps⟩, (mem_run_alt _ _).2 (.inl ⟨⟨[], s, []⟩, ?_, rfl⟩), rfl⟩
      exact mem_run_eol.2 ⟨hs, rfl⟩
    · have hlast := (hend ⟨['/'], t, []⟩).2 ⟨t, rfl, ht, rfl⟩
      exact ⟨⟨['/'], t, noCaps (.opt name) ps⟩, (mem_run_alt _ _).2 (.inr
        ⟨⟨['/'], t, noCaps (.opt name) ps⟩, (mem_run_alt _ _).2 (.inl ⟨_, hlast, rfl⟩), rfl⟩), rfl⟩
    · exact ⟨k, (mem_run_alt _ _).2 (.inr ⟨k, (mem_run_alt _ _).2 (.inr ⟨k, hk, rfl⟩), rfl⟩), rfl⟩

/-- A path is read from a `/` on, or where the URL ends. -/
theorem partsRe_after (hs : '\n' ∉ s) (hh : h ∈ (partsRe ps).run cl.same before s)
    (hends : Ends h.rest) : AfterSeg s := by
  have hstep : ∀ (k : Hit) (p : RoutePart) (ps : List RoutePart),
      k ∈ (stepRe p ps).run cl.same before s → AfterSeg s := by
    intro k p ps hk
    obtain ⟨l, hl, -⟩ := (mem_run_seq _ _).1 hk
    obtain ⟨t, rfl, -⟩ := mem_run_slash.1 hl
    exact .inr ⟨t, rfl⟩
  cases ps with
  | nil =>
    rw [mem_run_empty.1 hh] at hends
    exact hends.imp_right fun hslash => ⟨[], hslash⟩
  | cons p ps =>
    cases hp : p.isOpt with
    | false =>
      rw [partsRe_cons hp] at hh
      exact hstep h p ps hh
    | true =>
      cases p with
      | opt name =>
        rcases (mem_run_opt name).1 hh with ⟨hnil | hbreak, -⟩ | ⟨t, rfl, -⟩ | ⟨k, hk, -⟩
        · exact .inl hnil
        · rw [hbreak] at hs
          exact absurd (List.mem_singleton.2 rfl) hs
        · exact .inr ⟨t, rfl⟩
        · exact hstep k _ ps hk
      | _ => cases hp

/-- **One segment of a path is one segment of the URL.** -/
theorem mem_run_step {p : RoutePart} (hok : p.Ok) (hp : p ≠ .stars) (hus : PlainSegs us) :
    (h ∈ (stepRe p ps).run cl.same before (urlText us slash) ∧ Ends h.rest) ↔
      ∃ u us', us = u :: us' ∧ p.Takes cl.same u ∧
        ∃ k ∈ (partsRe ps).run cl.same (before ++ ['/'] ++ u) (urlText us' slash), Ends k.rest ∧
          h = ⟨['/'] ++ (u ++ k.taken), k.rest, p.caps u ++ k.caps⟩ := by
  constructor
  · rintro ⟨hh, hends⟩
    obtain ⟨k, hk, l, hl, rfl⟩ := (mem_run_seq _ _).1 hh
    obtain ⟨t, htext, rfl⟩ := mem_run_slash.1 hk
    obtain ⟨m, hm, n, hn, rfl⟩ := (mem_run_seq _ _).1 hl
    obtain ⟨⟨hne, hslash, -, htakes⟩, hcut, hcaps⟩ := (mem_run_part hok hp).1 hm
    have hcut : m.taken ++ m.rest = t := hcut
    cases us with
    | nil =>
      -- the last `/` is followed by nothing, and a segment takes something
      have ht : t = [] := by
        rcases urlText_nil_ends slash with hnil | hlast
        · rw [hnil] at htext
          cases htext
        · rw [hlast, List.cons.injEq] at htext
          exact htext.2.symm
      rw [ht] at hcut
      exact absurd (List.append_eq_nil_iff.1 hcut).1 hne
    | cons u us =>
      rw [urlText_cons, List.cons.injEq] at htext
      have hbreak : '\n' ∉ urlText (u :: us) slash := lineBreak_notMem_urlText hus
      have hrest : '\n' ∉ m.rest := by
        intro hmem
        refine hbreak ?_
        rw [urlText_cons, htext.2, ← hcut]
        simp [hmem]
      have hafter := partsRe_after hrest hn hends
      obtain ⟨hu, hx⟩ := seg_unique (hus u List.mem_cons_self).2.1 hslash (urlText_after us slash)
        hafter (htext.2.trans hcut.symm)
      subst hu
      refine ⟨m.taken, us, rfl, htakes, n, ?_, hends, ?_⟩
      · rw [hx]
        exact hn
      · simp [hcaps]
  · rintro ⟨u, us', rfl, htakes, k, hk, hends, rfl⟩
    refine ⟨?_, hends⟩
    obtain ⟨hne, hslash, hbreak⟩ := hus u List.mem_cons_self
    refine (mem_run_seq _ _).2 ⟨⟨['/'], u ++ urlText us' slash, []⟩, ?_,
      ⟨u ++ k.taken, k.rest, p.caps u ++ k.caps⟩, ?_, rfl⟩
    · exact mem_run_slash.2 ⟨u ++ urlText us' slash, urlText_cons u us' slash, rfl⟩
    · refine (mem_run_seq _ _).2 ⟨⟨u, urlText us' slash, p.caps u⟩, ?_, k, hk, rfl⟩
      exact (mem_run_part hok hp).2 ⟨⟨hne, hslash, hbreak, htakes⟩, rfl, rfl⟩

end Paths

/-! ## Parameters -/

section Parameters

variable {cl : Caseless} {ps : List RoutePart} {us : List Text} {slash : Bool}

/-- The named groups that have captured something. -/
def bound (names caps : List (Option Text)) : List (Text × Text) :=
  (names.zip caps).filterMap fun g => g.1.bind fun name => g.2.map fun t => (name, t)

theorem bound_append {names caps : List (Option Text)} (h : names.length = caps.length)
    (names' caps' : List (Option Text)) :
    bound (names ++ names') (caps ++ caps') = bound names caps ++ bound names' caps' := by
  unfold bound
  rw [List.zip_append h, List.filterMap_append]

theorem bound_none (names : List (Option Text)) : bound names (names.map fun _ => none) = [] := by
  induction names with
  | nil => rfl
  | cons n names ih =>
    cases n with
    | none => exact ih
    | some name => exact ih

/-- The parameter a segment is bound to. -/
def RoutePart.binds (p : RoutePart) (u : Text) : List (Text × Text) :=
  p.name?.toList.map fun name => (name, u)

theorem groups_litRe (t : Text) : (litRe t).groups = [] := by
  induction t with
  | nil => rfl
  | cons c t ih => exact ih

theorem bound_part (p : RoutePart) (u : Text) : bound p.re.groups (p.caps u) = p.binds u := by
  cases p with
  | lit t =>
    have hgroups : (RoutePart.lit t).re.groups = [] := groups_litRe t
    rw [hgroups]
    rfl
  | _ => rfl

theorem length_part (p : RoutePart) (u : Text) : p.re.groups.length = (p.caps u).length := by
  cases p with
  | lit t => exact congrArg List.length (groups_litRe t)
  | _ => rfl

theorem bound_step (p : RoutePart) (u : Text) (caps : List (Option Text)) :
    bound (stepRe p ps).groups (p.caps u ++ caps) = p.binds u ++ bound (partsRe ps).groups caps := by
  show bound (p.re.groups ++ (partsRe ps).groups) _ = _
  rw [bound_append (length_part p u), bound_part]

/-- How a path reads a URL, one segment at a time. -/
theorem reads_step (same : Char → Char → Bool) {p : RoutePart} (hp : p ≠ .stars)
    (hstar : p = .star → ps = []) (u : Text) (us : List Text) :
    (p.Takes same u → reads same 1 (p :: ps) (u :: us) = (reads same 1 ps us).map (p.binds u ++ ·)) ∧
      (¬ p.Takes same u → reads same 1 (p :: ps) (u :: us) = none) := by
  cases p with
  | stars => exact absurd rfl hp
  | lit t =>
    constructor
    · intro htakes
      have htakes : sameText same t u = true := htakes
      show (if sameText same t u = true then reads same 1 ps us else none) = _
      rw [if_pos htakes]
      exact (Option.map_id_apply).symm
    · intro htakes
      exact if_neg htakes
  | param name => exact ⟨fun _ => rfl, fun htakes => absurd trivial htakes⟩
  | opt name => exact ⟨fun _ => rfl, fun htakes => absurd trivial htakes⟩
  | star =>
    obtain rfl := hstar rfl
    refine ⟨fun _ => ?_, fun htakes => absurd trivial htakes⟩
    cases us with
    | nil => rfl
    | cons v us => rfl

/-- The hits of a path and its reading say the same. -/
structure Tells (cl : Caseless) (ps : List RoutePart) (us : List Text) (slash : Bool) (r : Re)
    (before : Text) : Prop where
  sound : ∀ h ∈ r.run cl.same before (urlText us slash), Ends h.rest →
    reads cl.same 1 ps us = some (bound r.groups h.caps)
  complete : (reads cl.same 1 ps us).isSome = true →
    ∃ h ∈ r.run cl.same before (urlText us slash), Ends h.rest

theorem tells_step {p : RoutePart} (hok : p.Ok) (hp : p ≠ .stars) (hstar : p = .star → ps = [])
    {u : Text} (hus : PlainSegs (u :: us))
    (ih : ∀ before, Tells cl ps us slash (partsRe ps) before) (before : Text) :
    Tells cl (p :: ps) (u :: us) slash (stepRe p ps) before := by
  obtain ⟨htaken, hnot⟩ := reads_step cl.same hp hstar u us
  constructor
  · intro h hh hends
    obtain ⟨v, us', heq, htakes, k, hk, hkends, rfl⟩ := (mem_run_step hok hp hus).1 ⟨hh, hends⟩
    obtain ⟨rfl, rfl⟩ := List.cons.inj heq
    rw [htaken htakes, (ih _).sound k hk hkends, bound_step]
    rfl
  · intro hsome
    by_cases htakes : p.Takes cl.same u
    · rw [htaken htakes, Option.isSome_map] at hsome
      obtain ⟨k, hk, hends⟩ := (ih (before ++ ['/'] ++ u)).complete hsome
      obtain ⟨hh, hends⟩ := (mem_run_step hok hp hus).2 ⟨u, us, rfl, htakes, k, hk, hends, rfl⟩
      exact ⟨_, hh, hends⟩
    · rw [hnot htakes] at hsome
      cases hsome

/-- A segment that may not be absent. -/
theorem tells_step_nil {p : RoutePart} (hok : p.Ok) (hp : p ≠ .stars) (hopt : p.isOpt = false)
    (before : Text) : Tells cl (p :: ps) [] slash (stepRe p ps) before := by
  constructor
  · intro h hh hends
    obtain ⟨v, us', heq, -⟩ := (mem_run_step hok hp (by nofun)).1 ⟨hh, hends⟩
    cases heq
  · intro hsome
    cases p with
    | opt name => cases hopt
    | stars => exact absurd rfl hp
    | _ => cases hsome

/-- `**` takes the rest of the URL, if there is any. -/
theorem tells_stars (hus : PlainSegs us) (before : Text) :
    Tells cl [.stars] us slash (stepRe .stars []) before := by
  constructor
  · intro h hh hends
    obtain ⟨k, hk, l, hl, rfl⟩ := (mem_run_seq _ _).1 hh
    obtain ⟨t, htext, rfl⟩ := mem_run_slash.1 hk
    obtain ⟨m, hm, n, hn, rfl⟩ := (mem_run_seq _ _).1 hl
    obtain ⟨hne, -, hcut, hcaps⟩ := (mem_run_many _).1 hm
    cases us with
    | nil =>
      rcases urlText_nil_ends slash with hnil | hlast
      · rw [hnil] at htext
        cases htext
      · rw [hlast, List.cons.injEq] at htext
        rw [← htext.2] at hcut
        exact absurd (List.append_eq_nil_iff.1 hcut).1 hne
    | cons u us =>
      show (if 1 ≤ (u :: us).length then some [] else none) = _
      rw [if_pos (by simp)]
      rfl
  · intro hsome
    cases us with
    | nil => cases hsome
    | cons u us =>
      have hbreak : '\n' ∉ urlText (u :: us) slash := lineBreak_notMem_urlText hus
      have hne : u ++ urlText us slash ≠ [] := by simp [(hus u List.mem_cons_self).1]
      rw [urlText_cons] at hbreak ⊢
      refine ⟨⟨'/' :: (u ++ urlText us slash), [], []⟩, ?_, .inl rfl⟩
      refine (mem_run_seq _ _).2 ⟨⟨['/'], u ++ urlText us slash, []⟩, mem_run_slash.2 ⟨_, rfl, rfl⟩,
        ⟨u ++ urlText us slash, [], []⟩, ?_, rfl⟩
      refine (mem_run_seq _ _).2 ⟨⟨u ++ urlText us slash, [], []⟩, ?_, ⟨[], [], []⟩,
        mem_run_empty.2 rfl, by simp⟩
      refine (mem_run_many _).2 ⟨hne, ?_, List.append_nil _, rfl⟩
      intro c hc
      have hcne : c ≠ '\n' := by
        rintro rfl
        exact hbreak (List.mem_cons_of_mem _ hc)
      simpa [CharSet.holds] using hcne

theorem ShapedParts.of_trailing (h : TrailingParts ps) : ShapedParts ps := by
  cases ps with
  | nil => exact h
  | cons p ps =>
    cases p with
    | lit t => exact absurd h id
    | param name => exact absurd h id
    | _ => exact h

/-- **The expression of a path matches the URLs that the path reads**, where a wildcard stands for one
    segment at least. The induction follows the segments of the path. -/
theorem tells_parts (hok : ∀ p ∈ ps, p.Ok) (hshape : ShapedParts ps) (hus : PlainSegs us)
    (before : Text) : Tells cl ps us slash (partsRe ps) before := by
  induction ps generalizing us before with
  | nil =>
    constructor
    · intro h hh hends
      rw [mem_run_empty.1 hh] at hends ⊢
      obtain rfl := (ends_urlText hus).1 hends
      rfl
    · intro hsome
      have hnil : us = [] := by
        by_contra hne
        rw [reads, if_neg hne] at hsome
        cases hsome
      exact ⟨_, mem_run_empty.2 rfl, (ends_urlText hus).2 hnil⟩
  | cons p ps ih =>
    have hp := hok p List.mem_cons_self
    have hoks : ∀ q ∈ ps, q.Ok := fun q hq => hok q (List.mem_cons_of_mem _ hq)
    have htail : ∀ {u us}, PlainSegs (u :: us) → PlainSegs us :=
      fun hus v hv => hus v (List.mem_cons_of_mem _ hv)
    -- a literal, a parameter or `*`
    have hplain : p.isOpt = false → p ≠ .stars → (p = .star → ps = []) → ShapedParts ps →
        Tells cl (p :: ps) us slash (partsRe (p :: ps)) before := by
      intro hopt hstars hstar hshape
      rw [partsRe_cons hopt]
      cases us with
      | nil => exact tells_step_nil hp hstars hopt before
      | cons u us =>
        exact tells_step hp hstars hstar hus (fun before => ih hoks hshape (htail hus) before) before
    cases p with
    | lit t => exact hplain rfl nofun nofun hshape
    | param name => exact hplain rfl nofun nofun hshape
    | star =>
      have hnil : ps = [] := by
        cases ps with
        | nil => rfl
        | cons q ps => exact absurd hshape id
      subst hnil
      exact hplain rfl nofun (fun _ => rfl) trivial
    | stars =>
      have hnil : ps = [] := by
        cases ps with
        | nil => rfl
        | cons q ps => exact absurd hshape id
      subst hnil
      exact tells_stars hus before
    | opt name =>
      have hshape : ShapedParts ps := .of_trailing hshape
      have hgroups : (partsRe (.opt name :: ps)).groups
          = none :: (stepRe (.opt name) ps).groups := rfl
      have hbreak : '\n' ∉ urlText us slash := lineBreak_notMem_urlText hus
      constructor
      · intro h hh hends
        rw [hgroups]
        have habsent : ∀ t, us = [] → reads cl.same 1 (.opt name :: ps) us
            = some (bound (none :: (stepRe (.opt name) ps).groups)
              (some t :: noCaps (.opt name) ps)) := by
          rintro t rfl
          exact congrArg some (bound_none (stepRe (.opt name) ps).groups).symm
        rcases (mem_run_opt name).1 hh with ⟨hs | hs, rfl⟩ | ⟨t, hs, ht, rfl⟩ | ⟨k, hk, rfl⟩
        · have hends : Ends (urlText us slash) := .inl hs
          exact habsent [] ((ends_urlText hus).1 hends)
        · rw [hs] at hbreak
          exact absurd (List.mem_singleton.2 rfl) hbreak
        · rcases ht with rfl | rfl
          · have hends : Ends (urlText us slash) := .inr hs
            exact habsent ['/'] ((ends_urlText hus).1 hends)
          · rw [hs] at hbreak
            exact absurd (by simp) hbreak
        · cases us with
          | nil =>
            obtain ⟨v, us', heq, -⟩ := (mem_run_step hp nofun hus).1 ⟨hk, hends⟩
            cases heq
          | cons u us =>
            exact (tells_step hp nofun nofun hus (fun before => ih hoks hshape (htail hus) before)
              before).sound k hk hends
      · intro hsome
        cases us with
        | nil =>
          rcases urlText_nil_ends slash with hnil | hlast
          · exact ⟨_, (mem_run_opt name).2 (.inl ⟨.inl hnil, rfl⟩), .inl hnil⟩
          · exact ⟨_, (mem_run_opt name).2 (.inr (.inl ⟨[], hlast, .inl rfl, rfl⟩)), .inl rfl⟩
        | cons u us =>
          obtain ⟨k, hk, hends⟩ := (tells_step hp nofun nofun hus
            (fun before => ih hoks hshape (htail hus) before) before).complete hsome
          exact ⟨_, (mem_run_opt name).2 (.inr (.inr ⟨k, hk, rfl⟩)), hends⟩

end Parameters

/-! ## Wildcards that stand for nothing -/

/-- The reading that asks a wildcard for a segment fails where nothing is left for it. -/
theorem reads_leavesNothing (same : Char → Char → Bool) {ps : List RoutePart} {us : List Text}
    (h : LeavesNothing same ps us) :
    reads same 1 ps us = none ∧ (reads same 0 ps us).isSome = true := by
  induction ps generalizing us with
  | nil => exact absurd h id
  | cons p ps ih =>
    cases p with
    | lit t =>
      cases us with
      | nil => exact absurd h id
      | cons u us =>
        rw [reads, reads, if_pos h.1, if_pos h.1]
        exact ih h.2
    | param name =>
      cases us with
      | nil => exact absurd h id
      | cons u us =>
        obtain ⟨hnone, hsome⟩ := ih h
        rw [reads, reads, hnone, Option.isSome_map]
        exact ⟨rfl, hsome⟩
    | opt name =>
      cases us with
      | nil => exact absurd h id
      | cons u us =>
        obtain ⟨hnone, hsome⟩ := ih h
        rw [reads, reads, hnone, Option.isSome_map]
        exact ⟨rfl, hsome⟩
    | star =>
      cases us with
      | nil => exact ⟨rfl, rfl⟩
      | cons u us => exact absurd h id
    | stars =>
      cases us with
      | nil => exact ⟨rfl, rfl⟩
      | cons u us => exact absurd h id

/-- Where something is left, it makes no difference. -/
theorem reads_of_not_leavesNothing (same : Char → Char → Bool) {ps : List RoutePart}
    {us : List Text} (h : ¬ LeavesNothing same ps us) : reads same 1 ps us = reads same 0 ps us := by
  induction ps generalizing us with
  | nil => rfl
  | cons p ps ih =>
    cases us with
    | nil =>
      cases p with
      | star => exact absurd trivial h
      | stars => exact absurd trivial h
      | _ => rfl
    | cons u us =>
      cases p with
      | lit t =>
        rw [reads, reads]
        by_cases hsame : sameText same t u = true
        · rw [if_pos hsame, if_pos hsame]
          exact ih fun hleaves => h ⟨hsame, hleaves⟩
        · rw [if_neg hsame, if_neg hsame]
      | param name => rw [reads, reads, ih h]
      | opt name => rw [reads, reads, ih h]
      | star => simp [reads]
      | stars => simp [reads]

/-- The values of parameters are segments of the URL. -/
theorem reads_values (same : Char → Char → Bool) (least : Nat) {ps : List RoutePart} {us : List Text}
    {bs : List (Text × Text)} (h : reads same least ps us = some bs) : ∀ b ∈ bs, b.2 ∈ us := by
  induction ps generalizing us bs with
  | nil =>
    rw [reads] at h
    split at h
    · cases h
      nofun
    · cases h
  | cons p ps ih =>
    have hmap : ∀ (name u : Text) (us : List Text),
        (reads same least ps us).map ((name, u) :: ·) = some bs → ∀ b ∈ bs, b.2 ∈ u :: us := by
      intro name u us hsome b hb
      obtain ⟨cs, hcs, rfl⟩ := Option.map_eq_some_iff.1 hsome
      rcases List.mem_cons.1 hb with rfl | hb
      · exact List.mem_cons_self
      · exact List.mem_cons_of_mem _ (ih hcs b hb)
    cases p with
    | lit t =>
      cases us with
      | nil => cases h
      | cons u us =>
        rw [reads] at h
        split at h
        · exact fun b hb => List.mem_cons_of_mem _ (ih h b hb)
        · cases h
    | param name =>
      cases us with
      | nil => cases h
      | cons u us => exact hmap name u us h
    | opt name =>
      cases us with
      | nil =>
        cases h
        nofun
      | cons u us => exact hmap name u us h
    | star =>
      rw [reads] at h
      split at h
      · cases h
        nofun
      · cases h
    | stars =>
      rw [reads] at h
      split at h
      · cases h
        nofun
      · cases h

/-! ## The whole expression -/

section Route

variable {cl : Caseless} {ps : List RoutePart} {s : Text} {h : Hit}

/-- The end of the expression: the end of the URL, perhaps after a last `/`. -/
theorem mem_run_end {before : Text} :
    h ∈ (Re.group none endRe).run cl.same before s ↔
      ((s = [] ∨ s = ['\n']) ∧ h = ⟨[], s, [some []]⟩) ∨
      ∃ t, s = '/' :: t ∧ (t = [] ∨ t = ['\n']) ∧ h = ⟨['/'], t, [some ['/']]⟩ := by
  rw [mem_run_group]
  constructor
  · rintro ⟨k, hk, rfl⟩
    rcases (mem_run_alt _ _).1 hk with ⟨l, hl, rfl⟩ | ⟨l, hl, rfl⟩
    · obtain ⟨hs, rfl⟩ := mem_run_eol.1 hl
      exact .inl ⟨hs, rfl⟩
    · obtain ⟨m, hm, n, hn, rfl⟩ := (mem_run_seq _ _).1 hl
      obtain ⟨t, rfl, rfl⟩ := mem_run_slash.1 hm
      obtain ⟨ht, rfl⟩ := mem_run_eol.1 hn
      exact .inr ⟨t, rfl, ht, rfl⟩
  · rintro (⟨hs, rfl⟩ | ⟨t, rfl, ht, rfl⟩)
    · exact ⟨⟨[], s, []⟩, (mem_run_alt _ _).2 (.inl ⟨_, mem_run_eol.2 ⟨hs, rfl⟩, rfl⟩), rfl⟩
    · refine ⟨⟨['/'], t, []⟩, (mem_run_alt _ _).2 (.inr ⟨⟨['/'], t, []⟩, ?_, rfl⟩), rfl⟩
      exact (mem_run_seq _ _).2 ⟨_, mem_run_slash.2 ⟨t, rfl, rfl⟩, _, mem_run_eol.2 ⟨ht, rfl⟩, rfl⟩

/-- A hit of the whole expression is one of its segments, and the end. -/
theorem mem_run_routeRe :
    h ∈ (routeRe ps).run cl.same [] s ↔ ∃ k ∈ (partsRe ps).run cl.same [] s,
      ∃ l ∈ (Re.group none endRe).run cl.same k.taken k.rest,
        h = ⟨k.taken ++ l.taken, l.rest, k.caps ++ l.caps⟩ := by
  rw [routeRe, mem_run_seq]
  constructor
  · rintro ⟨m, hm, n, hn, rfl⟩
    obtain ⟨-, rfl⟩ := mem_run_bol.1 hm
    obtain ⟨k, hk, l, hl, rfl⟩ := (mem_run_seq _ _).1 hn
    exact ⟨k, hk, l, hl, rfl⟩
  · rintro ⟨k, hk, l, hl, rfl⟩
    exact ⟨_, mem_run_bol.2 ⟨rfl, rfl⟩, _, (mem_run_seq _ _).2 ⟨k, hk, l, hl, rfl⟩, rfl⟩

/-- A match ends where the subject does, or before its last line break. -/
theorem routeRe_rest (hh : h ∈ (routeRe ps).run cl.same [] s) : h.rest = [] ∨ h.rest = ['\n'] := by
  obtain ⟨k, -, l, hl, rfl⟩ := mem_run_routeRe.1 hh
  rcases mem_run_end.1 hl with ⟨hs, rfl⟩ | ⟨t, -, ht, rfl⟩
  · exact hs
  · exact ht

theorem oneLine_litRe {t : Text} (ht : ∀ c ∈ t, c.isAlphanum = true) :
    (litRe t).OneLine cl.same := by
  induction t with
  | nil => trivial
  | cons c t ih =>
    exact ⟨cl.lineBreak c (ht c List.mem_cons_self), ih fun d hd => ht d (List.mem_cons_of_mem _ hd)⟩

theorem oneLine_slashRe : slashRe.OneLine cl.same := by
  show cl.same '/' '\n' = false
  rw [Bool.eq_false_iff, ne_eq, cl.slash_iff]
  decide

theorem oneLine_part {p : RoutePart} (hok : p.Ok) : p.re.OneLine cl.same := by
  cases p with
  | lit t => exact oneLine_litRe hok.2
  | _ => rfl

/-- No part of the expression takes a line break. -/
theorem oneLine_partsRe (hok : ∀ p ∈ ps, p.Ok) : (partsRe ps).OneLine cl.same := by
  induction ps with
  | nil => trivial
  | cons p ps ih =>
    have hstep : (stepRe p ps).OneLine cl.same :=
      ⟨oneLine_slashRe, oneLine_part (hok p List.mem_cons_self),
        ih fun q hq => hok q (List.mem_cons_of_mem _ hq)⟩
    cases p with
    | opt name => exact ⟨trivial, ⟨oneLine_slashRe, trivial⟩, hstep⟩
    | _ => exact hstep

theorem oneLine_routeRe (hok : ∀ p ∈ ps, p.Ok) : (routeRe ps).OneLine cl.same :=
  ⟨trivial, oneLine_partsRe hok, trivial, oneLine_slashRe, trivial⟩

theorem exec_routeRe (ps : List RoutePart) (s : Text) :
    (routeRe ps).exec cl.same s
      = ((routeRe ps).run cl.same [] s).head?.map fun h => (routeRe ps).groups.zip h.caps := by
  unfold Re.exec
  rw [routeRe, search_bol]

/-- A line break at the end of the URL is not seen. -/
theorem exec_lineBreak (hok : ∀ p ∈ ps, p.Ok) {w : Text} (hw : '\n' ∉ w) :
    (routeRe ps).exec cl.same (w ++ ['\n']) = (routeRe ps).exec cl.same w := by
  rw [exec_routeRe, exec_routeRe, run_lineBreak (oneLine_routeRe hok) hw, List.head?_map,
    Option.map_map]
  rfl

/-- A line break before the end keeps a URL from being matched. -/
theorem exec_break_inside (hok : ∀ p ∈ ps, p.Ok) (w : Text) {v : Text} (hv : v ≠ []) :
    (routeRe ps).exec cl.same (w ++ '\n' :: v) = none := by
  have hnone : (routeRe ps).run cl.same [] (w ++ '\n' :: v) = [] := by
    rw [List.eq_nil_iff_forall_not_mem]
    intro h hh
    have hbreak := lineBreak_notMem (oneLine_routeRe hok) hh
    have hcut := taken_append_rest hh
    rcases routeRe_rest hh with hrest | hrest
    · rw [hrest, List.append_nil] at hcut
      exact hbreak (by rw [hcut]; simp)
    · rw [hrest] at hcut
      have htaken := congrArg List.dropLast hcut
      rw [List.dropLast_concat, List.dropLast_append_of_ne_nil (by simp),
        List.dropLast_cons_of_ne_nil hv] at htaken
      exact hbreak (by rw [htaken]; simp)
  rw [exec_routeRe, hnone]
  rfl

/-- What the expression captures on a URL without line breaks. -/
theorem exec_urlText (hok : ∀ p ∈ ps, p.Ok) (hshape : ShapedParts ps) {us : List Text}
    (hus : PlainSegs us) (slash : Bool) :
    (reads cl.same 1 ps us = none → (routeRe ps).exec cl.same (urlText us slash) = none) ∧
      ∀ bs, reads cl.same 1 ps us = some bs →
        ∃ caps t, (routeRe ps).exec cl.same (urlText us slash)
            = some ((routeRe ps).groups.zip (caps ++ [some t])) ∧
          caps.length = (partsRe ps).groups.length ∧ bound (partsRe ps).groups caps = bs := by
  have htells : Tells cl ps us slash (partsRe ps) [] := tells_parts hok hshape hus []
  have hbreak : '\n' ∉ urlText us slash := lineBreak_notMem_urlText hus
  -- what is left after the segments ends the URL
  have hhit : ∀ h ∈ (routeRe ps).run cl.same [] (urlText us slash), ∃ caps t,
      h.caps = caps ++ [some t] ∧ caps.length = (partsRe ps).groups.length ∧
        reads cl.same 1 ps us = some (bound (partsRe ps).groups caps) := by
    intro h hh
    obtain ⟨k, hk, l, hl, rfl⟩ := mem_run_routeRe.1 hh
    have hrest : '\n' ∉ k.rest := by
      intro hmem
      refine hbreak ?_
      rw [← taken_append_rest hk]
      exact List.mem_append_right _ hmem
    rcases mem_run_end.1 hl with ⟨hs | hs, rfl⟩ | ⟨t, hs, ht | ht, rfl⟩
    · exact ⟨k.caps, [], rfl, length_caps hk, htells.sound k hk (.inl hs)⟩
    · rw [hs] at hrest
      exact absurd (List.mem_singleton.2 rfl) hrest
    · rw [ht] at hs
      exact ⟨k.caps, ['/'], rfl, length_caps hk, htells.sound k hk (.inr hs)⟩
    · rw [hs, ht] at hrest
      exact absurd (by simp) hrest
  constructor
  · intro hnone
    rw [exec_routeRe]
    cases hrun : (routeRe ps).run cl.same [] (urlText us slash) with
    | nil => rfl
    | cons h hs =>
      obtain ⟨caps, t, -, -, hreads⟩ := hhit h (by rw [hrun]; exact List.mem_cons_self)
      rw [hnone] at hreads
      cases hreads
  · intro bs hbs
    obtain ⟨k, hk, hends⟩ := htells.complete (by rw [hbs]; rfl)
    have hne : (routeRe ps).run cl.same [] (urlText us slash) ≠ [] := by
      rcases hends with hnil | hslash
      · exact List.ne_nil_of_mem (mem_run_routeRe.2
          ⟨k, hk, _, mem_run_end.2 (.inl ⟨.inl hnil, rfl⟩), rfl⟩)
      · exact List.ne_nil_of_mem (mem_run_routeRe.2
          ⟨k, hk, _, mem_run_end.2 (.inr ⟨[], hslash, .inl rfl, rfl⟩), rfl⟩)
    obtain ⟨h, hs, hrun⟩ := List.exists_cons_of_ne_nil hne
    obtain ⟨caps, t, hcaps, hlen, hreads⟩ := hhit h (by rw [hrun]; exact List.mem_cons_self)
    rw [hbs, Option.some.injEq] at hreads
    refine ⟨caps, t, ?_, hlen, hreads.symm⟩
    rw [exec_routeRe, hrun, List.head?_cons, Option.map_some, hcaps]

end Route

/-! ## Matching -/

section Matching

variable {pcre : Pcre} {ps : List RoutePart} {routePath : Text}

/-- The number of groups in the expression of a path. -/
def groupCount : List RoutePart → Nat
  | [] => 1
  | p :: ps => (if p.isOpt then 2 else p.name?.toList.length) + groupCount ps

theorem length_groups (ps : List RoutePart) : (partsRe ps).groups.length + 1 = groupCount ps := by
  induction ps with
  | nil => rfl
  | cons p ps ih =>
    have hstep : (stepRe p ps).groups.length = p.re.groups.length + (partsRe ps).groups.length := by
      show (p.re.groups ++ (partsRe ps).groups).length = _
      exact List.length_append
    rw [groupCount, ← ih, ← Nat.add_assoc]
    congr 1
    cases p with
    | opt name =>
      show (stepRe (.opt name) ps).groups.length + 1 = 2 + (partsRe ps).groups.length
      rw [hstep]
      show 1 + (partsRe ps).groups.length + 1 = _
      omega
    | lit t =>
      rw [partsRe_cons rfl, hstep]
      show (litRe t).groups.length + _ = _
      rw [groups_litRe]
      rfl
    | _ =>
      rw [partsRe_cons rfl, hstep]
      rfl

/-- The last group always takes part. -/
theorem lastGroup_zip {names caps : List (Option Text)} (h : names.length = caps.length)
    (n : Option Text) (t : Text) :
    lastGroup ((names ++ [n]).zip (caps ++ [some t])) = names.length + 1 := by
  unfold lastGroup
  rw [List.zip_append h]
  simp [h]

/-- The parameters are those of the groups that have captured something. -/
theorem nameTable_perm (names caps : List (Option Text)) :
    ((nameTable (names.zip caps)).filter fun p => p.2 ≠ []).Perm
      ((bound names caps).filter fun p => p.2 ≠ []) := by
  have hsame : ∀ gs : List (Option Text × Option Text),
      ((gs.filterMap fun g => g.1.map fun name => (name, g.2.getD [])).filter fun p => p.2 ≠ [])
        = (gs.filterMap fun g => g.1.bind fun name => g.2.map fun t => (name, t)).filter
          fun p => p.2 ≠ [] := by
    intro gs
    induction gs with
    | nil => rfl
    | cons g gs ih =>
      obtain ⟨name, t⟩ := g
      cases name with
      | none => simpa using ih
      | some name =>
        cases t with
        | none => simpa using ih
        | some t =>
          by_cases ht : t = []
          · subst ht
            simpa using ih
          · simpa [ht] using ih
  have hsort := (List.mergeSort_perm ((names.zip caps).filterMap fun g =>
    g.1.map fun name => (name, g.2.getD [])) fun a b => textLe a.1 b.1).filter fun p => p.2 ≠ []
  rw [hsame] at hsort
  exact hsort

theorem buildRouteRe_ne_nil (h : RoutePath ps routePath) : buildRouteRe routePath ≠ [] := by
  rw [buildRouteRe_eq h]
  show ['^'] ++ _ ≠ []
  simp

/-- What the route makes of what PCRE says. -/
theorem routeMatch_eq (h : RoutePath ps routePath) (hpcre : pcre.Implements (routeRe ps))
    (value : Text) :
    ((routeRe ps).exec pcre.caseless.same value = none → routeMatch pcre routePath value = .noMatch) ∧
      ∀ caps, (routeRe ps).exec pcre.caseless.same value = some caps →
        routeMatch pcre routePath value
          = if maxSubstrings < lastGroup caps + 1 then .thrown
            else .found (((nameTable caps).filter fun p => p.2 ≠ []).map
              fun p => (p.1, pcre.uridecode p.2)) := by
  have hexec : pcre.exec (buildRouteRe routePath) value
      = (routeRe ps).exec pcre.caseless.same value := by
    rw [buildRouteRe_eq h]
    exact hpcre value
  unfold routeMatch
  rw [if_neg (buildRouteRe_ne_nil h), hexec]
  constructor
  · intro hnone
    rw [hnone]
  · intro caps hsome
    rw [hsome]

/-- A URL that is read is found with its parameters, if PCRE can report all the groups. -/
theorem routeMatch_reads (h : RoutePath ps routePath) (hpcre : pcre.Implements (routeRe ps))
    {us : List Text} (hus : PlainSegs us) (slash : Bool) :
    (reads pcre.caseless.same 1 ps us = none →
      routeMatch pcre routePath (urlText us slash) = .noMatch) ∧
    ∀ bs, reads pcre.caseless.same 1 ps us = some bs →
      (maxSubstrings ≤ groupCount ps → routeMatch pcre routePath (urlText us slash) = .thrown) ∧
      (groupCount ps < maxSubstrings →
        ∃ params, routeMatch pcre routePath (urlText us slash) = .found params ∧
          params.Perm (bs.map fun b => (b.1, pcre.uridecode b.2))) := by
  obtain ⟨hnone, hsome⟩ := routeMatch_eq h hpcre (urlText us slash)
  obtain ⟨hno, hyes⟩ := @exec_urlText pcre.caseless ps h.ok h.shaped us hus slash
  refine ⟨fun hreads => hnone (hno hreads), ?_⟩
  intro bs hbs
  obtain ⟨caps, t, hexec, hlen, hbound⟩ := hyes bs hbs
  have hgroups : (routeRe ps).groups = (partsRe ps).groups ++ [none] := rfl
  rw [hsome _ hexec, hgroups, lastGroup_zip hlen.symm, length_groups]
  refine ⟨fun hmany => if_pos (by omega), fun hfew => ⟨_, if_neg (by omega), ?_⟩⟩
  have hnonempty : bs.filter (fun p => p.2 ≠ []) = bs := by
    refine List.filter_eq_self.2 fun b hb => ?_
    exact decide_eq_true (hus b.2 (reads_values pcre.caseless.same 1 hbs b hb)).1
  have hperm := nameTable_perm ((partsRe ps).groups ++ [none]) (caps ++ [some t])
  rw [bound_append hlen.symm, hbound, show bound [none] [some t] = [] from rfl, List.append_nil,
    hnonempty] at hperm
  exact hperm.map _

/-- **A route matches as documented exactly if its wildcard is not left with nothing and PCRE can
    report all its groups**, or the documentation says that it does not match. A line break at the end
    of the URL is ignored; a URL with one elsewhere is never matched. -/
theorem routeMatch_documented (h : RoutePath ps routePath) (hpcre : pcre.Implements (routeRe ps))
    (us : List Text) (hus : ∀ u ∈ us, u ≠ [] ∧ '/' ∉ u) (slash : Bool) :
    ('\n' ∉ urlText us slash →
      (AsDocumented pcre ps us (routeMatch pcre routePath (urlText us slash)) ↔
        reads pcre.caseless.same 0 ps us = none ∨
          (¬ LeavesNothing pcre.caseless.same ps us ∧ groupCount ps < maxSubstrings))) ∧
    (∀ w, '\n' ∉ w → routeMatch pcre routePath (w ++ ['\n']) = routeMatch pcre routePath w) ∧
    ∀ w v, v ≠ [] → routeMatch pcre routePath (w ++ '\n' :: v) = .noMatch := by
  refine ⟨fun hbreak => ?_, fun w hw => ?_, fun w v hv => ?_⟩
  · have hplain : PlainSegs us := by
      intro u hu
      refine ⟨(hus u hu).1, (hus u hu).2, fun hmem => hbreak ?_⟩
      exact List.mem_append_left _ (List.mem_flatMap.2 ⟨u, hu, List.mem_cons_of_mem _ hmem⟩)
    obtain ⟨hno, hyes⟩ := routeMatch_reads h hpcre hplain slash
    by_cases hleaves : LeavesNothing pcre.caseless.same ps us
    · -- documented, but not matched
      obtain ⟨hnone, hsome⟩ := reads_leavesNothing pcre.caseless.same hleaves
      rw [hno hnone]
      refine ⟨fun hdoc => ?_, fun hcond => ?_⟩
      · obtain ⟨params, hfound⟩ := hdoc.found.2 hsome
        cases hfound
      · rcases hcond with hzero | ⟨hnot, -⟩
        · rw [hzero] at hsome
          cases hsome
        · exact absurd hleaves hnot
    · have hreads := reads_of_not_leavesNothing pcre.caseless.same hleaves
      cases hzero : reads pcre.caseless.same 0 ps us with
      | none =>
        rw [hno (hreads.trans hzero)]
        refine ⟨fun _ => .inl rfl, fun _ => ⟨⟨?_, ?_⟩, nofun⟩⟩
        · rintro ⟨params, hfound⟩
          cases hfound
        · intro hsome
          rw [hzero] at hsome
          cases hsome
      | some bs =>
        obtain ⟨hmany, hfew⟩ := hyes bs (hreads.trans hzero)
        by_cases hcount : groupCount ps < maxSubstrings
        · obtain ⟨params, hfound, hperm⟩ := hfew hcount
          rw [hfound]
          refine ⟨fun _ => .inr ⟨hleaves, hcount⟩, fun _ => ⟨⟨fun _ => ?_, fun _ => ⟨_, rfl⟩⟩, ?_⟩⟩
          · rw [hzero]
            rfl
          · rintro params' bs' hparams hbs
            rw [hzero] at hbs
            cases hparams
            cases hbs
            exact hperm
        · rw [hmany (Nat.not_lt.1 hcount)]
          refine ⟨fun hdoc => ?_, fun hcond => ?_⟩
          · obtain ⟨params, hfound⟩ := hdoc.found.2 (by rw [hzero]; rfl)
            cases hfound
          · rcases hcond with hnone | ⟨-, hlt⟩
            · cases hnone
            · exact absurd hlt hcount
  · obtain ⟨hnone, hsome⟩ := routeMatch_eq h hpcre w
    obtain ⟨hnone', hsome'⟩ := routeMatch_eq h hpcre (w ++ ['\n'])
    rw [exec_lineBreak h.ok hw] at hnone' hsome'
    cases hexec : (routeRe ps).exec pcre.caseless.same w with
    | none => rw [hnone hexec, hnone' hexec]
    | some caps => rw [hsome caps hexec, hsome' caps hexec]
  · exact (routeMatch_eq h hpcre (w ++ '\n' :: v)).1 (exec_break_inside h.ok w hv)

end Matching

/-- Letters without regard to case, in ASCII. -/
def asciiCaseless : Caseless where
  same c d := c == d || (c.isAlpha && d.isAlpha && c.toLower == d.toLower)
  slash c hc := by
    have hne : c ≠ '/' := by
      rintro rfl
      cases hc
    simp [hne, show '/'.isAlpha = false from rfl]
  lineBreak c hc := by
    have hne : c ≠ '\n' := by
      rintro rfl
      cases hc
    simp [hne, show '\n'.isAlpha = false from rfl]
  slash_iff c := by
    simp only [show '/'.isAlpha = false from rfl, Bool.false_and, Bool.or_false, beq_iff_eq]
    exact eq_comm

/-- PCRE, for one path; no URL has anything to be decoded. -/
def pcreFor (ps : List RoutePart) : Pcre where
  caseless := asciiCaseless
  exec _ s := (routeRe ps).exec asciiCaseless.same s
  uridecode := id

/-- `/abc/:p/*` -/
def starPath : List RoutePart := [.lit "abc".toList, .param ['p'], .star]

theorem routePath_star : RoutePath starPath "/abc/:p/*".toList where
  ne_nil := by decide
  pieces := by decide
  ok := by
    intro p hp
    simp only [starPath, List.mem_cons, List.not_mem_nil, or_false] at hp
    rcases hp with rfl | rfl | rfl
    · exact ⟨by decide, List.all_eq_true.1 (by decide)⟩
    · refine ⟨by decide, fun c hc => ?_, fun c hc => ?_, by decide⟩
      · rw [List.mem_singleton.1 hc]
        exact .inl rfl
      · cases hc
        rfl
    · trivial
  shaped := trivial
  names := by decide

/-- `/ABC/x/y` is matched, with `p` bound to `x`. -/
theorem routeMatch_documented_star :
    AsDocumented (pcreFor starPath) starPath ["ABC".toList, ['x'], ['y']]
      (routeMatch (pcreFor starPath) "/abc/:p/*".toList
        (urlText ["ABC".toList, ['x'], ['y']] false)) := by
  refine ((routeMatch_documented routePath_star (fun _ => rfl) ["ABC".toList, ['x'], ['y']]
    (by decide) false).1 (by decide)).2 (.inr ⟨?_, by decide⟩)
  exact fun hleaves => hleaves.2

/-- `/abc/x` is not matched. -/
theorem star_needs_segment :
    ¬ ∀ (pcre : Pcre) (ps : List RoutePart) (routePath : Text), RoutePath ps routePath →
      pcre.Implements (routeRe ps) → ∀ us : List Text, (∀ u ∈ us, u ≠ [] ∧ '/' ∉ u) →
      ∀ slash, AsDocumented pcre ps us (routeMatch pcre routePath (urlText us slash)) := by
  intro hall
  have hdoc := hall (pcreFor starPath) starPath "/abc/:p/*".toList routePath_star (fun _ => rfl)
    ["abc".toList, ['x']] (by decide) false
  have hno : routeMatch (pcreFor starPath) "/abc/:p/*".toList (urlText ["abc".toList, ['x']] false)
      = .noMatch := by decide
  obtain ⟨params, hfound⟩ := hdoc.found.2 (by decide)
  rw [hno] at hfound
  cases hfound

end LibEvmvc
