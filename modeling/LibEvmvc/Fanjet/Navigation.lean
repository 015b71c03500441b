import LibEvmvc.Fanjet.NodeLinks

set_option autoImplicit false

/-! # The first and the last node of a type

Four functions look for the first or the last node of a type, each once for the types of the nodes and once
for those of their sections: among the children of a node, and among the siblings of a child. They go along
the links. `last_child` begins with the last child and goes on behind it; `first_sibling` and `last_sibling`
stop in front of the child at the end, and do not look at the other side. So only `first_child` finds in all
cases what its name says (`typed_navigation_iff`). -/

namespace LibEvmvc

namespace Fanjet

/-! ## The types -/

/-- `node_type`. -/
inductive NodeType where
  | invalid | root | token | expr | string | any | body | render | set | get | fmt | getRaw | fmtRaw | filename
  | dirname | tag | script | scripts | style | styles | importFile | directive | literal | comment | output
  | codeBlock | codeControl | codeErr | codeFun | codeAsync
  deriving DecidableEq, Repr

/-- `section_type`. -/
inductive SectionType where
  | invalid | root | token | expr | string | any | body | render | set | get | fmt | getRaw | fmtRaw | filename
  | dirname | tag | script | scripts | style | styles | importFile | dirNs | dirName | dirLayout | dirHeader
  | dirInherits | dirInclude | dirPath | literal | commentLine | commentBlock | regionStart | regionEnd
  | outputRaw | outputEnc | codeBlock | codeIf | codeSwitch | codeWhile | codeFor | codeDo | codeTry | codeFuni
  | codeFunc | codeFuna | codeAwait | markupOther | markupHtml
  deriving DecidableEq, Repr

/-- `_node_type` and `_sec_type`. -/
structure NodeTypes (N : Type) where
  nodeType : N → NodeType
  secType : N → SectionType

/-! ## The loops -/

variable {N T : Type} [DecidableEq T]

/-- `while(n && !n->_prev.expired())`, with the node of the type that was passed last. -/
def siblingLoop (step : N → Option N) (has : N → Bool) : Nat → Option N → Option N → Option (Option N)
  | 0, _, _ => none
  | _ + 1, tn, none => some tn
  | rounds + 1, tn, some n =>
    match step n with
    | none => some tn
    | some n' => siblingLoop step has rounds (if has n then some n else tn) (some n')

section Loops

variable (h : NodeLinks N) (ty : N → T) (any t : T) (rounds : Nat) (self : N)

/-- `first_child`. -/
def firstChildOf : Option (Option N) :=
  let n := (h.childs self).head?
  if t = any then some n else seek h.next (ty · = t) rounds n

/-- `last_child`. -/
def lastChildOf : Option (Option N) :=
  let n := (h.childs self).getLast?
  if t = any then some n else seek h.next (ty · = t) rounds n

/-- `first_sibling` and `last_sibling`; `step` is `prev` or `next`. -/
def farSiblingOf (step : N → Option N) : Option (Option N) :=
  if t = any then (goFar step rounds self).map some
  else siblingLoop step (ty · = t) rounds (if ty self = t then some self else none) (step self)

end Loops

/-- The four functions, for a type. -/
structure TypedLoops (N T : Type) where
  firstChild : T → Nat → N → Option (Option N)
  lastChild : T → Nat → N → Option (Option N)
  firstSibling : T → Nat → N → Option (Option N)
  lastSibling : T → Nat → N → Option (Option N)

def typedLoops (h : NodeLinks N) (ty : N → T) (any : T) : TypedLoops N T where
  firstChild t rounds self := firstChildOf h ty any t rounds self
  lastChild t rounds self := lastChildOf h ty any t rounds self
  firstSibling t rounds self := farSiblingOf ty any t rounds self h.prev
  lastSibling t rounds self := farSiblingOf ty any t rounds self h.next

/-- Those of `node_type`. -/
def nodeTypeLoops (h : NodeLinks N) (types : NodeTypes N) : TypedLoops N NodeType :=
  typedLoops h types.nodeType .any

/-- Those of `section_type`. -/
def sectionTypeLoops (h : NodeLinks N) (types : NodeTypes N) : TypedLoops N SectionType :=
  typedLoops h types.secType .any

/-! ## What they are to find -/

/-- A node of the type. -/
def ofType (ty : N → T) (any t : T) (n : N) : Bool := t = any ∨ ty n = t

/-- The first of the nodes that is of the type. -/
def firstOf (ty : N → T) (any t : T) (l : List N) : Option N := l.find? (ofType ty any t)

/-- The last one. -/
def lastOf (ty : N → T) (any t : T) (l : List N) : Option N := l.reverse.find? (ofType ty any t)

/-- From a node one goes on over `l` to the end: there is a node of the type here or on the way, and it is
not the one at the end. -/
def FoundBeforeEnd (ty : N → T) (t : T) (n : N) (l : List N) : Prop :=
  (∃ m ∈ n :: l, ty m = t) ∧ ∀ m, l.getLast? = some m → ty m ≠ t

/-- When each of the functions finds the first or the last node of a type. -/
structure LoopsExact (h : NodeLinks N) (ty : N → T) (any : T) (o : N) (loops : TypedLoops N T) : Prop where
  firstChild : ∀ t, ComesTo (loops.firstChild t · o) (firstOf ty any t (h.childs o))
  lastChild : ∀ t, ComesTo (loops.lastChild t · o) (lastOf ty any t (h.childs o)) ↔
    t = any ∨ (∀ m ∈ h.childs o, ty m ≠ t) ∨ ∃ m, (h.childs o).getLast? = some m ∧ ty m = t
  firstSibling : ∀ t x n y, h.childs o = x ++ n :: y →
    (ComesTo (loops.firstSibling t · n) (firstOf ty any t (h.childs o)) ↔
      t = any ∨ (∀ m ∈ h.childs o, ty m ≠ t) ∨ FoundBeforeEnd ty t n x.reverse)
  lastSibling : ∀ t x n y, h.childs o = x ++ n :: y →
    (ComesTo (loops.lastSibling t · n) (lastOf ty any t (h.childs o)) ↔
      t = any ∨ (∀ m ∈ h.childs o, ty m ≠ t) ∨ FoundBeforeEnd ty t n y)

section Finds

variable {next prev : N → Option N} {has : N → Bool} {x y : List N} {n : N} {tn : Option N}

omit [DecidableEq T]

/-- The loop over the siblings on one side passes all of them but the one at the end. -/
theorem siblingLoop_passes (h : Threaded next prev (x ++ y)) :
    ComesTo (fun rounds => siblingLoop next has rounds tn y.head?) ((y.dropLast.reverse.find? has).or tn) := by
  refine ⟨y.length + 1, ?_⟩
  induction y generalizing x tn with
  | nil =>
    intro r hr
    obtain ⟨r, rfl⟩ := Nat.exists_eq_add_of_le' hr
    rfl
  | cons b y ih =>
    intro r hr
    obtain ⟨r, rfl⟩ := Nat.exists_eq_add_of_le' hr
    have hnext := (h x b y rfl).1
    show siblingLoop next has (r + (y.length + 1) + 1) tn (some b) = _
    rw [siblingLoop, hnext]
    cases y with
    | nil => rfl
    | cons c y =>
      have hrest : Threaded next prev ((x ++ [b]) ++ c :: y) := by
        rwa [List.append_assoc, List.singleton_append]
      refine (ih hrest (r + ((c :: y).length + 1)) (Nat.le_add_left _ _)).trans ?_
      rw [List.dropLast_cons_cons, List.reverse_cons, List.find?_append, List.find?_singleton]
      cases (c :: y).dropLast.reverse.find? has with
      | some m => rfl
      | none =>
        cases has b with
        | true => rfl
        | false => rfl

theorem eq_or_iff {r q : Option N} : r = r.or q ↔ r ≠ none ∨ q = none := by
  cases r with
  | some m => simp
  | none =>
    rw [Option.none_or]
    exact ⟨fun h => .inr h.symm, fun h => (h.resolve_left fun hne => hne rfl).symm⟩

theorem find?_reverse_eq_none {l : List N} : l.reverse.find? has = none ↔ ∀ m ∈ l, has m = false := by
  simp [List.find?_eq_none]

/-- The last of all is found at the end alone. -/
theorem find?_last_only {w : List N} {z : N} : [z].find? has = (w ++ [z]).reverse.find? has ↔
    (∀ m ∈ w ++ [z], has m = false) ∨ has z = true := by
  rw [List.reverse_concat]
  by_cases hz : has z = true
  · refine iff_of_true ?_ (.inr hz)
    rw [List.find?_cons_of_pos hz, List.find?_cons_of_pos hz]
  · rw [List.find?_cons_of_neg hz, List.find?_cons_of_neg hz, List.find?_nil, eq_comm, find?_reverse_eq_none,
      or_iff_left hz, List.forall_mem_append, List.forall_mem_singleton]
    exact (and_iff_left ((Bool.eq_false_iff).2 hz)).symm

/-- What is found without the one at the end is the last of all. -/
theorem find?_before_end (hnodup : (x ++ n :: y).Nodup) :
    (y.dropLast.reverse.find? has).or (if has n then some n else none) = (x ++ n :: y).reverse.find? has ↔
      (∀ m ∈ x ++ n :: y, has m = false) ∨
        (∃ m ∈ n :: y, has m = true) ∧ ∀ m, y.getLast? = some m → has m = false := by
  have hself : (if has n then some n else none) = [n].find? has := (List.find?_singleton ..).symm
  have hlist : (x ++ n :: y).reverse.find? has
      = ((y.reverse.find? has).or ([n].find? has)).or (x.reverse.find? has) := by
    rw [List.reverse_append, List.reverse_cons, List.find?_append, List.find?_append]
  have hhere : (n :: y).reverse.find? has = (y.reverse.find? has).or ([n].find? has) := by
    rw [List.reverse_cons, List.find?_append]
  rw [hself, hlist]
  by_cases hlast : ∀ m, y.getLast? = some m → has m = false
  · have hsame : y.dropLast.reverse.find? has = y.reverse.find? has := by
      rcases List.eq_nil_or_concat' y with rfl | ⟨w, z, rfl⟩
      · rfl
      · have hz : has z = false := hlast z List.getLast?_concat
        rw [List.dropLast_concat, List.reverse_concat, List.find?_cons, hz]
    rw [hsame, ← hhere, eq_or_iff, ne_eq, find?_reverse_eq_none, find?_reverse_eq_none,
      List.forall_mem_append]
    have hsome : (∃ m ∈ n :: y, has m = true) ↔ ¬ ∀ m ∈ n :: y, has m = false := by
      simp only [not_forall, Bool.not_eq_false, exists_prop]
    rw [hsome]
    tauto
  · simp only [not_forall, Bool.not_eq_false, exists_prop] at hlast
    obtain ⟨z, hz, hhas⟩ := hlast
    obtain ⟨w, rfl⟩ := List.getLast?_eq_some_iff.1 hz
    have hmem : z ∈ x ++ n :: (w ++ [z]) := by simp
    refine iff_of_false (fun heq => ?_) ?_
    · rw [List.dropLast_concat, List.reverse_concat, List.find?_cons_of_pos hhas, Option.some_or,
        Option.some_or, ← List.find?_append, ← List.reverse_cons] at heq
      have hin : z ∈ (n :: w).reverse := List.mem_of_find?_eq_some heq
      have hny : ((n :: w) ++ [z]).Nodup := (List.nodup_append'.1 hnodup).2.1
      exact (List.nodup_append'.1 hny).2.2 (List.mem_reverse.1 hin) (List.mem_singleton_self z)
    · rintro (hall | ⟨-, hend⟩)
      · cases hhas.symm.trans (hall z hmem)
      · cases hhas.symm.trans (hend z hz)

end Finds

/-! ## What they find -/

section Exact

variable {h : NodeLinks N} {next prev : N → Option N} {ty : N → T} {any t : T} {x y : List N} {n o : N}

theorem ofType_any (ht : t = any) : ofType ty any t = fun _ => true := by
  funext m
  exact decide_eq_true (.inl ht)

theorem ofType_eq (ht : t ≠ any) : ofType ty any t = fun m => decide (ty m = t) := by
  funext m
  exact decide_eq_decide.2 (or_iff_right ht)

theorem find?_true (l : List N) : l.find? (fun _ => true) = l.head? := by
  cases l <;> rfl

theorem firstChildOf_first (hat : LinkedAt h o) :
    ComesTo (fun rounds => firstChildOf h ty any t rounds o) (firstOf ty any t (h.childs o)) := by
  unfold firstChildOf firstOf
  by_cases ht : t = any
  · simp only [if_pos ht, ofType_any ht, find?_true]
    exact ⟨0, fun _ _ => rfl⟩
  · simp only [if_neg ht, ofType_eq ht]
    exact @Threaded.seek_find _ _ _ [] _ hat.threaded _

/-- Behind the last child there is none. -/
theorem lastChildOf_iff (hat : LinkedAt h o) :
    ComesTo (fun rounds => lastChildOf h ty any t rounds o) (lastOf ty any t (h.childs o)) ↔
      t = any ∨ (∀ m ∈ h.childs o, ty m ≠ t) ∨ ∃ m, (h.childs o).getLast? = some m ∧ ty m = t := by
  unfold lastChildOf lastOf
  by_cases ht : t = any
  · refine iff_of_true ?_ (.inl ht)
    simp only [if_pos ht, ofType_any ht, find?_true, List.head?_reverse]
    exact ⟨0, fun _ _ => rfl⟩
  · rw [or_iff_right ht]
    simp only [if_neg ht, ofType_eq ht]
    rcases List.eq_nil_or_concat' (h.childs o) with hnil | ⟨w, z, hchilds⟩
    · simp only [hnil]
      refine iff_of_true ?_ (.inl fun m hm => absurd hm List.not_mem_nil)
      exact @Threaded.seek_find _ h.next h.prev [] [] threaded_nil _
    · simp only [hchilds, List.getLast?_concat]
      have hseek := @Threaded.seek_find _ _ _ w [z] (hchilds ▸ hat.threaded) (ty · = t)
      rw [List.head?_cons] at hseek
      have hfinds := @find?_last_only _ (ty · = t) w z
      simp only [decide_eq_true_eq, decide_eq_false_iff_not] at hfinds
      rw [hseek.iff, hfinds]
      simp only [Option.some.injEq, exists_eq_left', ne_eq]

theorem farSiblingOf_iff (hthreaded : Threaded next prev (x ++ n :: y)) (hnodup : (x ++ n :: y).Nodup) :
    ComesTo (fun rounds => farSiblingOf ty any t rounds n next) (lastOf ty any t (x ++ n :: y)) ↔
      t = any ∨ (∀ m ∈ x ++ n :: y, ty m ≠ t) ∨ FoundBeforeEnd ty t n y := by
  unfold farSiblingOf lastOf
  by_cases ht : t = any
  · refine iff_of_true ?_ (.inl ht)
    simp only [if_pos ht, ofType_any ht, find?_true, List.head?_reverse]
    obtain ⟨rounds, hgo⟩ := hthreaded.goFar_last
    refine ⟨rounds, fun r hr => ?_⟩
    have hlast : goFar next r n = some (y.getLast?.getD n) := hgo r hr
    show (goFar next r n).map some = _
    rw [hlast, List.getLast?_append_cons, List.getLast?_cons]
    rfl
  · rw [or_iff_right ht]
    simp only [if_neg ht, ofType_eq ht]
    have hnext : next n = y.head? := (hthreaded x n y rfl).1
    have hrest : Threaded next prev ((x ++ [n]) ++ y) := by
      rwa [List.append_assoc, List.singleton_append]
    have hloop := @siblingLoop_passes _ _ _ (ty · = t) _ _ (if ty n = t then some n else none) hrest
    rw [hnext, hloop.iff]
    have hfinds := @find?_before_end _ (ty · = t) _ _ _ hnodup
    simp only [decide_eq_true_eq, decide_eq_false_iff_not] at hfinds
    exact hfinds

/-- The siblings in front are those behind, the other way. -/
theorem firstSiblingOf_iff (hthreaded : Threaded next prev (x ++ n :: y)) (hnodup : (x ++ n :: y).Nodup) :
    ComesTo (fun rounds => farSiblingOf ty any t rounds n prev) (firstOf ty any t (x ++ n :: y)) ↔
      t = any ∨ (∀ m ∈ x ++ n :: y, ty m ≠ t) ∨ FoundBeforeEnd ty t n x.reverse := by
  have hreverse : (x ++ n :: y).reverse = y.reverse ++ n :: x.reverse := by
    rw [List.reverse_append, List.reverse_cons, List.append_assoc, List.singleton_append]
  have hfirst : firstOf ty any t (x ++ n :: y) = lastOf ty any t (y.reverse ++ n :: x.reverse) := by
    unfold firstOf lastOf
    rw [← hreverse, List.reverse_reverse]
  have hmem : (∀ m ∈ x ++ n :: y, ty m ≠ t) ↔ ∀ m ∈ y.reverse ++ n :: x.reverse, ty m ≠ t := by
    simp only [← hreverse, List.mem_reverse]
  rw [hfirst, hmem]
  exact farSiblingOf_iff (hreverse ▸ hthreaded.reverse) (hreverse ▸ List.nodup_reverse.2 hnodup)

theorem typedLoops_exact (hat : LinkedAt h o) : LoopsExact h ty any o (typedLoops h ty any) := by
  refine ⟨fun t => ?_, fun t => ?_, fun t x n y hxy => ?_, fun t x n y hxy => ?_⟩
  · exact firstChildOf_first hat
  · exact lastChildOf_iff hat
  · rw [hxy]
    exact firstSiblingOf_iff (hxy ▸ hat.threaded) (hxy ▸ hat.nodup)
  · rw [hxy]
    exact farSiblingOf_iff (hxy ▸ hat.threaded) (hxy ▸ hat.nodup)

end Exact

section Navigation

variable {h : NodeLinks N} {o : N}

/-- **When the first or the last node of a type is found**, for the types of the nodes and for those of their
sections. -/
theorem typed_navigation_iff (hat : LinkedAt h o) (types : NodeTypes N) :
    LoopsExact h types.nodeType .any o (nodeTypeLoops h types) ∧
      LoopsExact h types.secType .any o (sectionTypeLoops h types) :=
  ⟨typedLoops_exact hat, typedLoops_exact hat⟩

/-- A literal, and a token behind it. -/
def sampleTypes : NodeTypes Nat where
  nodeType n := if n = 3 then .literal else .token
  secType n := if n = 3 then .literal else .token

theorem typed_navigation_sample :
    LoopsExact sampleLinks sampleTypes.nodeType .any 0 (nodeTypeLoops sampleLinks sampleTypes) ∧
      LoopsExact sampleLinks sampleTypes.secType .any 0 (sectionTypeLoops sampleLinks sampleTypes) :=
  typed_navigation_iff (sampleLinks_reached.linked.at_node 0) sampleTypes

/-- The last literal is not the last child, and the first one is not looked at from its sibling. -/
theorem literal_not_found :
    LinkedAt sampleLinks 0 ∧
      ¬ComesTo ((nodeTypeLoops sampleLinks sampleTypes).lastChild .literal · 0)
        (lastOf sampleTypes.nodeType .any .literal (sampleLinks.childs 0)) ∧
      ¬ComesTo ((nodeTypeLoops sampleLinks sampleTypes).firstSibling .literal · 1)
        (firstOf sampleTypes.nodeType .any .literal (sampleLinks.childs 0)) := by
  have hfinds : firstOf sampleTypes.nodeType .any .literal (sampleLinks.childs 0) = some 3 ∧
      lastOf sampleTypes.nodeType .any .literal (sampleLinks.childs 0) = some 3 := by decide
  have hchild : ComesTo ((nodeTypeLoops sampleLinks sampleTypes).lastChild .literal · 0) none := by
    refine ⟨2, fun n hn => ?_⟩
    obtain ⟨n, rfl⟩ := Nat.exists_eq_add_of_le' hn
    rfl
  have hsibling : ComesTo ((nodeTypeLoops sampleLinks sampleTypes).firstSibling .literal · 1) none := by
    refine ⟨1, fun n hn => ?_⟩
    obtain ⟨n, rfl⟩ := Nat.exists_eq_add_of_le' hn
    rfl
  rw [hfinds.1, hfinds.2, hchild.iff, hsibling.iff]
  exact ⟨sampleLinks_reached.linked.at_node 0, nofun, nofun⟩

end Navigation

end Fanjet

end LibEvmvc
