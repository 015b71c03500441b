import LibEvmvc.Foundation.Chains
import LibEvmvc.Routing.Dispatch

set_option autoImplicit false

/-! # Finding a router by its path

The full path of a router is its path behind those of the routers above it, and `find_router` looks for
a router by that, depth first from the one it is called on.

`register_router` does not ask if a router is filed under itself or under one below it. The parents then
go round in a circle, and neither of the two functions comes back. Without such a call all full paths
are there (`fullPath_returns_iff`), and if no two routers of one path are filed under one parent, the
search comes to every router below the one it begins with (`findRouter_searches`). -/

namespace LibEvmvc

/-- `router_t::full_path` of the router at `i`; `none` if its calls get deeper than `depth`. -/
def fullPath (heap : List RouterT) : Nat → Nat → Option Bytes
  | 0, _ => none
  | depth + 1, i =>
    match heap[i]? with
    | none => none
    | some r =>
      match r.parent with
      | some p => (fullPath heap depth p).map (· ++ r.path)
      | none => some r.path

/-- The test of `find_router`. -/
def answersTo (partialPath : Bool) (full path : Bytes) : Bool :=
  (partialPath || full.length == path.length) && strcasecmp full path

/-- The loop of `find_router` over the children. -/
def firstFound (find : Nat → Option (Option Nat)) : List (Bytes × Nat) → Option (Option Nat)
  | [] => some none
  | e :: es =>
    match find e.2 with
    | some none => firstFound find es
    | found => found

/-- `router_t::find_router` on the router at `i`: the router it returns, if any; `none` if its calls get
    deeper than `depth`. `o` is the order of the map of each router. -/
def findRouter (heap : List RouterT) (o : Nat → IterOrder Bytes Nat) (partialPath : Bool)
    (path : Bytes) : Nat → Nat → Option (Option Nat)
  | 0, _ => none
  | depth + 1, i =>
    match heap[i]?, fullPath heap depth i with
    | some r, some full =>
      if answersTo partialPath full path then some (some i)
      else firstFound (findRouter heap o partialPath path depth) (r.routers.iterate (o i))
    | _, _ => none

/-! ## Full paths -/

/-- The router at `p` is the parent of the one at `i`. -/
def ParentOf (heap : List RouterT) (i p : Nat) : Prop := ∃ r, IsChild heap p i r

/-- The router at `j` is the one at `i` or below it. -/
def Below (heap : List RouterT) (i j : Nat) : Prop := Relation.ReflTransGen (ParentOf heap) j i

section FullPath

variable {heap : List RouterT} {i : Nat} {r : RouterT}

theorem parentOf_unique : Relator.RightUnique (ParentOf heap) := by
  rintro i p p' ⟨r, hr, hp⟩ ⟨r', hr', hp'⟩
  have hsame : r = r' := Option.some.inj (hr.symm.trans hr')
  subst hsame
  exact Option.some.inj (hp.symm.trans hp')

theorem fullPath_mono {depth depth' : Nat} {full : Bytes} (h : fullPath heap depth i = some full)
    (hle : depth ≤ depth') : fullPath heap depth' i = some full := by
  induction depth generalizing i depth' full with
  | zero => cases h
  | succ depth ih =>
    obtain ⟨depth', rfl⟩ : ∃ d, depth' = d + 1 := ⟨depth' - 1, by omega⟩
    unfold fullPath at h ⊢
    cases hr : heap[i]? with
    | none =>
      rw [hr] at h
      cases h
    | some r =>
      simp only [hr] at h ⊢
      cases hp : r.parent with
      | none => simpa only [hp] using h
      | some p =>
        simp only [hp] at h ⊢
        obtain ⟨above, habove, rfl⟩ := Option.map_eq_some_iff.1 h
        rw [ih habove (by omega), Option.map_some]

theorem fullPath_unique {depth depth' : Nat} {full full' : Bytes}
    (h : fullPath heap depth i = some full) (h' : fullPath heap depth' i = some full') :
    full = full' := by
  have hmax := fullPath_mono h (Nat.le_max_left depth depth')
  rw [fullPath_mono h' (Nat.le_max_right depth depth')] at hmax
  exact (Option.some.inj hmax).symm

/-- `full_path` comes back exactly if the way up comes to an end. -/
theorem fullPath_returns (hthere : ∀ i p, ParentOf heap i p → ∃ r, heap[p]? = some r)
    (hr : heap[i]? = some r) :
    (∃ depth full, fullPath heap depth i = some full) ↔ Halts (ParentOf heap) i := by
  constructor
  · rintro ⟨depth, full, h⟩
    induction depth generalizing i r full with
    | zero => cases h
    | succ depth ih =>
      refine halts_of_step fun p hp => ?_
      obtain ⟨rp, hrp⟩ := hthere i p hp
      obtain ⟨r', hr', hp⟩ := hp
      simp only [fullPath, hr', hp] at h
      obtain ⟨above, habove, -⟩ := Option.map_eq_some_iff.1 h
      exact ih hrp above habove
  · intro h
    induction h generalizing r with
    | intro i _ ih =>
      cases hp : r.parent with
      | none => exact ⟨1, r.path, by simp [fullPath, hr, hp]⟩
      | some p =>
        have hparent : ParentOf heap i p := ⟨r, hr, hp⟩
        obtain ⟨rp, hrp⟩ := hthere i p hparent
        obtain ⟨depth, above, habove⟩ := ih p hparent hrp
        exact ⟨depth + 1, above ++ r.path, by simp [fullPath, hr, hp, habove]⟩

end FullPath

/-! ## Circles -/

/-- No router is filed under itself or below itself. -/
def NoLoop (heap : List RouterT) (call : RegisterCall) : Prop :=
  ∀ r c, heap[call.this]? = some r → heap[call.child]? = some c → c.path ≠ bytes "/" →
    ¬ Below heap call.child call.this

/-- `full_path` comes back for all routers. -/
def PathsReturn (heap : List RouterT) : Prop :=
  ∀ i r, heap[i]? = some r → ∃ depth full, fullPath heap depth i = some full

/-- The parents are routers, and every way up comes to an end. -/
structure Climbs (heap : List RouterT) : Prop where
  there : ∀ i p, ParentOf heap i p → ∃ r, heap[p]? = some r
  halts : ∀ i, Halts (ParentOf heap) i

section Climb

variable {heap : List RouterT} {ps : PathSort} {call : RegisterCall}

theorem Climbs.pathsReturn (h : Climbs heap) : PathsReturn heap := fun i _ hr =>
  (fullPath_returns h.there hr).2 (h.halts i)

theorem climbs_of_unregistered (h : Unregistered heap) : Climbs heap := by
  have hnone : ∀ i p, ¬ ParentOf heap i p := by
    rintro i p ⟨r, hr, hp⟩
    rw [(h r (List.mem_of_getElem? hr)).1] at hp
    cases hp
  exact ⟨fun i p hp => absurd hp (hnone i p), fun i => halts_of_step fun p hp => absurd hp (hnone i p)⟩

/-- A call leaves the routers as they are, or it gives the child another parent. -/
theorem registerStep_redirects (ps : PathSort) (heap : List RouterT) (call : RegisterCall) :
    registerStep ps heap call = heap ∧
        (∀ c, heap[call.child]? = some c → (∃ r, heap[call.this]? = some r) → c.path = bytes "/") ∨
      ∃ r c, heap[call.this]? = some r ∧ heap[call.child]? = some c ∧ c.path ≠ bytes "/" ∧
        (∀ j : Nat, (registerStep ps heap call)[j]?.isSome = heap[j]?.isSome) ∧
        Redirected (ParentOf heap) (ParentOf (registerStep ps heap call)) call.child call.this := by
  rcases registerStep_cases ps heap call with hsame | ⟨r, c, hr, hc, hpath, hget⟩
  · exact .inl hsame
  · refine .inr ⟨r, c, hr, hc, hpath, fun j => by rw [hget, Option.isSome_map], fun a b => ?_⟩
    constructor
    · rintro ⟨x', hx', hparent⟩
      rw [hget] at hx'
      obtain ⟨x, hx, rfl⟩ := Option.map_eq_some_iff.1 hx'
      rw [after_parent] at hparent
      split at hparent
      · next hchild => exact .inl ⟨hchild.symm, (Option.some.inj hparent).symm⟩
      · next hchild => exact .inr ⟨Ne.symm hchild, x, hx, hparent⟩
    · rintro (⟨rfl, rfl⟩ | ⟨hne, x, hx, hparent⟩)
      · exact ⟨_, by rw [hget, hc, Option.map_some], by rw [after_parent, if_pos rfl]⟩
      · exact ⟨_, by rw [hget, hx, Option.map_some], by rw [after_parent, if_neg (Ne.symm hne), hparent]⟩

theorem length_registerStep (ps : PathSort) (heap : List RouterT) (call : RegisterCall) :
    (registerStep ps heap call).length = heap.length := by
  unfold registerStep registerRouter
  split
  · next heap' heq =>
    split at heq
    · split at heq
      · cases heq
      · cases heq
        split <;> simp
    · cases heq
  · rfl

theorem Climbs.there_step (h : Climbs heap) :
    ∀ i p, ParentOf (registerStep ps heap call) i p → ∃ r, (registerStep ps heap call)[p]? = some r := by
  intro i p hp
  rcases registerStep_redirects ps heap call with ⟨hsame, -⟩ | ⟨r, c, hr, hc, -, hthere, hredirected⟩
  · rw [hsame] at hp ⊢
    exact h.there i p hp
  · have hold : heap[p]?.isSome := by
      rcases (hredirected i p).1 hp with ⟨-, rfl⟩ | ⟨-, hold⟩
      · rw [hr, Option.isSome_some]
      · obtain ⟨rp, hrp⟩ := h.there i p hold
        rw [hrp, Option.isSome_some]
    exact Option.isSome_iff_exists.1 ((hthere p).trans hold)

theorem Climbs.step (h : Climbs heap) (hloop : NoLoop heap call) :
    Climbs (registerStep ps heap call) := by
  refine ⟨h.there_step, ?_⟩
  rcases registerStep_redirects ps heap call with ⟨hsame, -⟩ | ⟨r, c, hr, hc, hpath, -, hredirected⟩
  · rw [hsame]
    exact h.halts
  · exact (hredirected.halts_iff h.halts).2 (hloop r c hr hc hpath)

/-- Filed below itself, a router has no full path. -/
theorem Climbs.loop_child (h : Climbs heap) (hloop : ¬ NoLoop heap call) (depth : Nat) :
    fullPath (registerStep ps heap call) depth call.child = none := by
  rw [Option.eq_none_iff_forall_ne_some]
  intro full hfull
  refine hloop fun r c hr hc hpath => ?_
  rcases registerStep_redirects ps heap call with ⟨-, hroot⟩ | ⟨-, -, -, -, -, hthere, hredirected⟩
  · exact absurd (hroot c hc ⟨r, hr⟩) hpath
  · intro hbelow
    have hsome : (registerStep ps heap call)[call.child]?.isSome := by
      rw [hthere, hc, Option.isSome_some]
    obtain ⟨c', hc'⟩ := Option.isSome_iff_exists.1 hsome
    have hhalts := (fullPath_returns h.there_step hc').1 ⟨depth, full, hfull⟩
    exact hhalts.not_cyclic (hredirected.cyclic hbelow)

theorem Climbs.loop (h : Climbs heap) (hloop : ¬ NoLoop heap call) :
    ¬ PathsReturn (registerStep ps heap call) := by
  intro hreturn
  have hlen : call.child < (registerStep ps heap call).length := by
    rw [length_registerStep]
    by_contra hnone
    exact hloop fun r c _ hc _ => absurd (List.getElem?_eq_some_iff.1 hc).1 hnone
  obtain ⟨depth, full, hfull⟩ := hreturn call.child _ (List.getElem?_eq_getElem hlen)
  rw [h.loop_child hloop] at hfull
  cases hfull

end Climb

/-- **All full paths are there after each call exactly if no call files a router under itself or below
    itself**; the first call that does so leaves the router it files without one. -/
theorem fullPath_returns_iff (ps : PathSort) {heap : List RouterT} (h : Unregistered heap)
    (calls : List RegisterCall) :
    (EachState (registerStep ps) PathsReturn heap calls ↔
      EachStep (registerStep ps) NoLoop heap calls) ∧
    ∀ before call after, calls = before ++ call :: after → EachStep (registerStep ps) NoLoop heap before →
      ¬ NoLoop (before.foldl (registerStep ps) heap) call → ∀ depth,
        fullPath ((before ++ [call]).foldl (registerStep ps) heap) depth call.child = none := by
  refine ⟨eachState_iff (fun _ hc => hc.pathsReturn) (fun _ _ hc hloop => hc.step hloop)
    (fun _ _ hc hloop => hc.loop hloop) (climbs_of_unregistered h) calls, ?_⟩
  intro before call _ _ hbefore hloop depth
  have hclimbs : Climbs (before.foldl (registerStep ps) heap) :=
    hbefore.invariant (fun _ _ hc hno => hc.step hno) (climbs_of_unregistered h)
  rw [List.foldl_append]
  exact hclimbs.loop_child hloop depth

/-- A router without a parent is below itself only. -/
theorem not_below_top {heap : List RouterT} {i j : Nat} {r : RouterT} (hr : heap[j]? = some r)
    (htop : r.parent = none) (hne : j ≠ i) : ¬ Below heap i j := by
  intro h
  rcases h.cases_head with rfl | ⟨p, ⟨r', hr', hp⟩, -⟩
  · exact hne rfl
  · have hsame : r = r' := Option.some.inj (hr.symm.trans hr')
    rw [← hsame, htop] at hp
    cases hp

/-- A router under the root and another one under that. -/
theorem noLoop_sampleRouters :
    EachStep (registerStep .merge) NoLoop sampleRouters [⟨0, 1⟩, ⟨1, 3⟩] := by
  refine ⟨fun r c hr hc _ => not_below_top hr ?_ (by decide), fun r c hr hc _ => ?_, trivial⟩
  · cases hr
    rfl
  · intro h
    rcases h.cases_head with h13 | ⟨p, ⟨r', hr', hp⟩, h⟩
    · exact absurd h13 (by decide)
    · cases hr'
      obtain rfl : 0 = p := Option.some.inj hp
      exact not_below_top rfl rfl (by decide) h

theorem fullPath_returns_nested :
    EachState (registerStep .merge) PathsReturn sampleRouters [⟨0, 1⟩, ⟨1, 3⟩] :=
  (fullPath_returns_iff .merge unregistered_sampleRouters _).1.2 noLoop_sampleRouters

/-! ## The search -/

/-- A call of `find_router`, by its arguments and the depth of its calls. -/
abbrev RouterSearch := Bool → Bytes → Nat → Option (Option Nat)

abbrev searchAt (heap : List RouterT) (o : Nat → IterOrder Bytes Nat) (i : Nat) : RouterSearch :=
  fun partialPath path depth => findRouter heap o partialPath path depth i

/-- The search among children. -/
abbrev searchAll (heap : List RouterT) (o : Nat → IterOrder Bytes Nat) (es : List (Bytes × Nat)) :
    RouterSearch :=
  fun partialPath path depth => firstFound (findRouter heap o partialPath path depth) es

/-- The routers at `starts` and all below them in the order in which a search comes to them, with their
    full paths. -/
structure Walks (heap : List RouterT) (starts : List Nat) (search : RouterSearch)
    (walk : List (Nat × Bytes)) : Prop where
  nodup : (walk.map Prod.fst).Nodup
  mem : ∀ j full, (j, full) ∈ walk ↔
    (∃ i ∈ starts, Below heap i j) ∧ ∃ depth, fullPath heap depth j = some full
  finds : ∀ partialPath path, ∃ depth₀, ∀ depth, depth₀ ≤ depth →
    search partialPath path depth =
      some ((walk.find? fun e => answersTo partialPath e.2 path).map Prod.fst)

section Search

variable {heap : List RouterT} {o : Nat → IterOrder Bytes Nat}

theorem Walks.fst_mem {starts : List Nat} {search : RouterSearch} {walk : List (Nat × Bytes)}
    (h : Walks heap starts search walk) {j : Nat} (hj : j ∈ walk.map Prod.fst) :
    ∃ i ∈ starts, Below heap i j := by
  obtain ⟨⟨j, full⟩, hmem, rfl⟩ := List.mem_map.1 hj
  exact ((h.mem j full).1 hmem).1

theorem walks_nil : Walks heap [] (searchAll heap o []) [] :=
  ⟨List.nodup_nil, by simp, fun _ _ => ⟨0, fun _ _ => rfl⟩⟩

/-- The walk of the first child, and behind it those of the others. -/
theorem walks_cons {e : Bytes × Nat} {es : List (Bytes × Nat)} {walk walks : List (Nat × Bytes)}
    (h : Walks heap [e.2] (searchAt heap o e.2) walk)
    (hs : Walks heap (es.map Prod.snd) (searchAll heap o es) walks)
    (hapart : ∀ j, Below heap e.2 j → ∀ i ∈ es.map Prod.snd, ¬ Below heap i j) :
    Walks heap ((e :: es).map Prod.snd) (searchAll heap o (e :: es)) (walk ++ walks) := by
  refine ⟨?_, fun j full => ?_, fun partialPath path => ?_⟩
  · rw [List.map_append, List.nodup_append]
    refine ⟨h.nodup, hs.nodup, fun j hj j' hj' hjj' => ?_⟩
    obtain ⟨i, hi, hbelow⟩ := h.fst_mem hj
    obtain ⟨i', hi', hbelow'⟩ := hs.fst_mem hj'
    rw [List.mem_singleton] at hi
    subst hi hjj'
    exact hapart j hbelow i' hi' hbelow'
  · rw [List.mem_append, h.mem, hs.mem, ← or_and_right, List.map_cons]
    simp only [List.exists_mem_cons_iff, List.not_mem_nil, false_and, exists_false, or_false]
  · obtain ⟨depth₁, hfirst⟩ := h.finds partialPath path
    obtain ⟨depth₂, hrest⟩ := hs.finds partialPath path
    refine ⟨max depth₁ depth₂, fun depth hdepth => ?_⟩
    simp only [firstFound, hfirst depth (by omega), hrest depth (by omega), List.find?_append]
    cases walk.find? fun e => answersTo partialPath e.2 path with
    | none => simp
    | some found => simp

/-- Two children of one router have none below both. -/
theorem children_apart (hhalts : ∀ i, Halts (ParentOf heap) i) {i a b j : Nat}
    (ha : ParentOf heap a i) (hb : ParentOf heap b i) (hja : Below heap a j) (hjb : Below heap b j) :
    a = b := by
  have hsame {a b : Nat} (ha : ParentOf heap a i) (hb : ParentOf heap b i)
      (hab : Relation.ReflTransGen (ParentOf heap) a b) : a = b := by
    rcases hab.cases_head with rfl | ⟨p, hp, hpb⟩
    · rfl
    · -- else the way up from the parent leads back to it
      obtain rfl := parentOf_unique ha hp
      exact absurd (Relation.TransGen.tail' hpb hb) (hhalts i).not_cyclic
  rcases Relation.ReflTransGen.total_of_right_unique parentOf_unique hja hjb with hab | hba
  · exact hsame ha hb hab
  · exact (hsame hb ha hba).symm

/-- The children of a router, as its map has them. -/
theorem Linked.mem_children (hl : Linked heap) {i : Nat} {r : RouterT} (hr : heap[i]? = some r)
    {c : Nat} : c ∈ (r.routers.iterate (o i)).map Prod.snd ↔ ParentOf heap c i := by
  constructor
  · intro h
    obtain ⟨e, he, rfl⟩ := List.mem_map.1 h
    have hget := UMap.get?_of_mem ((UMap.mem_iterate _ _ _).1 he)
    obtain ⟨rc, hrc, hparent, -⟩ := hl.child i r e.1 e.2 hr hget
    exact ⟨rc, hrc, hparent⟩
  · rintro ⟨rc, hrc⟩
    obtain ⟨e, he, -, rfl⟩ := UMap.mem_of_get? (hl.get?_child hr hrc).1
    exact List.mem_map_of_mem ((UMap.mem_iterate _ _ _).2 he)

theorem Linked.nodup_children (hl : Linked heap) {i : Nat} {r : RouterT} (hr : heap[i]? = some r) :
    ((r.routers.iterate (o i)).map Prod.snd).Nodup := by
  have hentries : r.routers.entries.Nodup := r.routers.nodup.of_map _
  refine List.Nodup.map_on ?_ (((o i).perm _).nodup_iff.2 hentries)
  rintro ⟨p, c⟩ he ⟨p', c'⟩ he' rfl
  have hpath {p : Bytes} (he : (p, c) ∈ r.routers.iterate (o i)) :
      ∃ rc, heap[c]? = some rc ∧ rc.path = p := by
    have hget := UMap.get?_of_mem ((UMap.mem_iterate _ _ _).1 he)
    obtain ⟨rc, hrc, -, hpath⟩ := hl.child i r p c hr hget
    exact ⟨rc, hrc, hpath⟩
  obtain ⟨rc, hrc, rfl⟩ := hpath he
  obtain ⟨rc', hrc', rfl⟩ := hpath he'
  rw [Option.some.inj (hrc.symm.trans hrc')]

theorem walks_children (hhalts : ∀ i, Halts (ParentOf heap) i) {i : Nat} {es : List (Bytes × Nat)}
    (hnodup : (es.map Prod.snd).Nodup) (hes : ∀ c ∈ es.map Prod.snd, ParentOf heap c i)
    (hwalks : ∀ c ∈ es.map Prod.snd, ∃ walk, Walks heap [c] (searchAt heap o c) walk) :
    ∃ walks, Walks heap (es.map Prod.snd) (searchAll heap o es) walks := by
  induction es with
  | nil => exact ⟨[], walks_nil⟩
  | cons e es ih =>
    rw [List.map_cons, List.nodup_cons] at hnodup
    simp only [List.map_cons, List.forall_mem_cons] at hes hwalks
    obtain ⟨walk, hwalk⟩ := hwalks.1
    obtain ⟨walks, hrest⟩ := ih hnodup.2 hes.2 hwalks.2
    refine ⟨walk ++ walks, walks_cons hwalk hrest fun j hj i' hi' hj' => ?_⟩
    have hsame := children_apart hhalts hes.1 (hes.2 i' hi') hj hj'
    exact hnodup.1 (hsame ▸ hi')

/-- A router comes first in its walk, then the walks of its children. -/
theorem walks_router (hl : Linked heap) (hc : Climbs heap) {i : Nat} {r : RouterT} {full : Bytes}
    {depth₁ : Nat} (hr : heap[i]? = some r) (hfull : fullPath heap depth₁ i = some full)
    {walks : List (Nat × Bytes)}
    (hwalks : Walks heap ((r.routers.iterate (o i)).map Prod.snd)
      (searchAll heap o (r.routers.iterate (o i))) walks) :
    Walks heap [i] (searchAt heap o i) ((i, full) :: walks) := by
  have hbelow (j : Nat) : Below heap i j ↔
      j = i ∨ ∃ c ∈ (r.routers.iterate (o i)).map Prod.snd, Below heap c j := by
    constructor
    · intro h
      rcases h.cases_tail with rfl | ⟨c, hjc, hci⟩
      · exact .inl rfl
      · exact .inr ⟨c, (hl.mem_children hr).2 hci, hjc⟩
    · rintro (rfl | ⟨c, hmem, hjc⟩)
      · exact .refl
      · exact hjc.tail ((hl.mem_children hr).1 hmem)
  refine ⟨?_, fun j full' => ?_, fun partialPath path => ?_⟩
  · rw [List.map_cons, List.nodup_cons]
    refine ⟨fun hmem => ?_, hwalks.nodup⟩
    obtain ⟨c, hmem, hci⟩ := hwalks.fst_mem hmem
    exact (hc.halts i).not_cyclic (Relation.TransGen.tail' hci ((hl.mem_children hr).1 hmem))
  · rw [List.mem_cons, hwalks.mem]
    simp only [List.mem_singleton, exists_eq_left, hbelow, or_and_right, Prod.mk.injEq]
    refine or_congr_left (and_congr_right ?_)
    rintro rfl
    constructor
    · rintro rfl
      exact ⟨depth₁, hfull⟩
    · rintro ⟨depth, h⟩
      exact fullPath_unique h hfull
  · obtain ⟨depth₂, hfinds⟩ := hwalks.finds partialPath path
    refine ⟨max depth₁ depth₂ + 1, fun depth hdepth => ?_⟩
    obtain ⟨depth, rfl⟩ : ∃ d, depth = d + 1 := ⟨depth - 1, by omega⟩
    simp only [findRouter, hr, fullPath_mono hfull (show depth₁ ≤ depth by omega)]
    cases hans : answersTo partialPath full path with
    | true => simp [hans]
    | false => simp [hans, hfinds depth (by omega)]

theorem walks_exist (hl : Linked heap) (hc : Climbs heap) {i : Nat} {r : RouterT}
    (hr : heap[i]? = some r) : ∃ walk, Walks heap [i] (searchAt heap o i) walk := by
  have hdown : Halts (Function.swap (ParentOf heap)) i := by
    refine halts_swap hc.halts ((Set.finite_le_nat (max i heap.length)).subset fun j hj => ?_)
    rcases hj.cases_tail with rfl | ⟨p, -, r', hr', -⟩
    · exact Nat.le_max_left _ _
    · exact ((List.getElem?_eq_some_iff.1 hr').1.le).trans (Nat.le_max_right _ _)
  induction hdown generalizing r with
  | intro i _ ih =>
    have hchild (c : Nat) (hmem : c ∈ (r.routers.iterate (o i)).map Prod.snd) : ParentOf heap c i :=
      (hl.mem_children hr).1 hmem
    obtain ⟨walks, hwalks⟩ := walks_children hc.halts (hl.nodup_children hr) hchild fun c hmem => by
      obtain ⟨rc, hrc⟩ := hchild c hmem
      exact ih c ⟨rc, hrc⟩ hrc.1
    obtain ⟨depth, full, hfull⟩ := hc.pathsReturn i r hr
    exact ⟨_, walks_router hl hc hr hfull hwalks⟩

end Search

/-- **`find_router` searches the routers below the one it is called on**: they come in an order that does
    not depend on the path, each of them once, and the first one with the path is returned. If there is
    none, no router is. -/
theorem findRouter_searches (ps : PathSort) {heap₀ : List RouterT} (h : Unregistered heap₀)
    (calls : List RegisterCall)
    (hsteps : EachStep (registerStep ps) (fun heap call => NoNamesake heap call ∧ NoLoop heap call) heap₀
      calls) (o : Nat → IterOrder Bytes Nat) (i : Nat) (hi : i < heap₀.length) :
    let heap := calls.foldl (registerStep ps) heap₀
    ∃ walk : List (Nat × Bytes), (walk.map Prod.fst).Nodup ∧
      (∀ j full, (j, full) ∈ walk ↔
        Below heap i j ∧ ∃ depth, fullPath heap depth j = some full) ∧
      ∀ partialPath path, ∃ depth₀, ∀ depth, depth₀ ≤ depth →
        findRouter heap o partialPath path depth i =
          some ((walk.find? fun e => answersTo partialPath e.2 path).map Prod.fst) := by
  intro heap
  obtain ⟨hl, hc, hlen⟩ : Linked heap ∧ Climbs heap ∧ heap.length = heap₀.length := by
    refine hsteps.invariant (J := fun heap => Linked heap ∧ Climbs heap ∧ heap.length = heap₀.length) ?_
      ⟨linked_of_unregistered h, climbs_of_unregistered h, rfl⟩
    rintro heap call ⟨hl, hc, hlen⟩ ⟨hname, hloop⟩
    exact ⟨hl.registerStep hname, hc.step hloop, (length_registerStep ps heap call).trans hlen⟩
  obtain ⟨walk, hwalk⟩ := walks_exist (o := o) hl hc (List.getElem?_eq_getElem (hlen ▸ hi))
  refine ⟨walk, hwalk.nodup, fun j full => ?_, hwalk.finds⟩
  simpa only [List.mem_singleton, exists_eq_left] using hwalk.mem j full

theorem findRouter_searches_nested :
    let heap := [⟨0, 1⟩, ⟨1, 3⟩].foldl (registerStep .merge) sampleRouters
    findRouter heap (fun _ => .insertion _ _) false (bytes "/A/b/") 6 0 = some (some 3) ∧
    ∃ walk : List (Nat × Bytes), (walk.map Prod.fst).Nodup ∧
      (∀ j full, (j, full) ∈ walk ↔
        Below heap 0 j ∧ ∃ depth, fullPath heap depth j = some full) ∧
      ∀ partialPath path, ∃ depth₀, ∀ depth, depth₀ ≤ depth →
        findRouter heap (fun _ => .insertion _ _) partialPath path depth 0 =
          some ((walk.find? fun e => answersTo partialPath e.2 path).map Prod.fst) := by
  refine ⟨by decide +kernel, findRouter_searches .merge unregistered_sampleRouters [⟨0, 1⟩, ⟨1, 3⟩]
    ⟨⟨?_, noLoop_sampleRouters.1⟩, ⟨?_, noLoop_sampleRouters.2.1⟩, trivial⟩ (fun _ => .insertion _ _) 0
    (by decide)⟩
  · rintro r c other hr hc - hget
    cases hr
    cases hget
  · rintro r c other hr hc - hget
    cases hr
    cases hget

end LibEvmvc
