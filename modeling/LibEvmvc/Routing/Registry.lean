import LibEvmvc.Foundation.Runs
import LibEvmvc.Routing.Router

set_option autoImplicit false

/-! # Registering routers under routers

A router keeps its children twice: their paths in a vector, the longest first, and the routers in a
map by path. `register_router` takes a router from the parent it had and files it under a new one; it
finds what to take away by path, not by identity, and `emplace` does not replace an entry.

So two children of one path are listed twice and stored once, and moving one of them away takes the
other's entry. As long as no router is filed under a parent that has another child of the same path,
vector, map and parents agree (`Linked`); the first call that does it leaves a path listed twice. -/

namespace LibEvmvc

/-- `std::sort` by size, the longest first. It is not stable: paths of one size come in any order. -/
structure PathSort where
  sort : List Bytes → List Bytes
  perm : ∀ l, (sort l).Perm l
  sorted : ∀ l, (sort l).Pairwise fun a b => b.length ≤ a.length

/-- A call `this->register_router(child)`. -/
structure RegisterCall where
  this : Nat
  child : Nat
  deriving DecidableEq, Repr

namespace RouterT

/-- Take the child of a path away. -/
def eraseChild (r : RouterT) (path : Bytes) : RouterT :=
  { r with routerPaths := r.routerPaths.erase path, routers := r.routers.erase path }

/-- File a child under its path. -/
def emplaceChild (ps : PathSort) (r : RouterT) (path : Bytes) (child : Nat) : RouterT :=
  { r with
    routerPaths := ps.sort (r.routerPaths ++ [path])
    routers := r.routers.emplace path child }

end RouterT

/-- `router_t::register_router`. A call on or with no router at all is none. -/
def registerRouter (ps : PathSort) (heap : List RouterT) (call : RegisterCall) :
    Except CbError (List RouterT) :=
  match heap[call.this]?, heap[call.child]? with
  | some _, some c =>
    if c.path = bytes "/" then
      .error "invalid path '/', can't add router_t with root path!"
    else
      -- remove router_t from previous parent if needed
      let heap := match c.parent with
        | some p => heap.modify p fun r => r.eraseChild c.path
        | none => heap
      let heap := heap.modify call.child fun r => { r with parent := some call.this }
      .ok (heap.modify call.this fun r => r.emplaceChild ps c.path call.child)
  | _, _ => .error "no router"

/-- A call that throws changes nothing. -/
def registerStep (ps : PathSort) (heap : List RouterT) (call : RegisterCall) : List RouterT :=
  match registerRouter ps heap call with
  | .ok heap' => heap'
  | .error _ => heap

/-- No router has been registered yet. -/
def Unregistered (heap : List RouterT) : Prop :=
  ∀ r ∈ heap, r.parent = none ∧ r.routerPaths = [] ∧ r.routers = .empty _ _

/-- Every listed path is in the map, once listed, and the map holds children of the router under
    their own paths. -/
structure Registered (heap : List RouterT) : Prop where
  listed : ∀ (i : Nat) (r : RouterT), heap[i]? = some r → ∀ p ∈ r.routerPaths,
    (r.routers.get? p).isSome
  nodup : ∀ (i : Nat) (r : RouterT), heap[i]? = some r → r.routerPaths.Nodup
  child : ∀ (i : Nat) (r : RouterT) (p : Bytes) (c : Nat), heap[i]? = some r →
    r.routers.get? p = some c → ∃ rc, heap[c]? = some rc ∧ rc.parent = some i ∧ rc.path = p

/-- Vector, map and parents agree. -/
structure Linked (heap : List RouterT) : Prop extends Registered heap where
  filed : ∀ (i : Nat) (r : RouterT) (p : Bytes) (c : Nat), heap[i]? = some r →
    r.routers.get? p = some c → p ∈ r.routerPaths
  parent : ∀ (c : Nat) (rc : RouterT) (i : Nat), heap[c]? = some rc → rc.parent = some i →
    rc.path ≠ bytes "/" ∧ ∃ r, heap[i]? = some r ∧ r.routers.get? rc.path = some c
  sorted : ∀ (i : Nat) (r : RouterT), heap[i]? = some r →
    r.routerPaths.Pairwise fun a b => b.length ≤ a.length

/-- The new parent has no other child of the same path. -/
def NoNamesake (heap : List RouterT) (call : RegisterCall) : Prop :=
  ∀ (r c : RouterT) (other : Nat), heap[call.this]? = some r → heap[call.child]? = some c →
    c.path ≠ bytes "/" → r.routers.get? c.path = some other → other = call.child

theorem linked_of_unregistered {heap : List RouterT} (h : Unregistered heap) : Linked heap := by
  have hmem : ∀ (i : Nat) (r : RouterT), heap[i]? = some r → r ∈ heap := fun i r hr =>
    List.mem_of_getElem? hr
  refine ⟨⟨?_, ?_, ?_⟩, ?_, ?_, ?_⟩
  · intro i r hr p hp
    rw [(h r (hmem i r hr)).2.1] at hp
    cases hp
  · intro i r hr
    rw [(h r (hmem i r hr)).2.1]
    exact List.nodup_nil
  · intro i r p c hr hc
    rw [(h r (hmem i r hr)).2.2] at hc
    cases hc
  · intro i r p c hr hc
    rw [(h r (hmem i r hr)).2.2] at hc
    cases hc
  · intro c rc i hrc hp
    rw [(h rc (hmem c rc hrc)).1] at hp
    cases hp
  · intro i r hr
    rw [(h r (hmem i r hr)).2.1]
    exact List.Pairwise.nil

/-! ## One call -/

/-- What a call makes of the router at `j`. -/
def RouterT.after (r : RouterT) (ps : PathSort) (call : RegisterCall) (c : RouterT) (j : Nat) :
    RouterT :=
  let r := if c.parent = some j then r.eraseChild c.path else r
  let r := if call.child = j then { r with parent := some call.this } else r
  if call.this = j then r.emplaceChild ps c.path call.child else r

/-- What a call does: it throws and changes nothing, or it changes every router as `after` says. -/
theorem registerStep_cases (ps : PathSort) (heap : List RouterT) (call : RegisterCall) :
    (registerStep ps heap call = heap ∧ ∀ c, heap[call.child]? = some c →
      (∃ r, heap[call.this]? = some r) → c.path = bytes "/") ∨
    ∃ r c, heap[call.this]? = some r ∧ heap[call.child]? = some c ∧ c.path ≠ bytes "/" ∧
      ∀ j : Nat, (registerStep ps heap call)[j]? = heap[j]?.map fun x : RouterT => x.after ps call c j := by
  unfold registerStep registerRouter
  cases hthis : heap[call.this]? with
  | none =>
    left
    refine ⟨rfl, fun c _ hr => ?_⟩
    obtain ⟨r, hr⟩ := hr
    cases hr
  | some r => cases hchild : heap[call.child]? with
    | none =>
      left
      refine ⟨rfl, fun c hc => ?_⟩
      cases hc
    | some c =>
      by_cases hroot : c.path = bytes "/"
      · left
        simp only [hroot, if_true]
        refine ⟨trivial, fun c' hc' _ => ?_⟩
        cases hc'
        exact hroot
      · right
        refine ⟨r, c, rfl, rfl, hroot, fun j => ?_⟩
        simp only [hroot, if_false]
        cases hp : c.parent with
        | none =>
          simp only [List.getElem?_modify, Option.map_eq_map, Option.map_map]
          congr 1
          funext x
          simp [RouterT.after, hp]
        | some p =>
          simp only [List.getElem?_modify, Option.map_eq_map, Option.map_map]
          congr 1
          funext x
          simp [RouterT.after, hp]

section After

variable {ps : PathSort} {call : RegisterCall} {c r : RouterT} {j : Nat}

@[simp] theorem after_path : (r.after ps call c j).path = r.path := by
  unfold RouterT.after
  simp only
  split_ifs <;> rfl

@[simp] theorem after_parent : (r.after ps call c j).parent =
    if call.child = j then some call.this else r.parent := by
  unfold RouterT.after
  simp only
  split_ifs <;> rfl

theorem after_routers (p : Bytes) : (r.after ps call c j).routers.get? p =
    if call.this = j ∧ p = c.path then
      some (((if c.parent = some j then none else r.routers.get? p)).getD call.child)
    else if c.parent = some j ∧ p = c.path then none else r.routers.get? p := by
  unfold RouterT.after
  by_cases hparent : c.parent = some j <;> by_cases hthis : call.this = j <;>
    by_cases hchild : call.child = j <;> by_cases hp : p = c.path <;>
    simp [hparent, hthis, hchild, hp, RouterT.eraseChild, RouterT.emplaceChild, UMap.get?_emplace,
      UMap.get?_erase]

/-- The paths of the router before the call, without what was taken away. -/
def RouterT.kept (r c : RouterT) (j : Nat) : List Bytes :=
  if c.parent = some j then r.routerPaths.erase c.path else r.routerPaths

theorem after_routerPaths : (r.after ps call c j).routerPaths =
    if call.this = j then ps.sort (r.kept c j ++ [c.path]) else r.kept c j := by
  unfold RouterT.after RouterT.kept
  by_cases hparent : c.parent = some j <;> by_cases hthis : call.this = j <;>
    by_cases hchild : call.child = j <;>
    simp [hparent, hthis, hchild, RouterT.eraseChild, RouterT.emplaceChild]

theorem mem_kept (hnodup : r.routerPaths.Nodup) {p : Bytes} :
    p ∈ r.kept c j ↔ p ∈ r.routerPaths ∧ ¬ (c.parent = some j ∧ p = c.path) := by
  unfold RouterT.kept
  split
  · next h => simp [hnodup.mem_erase_iff, h, and_comm]
  · next h => simp [h]

theorem nodup_kept (hnodup : r.routerPaths.Nodup) : (r.kept c j).Nodup := by
  unfold RouterT.kept
  split
  · exact hnodup.erase _
  · exact hnodup

theorem mem_after_routerPaths {p : Bytes} :
    p ∈ (r.after ps call c j).routerPaths ↔ p ∈ r.kept c j ∨ (call.this = j ∧ p = c.path) := by
  rw [after_routerPaths]
  split
  · next h => simp [(ps.perm _).mem_iff, h]
  · next h => simp [h]

end After

/-! ## Calls that keep the children apart -/

section Keep

variable {ps : PathSort} {heap : List RouterT} {call : RegisterCall} {r c rj : RouterT} {j : Nat}

/-- Where a child is stored. -/
theorem Linked.stored (hl : Linked heap) (hc : heap[call.child]? = some c) (hj : heap[j]? = some rj)
    {p : Bytes} (h : rj.routers.get? p = some call.child) : c.parent = some j ∧ p = c.path := by
  obtain ⟨rc, hrc, hparent, hpath⟩ := hl.child j rj p call.child hj h
  rw [hc] at hrc
  cases hrc
  exact ⟨hparent, hpath.symm⟩

/-- The new parent had no child of that path, or it was this one and has been taken away. -/
theorem Linked.free (hl : Linked heap) (hr : heap[call.this]? = some r)
    (hc : heap[call.child]? = some c) (hroot : c.path ≠ bytes "/") (hname : NoNamesake heap call)
    (hparent : c.parent ≠ some call.this) : r.routers.get? c.path = none := by
  cases hget : r.routers.get? c.path with
  | none => rfl
  | some other =>
    have hown := hname r c other hr hc hroot hget
    rw [hown] at hget
    exact absurd (hl.stored hc hr hget).1 hparent

/-- The children after a call: the one that was moved, and the others as before. -/
theorem Linked.get?_after (hl : Linked heap) (hr : heap[call.this]? = some r)
    (hc : heap[call.child]? = some c) (hroot : c.path ≠ bytes "/") (hname : NoNamesake heap call)
    (hj : heap[j]? = some rj) (p : Bytes) (x : Nat) :
    (rj.after ps call c j).routers.get? p = some x ↔
      (x = call.child ∧ call.this = j ∧ p = c.path) ∨
        (x ≠ call.child ∧ rj.routers.get? p = some x) := by
  rw [after_routers]
  by_cases hnew : call.this = j ∧ p = c.path
  · obtain ⟨rfl, rfl⟩ := hnew
    rw [hr] at hj
    cases hj
    have hnone : (if c.parent = some call.this then none else r.routers.get? c.path) = none := by
      split
      · rfl
      · next hparent => exact hl.free hr hc hroot hname hparent
    simp only [hnone, Option.getD_none, and_self, if_true, Option.some.injEq]
    constructor
    · intro h
      exact .inl ⟨h.symm, trivial⟩
    · rintro (⟨h, -⟩ | ⟨hne, hget⟩)
      · exact h.symm
      · exact absurd (hname r c x hr hc hroot hget) hne
  · rw [if_neg hnew]
    by_cases hold : c.parent = some j ∧ p = c.path
    · obtain ⟨hparent, rfl⟩ := hold
      obtain ⟨-, r', hr', hget⟩ := hl.parent call.child c j hc hparent
      rw [hj] at hr'
      cases hr'
      rw [if_pos ⟨hparent, rfl⟩]
      constructor
      · intro h
        cases h
      · rintro (⟨-, h⟩ | ⟨hne, h⟩)
        · exact absurd h hnew
        · rw [hget] at h
          exact absurd (Option.some.inj h).symm hne
    · rw [if_neg hold]
      constructor
      · intro h
        refine .inr ⟨?_, h⟩
        rintro rfl
        exact hold (hl.stored hc hj h)
      · rintro (⟨-, h⟩ | ⟨-, h⟩)
        · exact absurd h hnew
        · exact h

/-- After a call every listed path is in the map. -/
theorem Linked.listed_after (hl : Linked heap) (hr : heap[call.this]? = some r)
    (hc : heap[call.child]? = some c) (hroot : c.path ≠ bytes "/") (hname : NoNamesake heap call)
    (hj : heap[j]? = some rj) {p : Bytes} (hp : p ∈ (rj.after ps call c j).routerPaths) :
    ((rj.after ps call c j).routers.get? p).isSome := by
  rw [Option.isSome_iff_exists]
  rcases mem_after_routerPaths.1 hp with hkept | hnew
  · obtain ⟨hlisted, hother⟩ := (mem_kept (hl.nodup j rj hj)).1 hkept
    obtain ⟨y, hy⟩ := Option.isSome_iff_exists.1 (hl.listed j rj hj p hlisted)
    refine ⟨y, (hl.get?_after hr hc hroot hname hj p y).2 (.inr ⟨?_, hy⟩)⟩
    rintro rfl
    exact hother (hl.stored hc hj hy)
  · exact ⟨call.child, (hl.get?_after hr hc hroot hname hj p _).2 (.inl ⟨rfl, hnew⟩)⟩

/-- After a call no path is listed twice. -/
theorem Linked.nodup_after (hl : Linked heap) (hr : heap[call.this]? = some r)
    (hc : heap[call.child]? = some c) (hroot : c.path ≠ bytes "/") (hname : NoNamesake heap call)
    (hj : heap[j]? = some rj) : (rj.after ps call c j).routerPaths.Nodup := by
  have hfree : c.path ∉ r.kept c call.this := by
    intro hmem
    obtain ⟨hlisted, hother⟩ := (mem_kept (hl.nodup _ r hr)).1 hmem
    obtain ⟨x, hx⟩ := Option.isSome_iff_exists.1 (hl.listed _ r hr _ hlisted)
    rw [hl.free hr hc hroot hname fun h => hother ⟨h, rfl⟩] at hx
    cases hx
  have hkept := nodup_kept (c := c) (j := j) (hl.nodup j rj hj)
  rw [after_routerPaths]
  split
  · next hthis =>
    subst hthis
    rw [hr] at hj
    cases hj
    rw [(ps.perm _).nodup_iff, List.nodup_append]
    refine ⟨hkept, List.nodup_singleton _, ?_⟩
    rintro a ha b hb rfl
    rw [List.mem_singleton] at hb
    rw [hb] at ha
    exact hfree ha
  · exact hkept

/-- After a call every path in the map is listed. -/
theorem Linked.filed_after (hl : Linked heap) (hr : heap[call.this]? = some r)
    (hc : heap[call.child]? = some c) (hroot : c.path ≠ bytes "/") (hname : NoNamesake heap call)
    (hj : heap[j]? = some rj) {p : Bytes} {y : Nat}
    (hy : (rj.after ps call c j).routers.get? p = some y) : p ∈ (rj.after ps call c j).routerPaths := by
  rw [mem_after_routerPaths]
  rcases (hl.get?_after hr hc hroot hname hj p y).1 hy with ⟨-, hnew⟩ | ⟨hne, hold⟩
  · exact .inr hnew
  · refine .inl ((mem_kept (hl.nodup j rj hj)).2 ⟨hl.filed j rj p y hj hold, ?_⟩)
    rintro ⟨hparent, rfl⟩
    obtain ⟨-, r', hr', hown⟩ := hl.parent call.child c j hc hparent
    rw [hj] at hr'
    cases hr'
    rw [hown] at hold
    exact hne (Option.some.inj hold).symm

/-- After a call the longest paths still come first. -/
theorem Linked.sorted_after (hl : Linked heap) (hj : heap[j]? = some rj) :
    (rj.after ps call c j).routerPaths.Pairwise fun a b => b.length ≤ a.length := by
  rw [after_routerPaths]
  split
  · exact ps.sorted _
  · unfold RouterT.kept
    split
    · exact (hl.sorted j rj hj).sublist (List.erase_sublist)
    · exact hl.sorted j rj hj

/-- **A call that brings no namesake keeps vector, map and parents in agreement.** -/
theorem Linked.registerStep (hl : Linked heap) (hname : NoNamesake heap call) :
    Linked (registerStep ps heap call) := by
  rcases registerStep_cases ps heap call with ⟨hsame, -⟩ | ⟨r, c, hr, hc, hroot, hget⟩
  · rw [hsame]
    exact hl
  have hinv : ∀ (j : Nat) (x : RouterT), (LibEvmvc.registerStep ps heap call)[j]? = some x →
      ∃ rj, heap[j]? = some rj ∧ x = rj.after ps call c j := by
    intro j x hx
    rw [hget] at hx
    obtain ⟨rj, hrj, rfl⟩ := Option.map_eq_some_iff.1 hx
    exact ⟨rj, hrj, rfl⟩
  refine ⟨⟨?_, ?_, ?_⟩, ?_, ?_, ?_⟩
  · intro j x hx p hp
    obtain ⟨rj, hrj, rfl⟩ := hinv j x hx
    exact hl.listed_after hr hc hroot hname hrj hp
  · intro j x hx
    obtain ⟨rj, hrj, rfl⟩ := hinv j x hx
    exact hl.nodup_after hr hc hroot hname hrj
  · intro j x p y hx hy
    obtain ⟨rj, hrj, rfl⟩ := hinv j x hx
    rcases (hl.get?_after hr hc hroot hname hrj p y).1 hy with ⟨rfl, rfl, rfl⟩ | ⟨hne, hold⟩
    · refine ⟨c.after ps call c call.child, ?_, ?_, ?_⟩
      · rw [hget, hc]
        rfl
      · simp
      · simp
    · obtain ⟨rc, hrc, hparent, hpath⟩ := hl.child j rj p y hrj hold
      refine ⟨rc.after ps call c y, ?_, ?_, ?_⟩
      · rw [hget, hrc]
        rfl
      · simp [Ne.symm hne, hparent]
      · simp [hpath]
  · intro j x p y hx hy
    obtain ⟨rj, hrj, rfl⟩ := hinv j x hx
    exact hl.filed_after hr hc hroot hname hrj hy
  · intro y x i hx hparent
    obtain ⟨ry, hry, rfl⟩ := hinv y x hx
    rw [after_parent] at hparent
    rw [after_path]
    by_cases hown : call.child = y
    · subst hown
      rw [hc] at hry
      cases hry
      rw [if_pos rfl] at hparent
      cases hparent
      refine ⟨hroot, r.after ps call c call.this, by rw [hget, hr]; rfl, ?_⟩
      exact (hl.get?_after hr hc hroot hname hr _ _).2 (.inl ⟨rfl, rfl, rfl⟩)
    · rw [if_neg hown] at hparent
      obtain ⟨hne, ri, hri, hold⟩ := hl.parent y ry i hry hparent
      refine ⟨hne, ri.after ps call c i, by rw [hget, hri]; rfl, ?_⟩
      exact (hl.get?_after hr hc hroot hname hri _ _).2 (.inr ⟨fun h => hown h.symm, hold⟩)
  · intro j x hx
    obtain ⟨rj, hrj, rfl⟩ := hinv j x hx
    exact hl.sorted_after hrj

/-- A call that brings a namesake leaves its path listed twice. -/
theorem Linked.namesake (hl : Linked heap) (hname : ¬ NoNamesake heap call) :
    ¬ Registered (LibEvmvc.registerStep ps heap call) := by
  unfold NoNamesake at hname
  push Not at hname
  obtain ⟨r, c, other, hr, hc, hroot, hget, hne⟩ := hname
  intro hreg
  rcases registerStep_cases ps heap call with ⟨-, hthrow⟩ | ⟨r', c', hr', hc', -, hget'⟩
  · exact hroot (hthrow c hc ⟨r, hr⟩)
  rw [hr] at hr'
  rw [hc] at hc'
  cases hr'
  cases hc'
  have hnodup := hreg.nodup call.this (r.after ps call c call.this) (by rw [hget', hr]; rfl)
  have hkept : c.path ∈ r.kept c call.this := by
    refine (mem_kept (hl.nodup _ r hr)).2 ⟨hl.filed _ r _ other hr hget, ?_⟩
    rintro ⟨hparent, -⟩
    obtain ⟨-, r'', hr'', hown⟩ := hl.parent call.child c call.this hc hparent
    rw [hr] at hr''
    cases hr''
    rw [hget] at hown
    exact hne (Option.some.inj hown)
  rw [after_routerPaths, if_pos rfl, (ps.perm _).nodup_iff, List.nodup_append] at hnodup
  exact hnodup.2.2 c.path hkept c.path (List.mem_singleton_self _) rfl

end Keep

/-- **After each call every listed path is stored, listed once, and stored with its own child,
    exactly if no call files a router under a parent that has another child of the same path.** -/
theorem registered_iff (ps : PathSort) {heap : List RouterT} (h : Unregistered heap)
    (calls : List RegisterCall) :
    EachState (registerStep ps) Registered heap calls ↔
      EachStep (registerStep ps) NoNamesake heap calls :=
  eachState_iff (fun _ hl => hl.toRegistered) (fun _ _ hl hname => hl.registerStep hname)
    (fun _ _ hl hname => hl.namesake hname) (linked_of_unregistered h) calls

/-- Looking a listed path up finds a router. -/
theorem Registered.childPath {heap : List RouterT} (h : Registered heap) {i : Nat} {r : RouterT}
    (hr : heap[i]? = some r) {localUrl rp : Bytes} (hrp : r.childPath localUrl = some rp) :
    ∃ c, r.routers.get? rp = some c := by
  unfold RouterT.childPath at hrp
  split at hrp
  · exact Option.isSome_iff_exists.1 (h.listed i r hr rp (List.mem_of_find?_eq_some hrp))
  · cases hrp

/-- A merge sort. -/
def PathSort.merge : PathSort where
  sort l := l.mergeSort fun a b => b.length ≤ a.length
  perm l := l.mergeSort_perm _
  sorted l := by
    have htrans : ∀ a b c : Bytes, decide (b.length ≤ a.length) = true →
        decide (c.length ≤ b.length) = true → decide (c.length ≤ a.length) = true := by
      intro a b c hab hbc
      simp only [decide_eq_true_eq] at *
      omega
    have htotal : ∀ a b : Bytes,
        (decide (b.length ≤ a.length) || decide (a.length ≤ b.length)) = true := by
      intro a b
      simp only [Bool.or_eq_true, decide_eq_true_eq]
      omega
    have hsorted := List.pairwise_mergeSort htrans htotal l
    simpa using hsorted

/-- A router at a path with nothing on it. -/
def plainRouter (path : Bytes) (h : path ≠ []) : RouterT := { rootRouter with path, path_ne := h }

/-- The root, two routers at `a/` and one at `b/`. -/
def sampleRouters : List RouterT :=
  [rootRouter, plainRouter (bytes "a/") (by decide), plainRouter (bytes "a/") (by decide),
    plainRouter (bytes "b/") (by decide)]

theorem unregistered_sampleRouters : Unregistered sampleRouters := by
  intro r hr
  simp only [sampleRouters, List.mem_cons, List.not_mem_nil, or_false] at hr
  rcases hr with rfl | rfl | rfl | rfl <;> exact ⟨rfl, rfl, rfl⟩

/-- Two children of the root, one of which is then moved under the other. -/
theorem registered_sampleRouters :
    EachState (registerStep .merge) Registered sampleRouters [⟨0, 1⟩, ⟨0, 3⟩, ⟨3, 1⟩] := by
  refine (registered_iff .merge unregistered_sampleRouters _).2 ⟨?_, ?_, ?_, trivial⟩
  · rintro r c other hr hc - hget
    cases hr
    cases hget
  · rintro r c other hr hc - hget
    cases hr
    cases hc
    cases hget
  · rintro r c other hr hc - hget
    cases hr
    cases hc
    cases hget

/-- With two routers at `a/` under the root, `a/` is listed twice. -/
theorem namesake_listed_twice :
    ¬ ∀ (ps : PathSort) (heap : List RouterT) (calls : List RegisterCall), Unregistered heap →
      EachState (registerStep ps) Registered heap calls := by
  intro hall
  have hstates := hall .merge sampleRouters [⟨0, 1⟩, ⟨0, 2⟩] unregistered_sampleRouters
  have hlinked : Linked (registerStep .merge sampleRouters ⟨0, 1⟩) := by
    refine (linked_of_unregistered unregistered_sampleRouters).registerStep ?_
    rintro r c other hr hc - hget
    cases hr
    cases hget
  have hname : ¬ NoNamesake (registerStep .merge sampleRouters ⟨0, 1⟩) ⟨0, 2⟩ := by
    intro hname
    exact absurd (hname _ _ 1 rfl rfl (by decide) rfl) (by decide)
  exact hlinked.namesake hname hstates.2.2

end LibEvmvc
