import LibEvmvc.Foundation.Threads
import Mathlib.Logic.Function.Basic

set_option autoImplicit false

/-! # The links of the nodes

A node has its children in a vector, and links to its parent and to its siblings on both sides. `add_child`,
`add_sibling` and `remove` change the vector and the links each on its own, and keep them in step
(`links_match`).

A link is weak, but a node that a link of a child or of a sibling leads to is held: by its parent, or by who
calls the functions. -/

namespace LibEvmvc

namespace Fanjet

/-! ## The operations -/

/-- `sibling_pos`. -/
inductive SiblingPos where
  | prev
  | next
  deriving DecidableEq, Repr

/-- The links of all nodes, and their children. -/
structure NodeLinks (N : Type) where
  root : N → Option N
  parent : N → Option N
  prev : N → Option N
  next : N → Option N
  childs : N → List N

inductive NodeError where
  /-- a node without a parent is asked for it, and the null pointer is dereferenced -/
  | nullPointer
  /-- `Invalid position` -/
  | invalidPosition
  /-- `No '{}' siblings allowed for '{}' node`; it is a root node -/
  | notAllowed (pos : SiblingPos)
  deriving DecidableEq, Repr

variable {N : Type}

namespace NodeLinks

/-- The links of new nodes. -/
def fresh : NodeLinks N := ⟨fun _ => none, fun _ => none, fun _ => none, fun _ => none, fun _ => []⟩

variable [DecidableEq N] (h : NodeLinks N)

def setRoot (n : N) (v : Option N) : NodeLinks N := { h with root := Function.update h.root n v }

def setParent (n : N) (v : Option N) : NodeLinks N := { h with parent := Function.update h.parent n v }

def setPrev (n : N) (v : Option N) : NodeLinks N := { h with prev := Function.update h.prev n v }

def setNext (n : N) (v : Option N) : NodeLinks N := { h with next := Function.update h.next n v }

def setChilds (n : N) (v : List N) : NodeLinks N := { h with childs := Function.update h.childs n v }

/-- `if(p) p->_prev = v`. -/
def setPrevOf (p v : Option N) : NodeLinks N := p.elim h fun p => h.setPrev p v

/-- `if(p) p->_next = v`. -/
def setNextOf (p v : Option N) : NodeLinks N := p.elim h fun p => h.setNext p v

/-- `node_t::remove`. -/
def remove (n : N) : NodeLinks N :=
  let h' := h.setNextOf (h.prev n) (h.next n)
  let h' := h'.setPrevOf (h.next n) (h.prev n)
  let h' := (h.parent n).elim h' fun o => h'.setChilds o ((h'.childs o).erase n)
  (((h'.setRoot n none).setParent n none).setPrev n none).setNext n none

/-- `node_t::add_sibling`; `isRoot` are the nodes that allow no siblings. -/
def addSibling (isRoot : N → Bool) (pos : SiblingPos) (self n : N) : NodeLinks N × Option NodeError :=
  match h.parent self with
  | none => (h, some .nullPointer)
  | some o =>
    if self ∉ h.childs o then (h, some .invalidPosition)
    else if isRoot self then (h, some (.notAllowed pos))
    else
      let i := (h.childs o).idxOf self
      let (h', i) := match pos with
        | .prev =>
          let sib := h.prev self
          ((((h.setPrev n sib).setNextOf sib (some n)).setNext n (some self)).setPrev self (some n), i)
        | .next =>
          let sib := h.next self
          ((((h.setNext n sib).setPrevOf sib (some n)).setPrev n (some self)).setNext self (some n), i + 1)
      let h' := (h'.setRoot n (h'.root self)).setParent n (h'.parent self)
      (h'.setChilds o ((h'.childs o).insertIdx i n), none)

/-- `node_t::add_child`. -/
def addChild (isRoot : N → Bool) (self n : N) : NodeLinks N × Option NodeError :=
  let h' := h.remove n
  match (h'.childs self).getLast? with
  | none =>
    let h' := h'.setRoot n (some ((h'.root self).getD self))
    ((h'.setParent n (some self)).setChilds self [n], none)
  | some last => h'.addSibling isRoot .next last n

end NodeLinks

/-! ## Links and vectors in step -/

/-- The links of the children of a node are those of its vector. -/
structure LinkedAt (h : NodeLinks N) (o : N) : Prop where
  nodup : (h.childs o).Nodup
  threaded : Threaded h.next h.prev (h.childs o)
  parent : ∀ m ∈ h.childs o, h.parent m = some o

/-- So it is for all nodes, and a node without a parent has no siblings. -/
structure Linked (h : NodeLinks N) : Prop where
  at_node : ∀ o, LinkedAt h o
  mem_childs : ∀ o m, h.parent m = some o → m ∈ h.childs o
  loose : ∀ m, h.parent m = none → h.next m = none ∧ h.prev m = none

section Steps

variable {h h' : NodeLinks N} {isRoot : N → Bool} {n self o m : N} {x y : List N}

theorem linked_fresh : Linked (NodeLinks.fresh : NodeLinks N) where
  at_node _ := ⟨List.nodup_nil, threaded_nil, fun _ hm => absurd hm List.not_mem_nil⟩
  mem_childs _ _ hm := nomatch hm
  loose _ _ := ⟨rfl, rfl⟩

theorem Linked.parent_of_mem (hl : Linked h) (hm : m ∈ h.childs o) : h.parent m = some o :=
  (hl.at_node o).parent m hm

/-- A vector and links that do not change. -/
theorem LinkedAt.congr (hat : LinkedAt h o) (hchilds : h'.childs o = h.childs o)
    (hparent : ∀ m ∈ h.childs o, h'.parent m = h.parent m)
    (hlinks : ∀ m ∈ h.childs o, h'.next m = h.next m ∧ h'.prev m = h.prev m) : LinkedAt h' o := by
  refine ⟨hchilds ▸ hat.nodup, ?_, fun m hm => ?_⟩
  · rw [hchilds]
    exact hat.threaded.congr (fun m hm => (hlinks m hm).1) fun m hm => (hlinks m hm).2
  · rw [hchilds] at hm
    rw [hparent m hm]
    exact hat.parent m hm

/-- A sibling has the same parent. -/
theorem Linked.sibling (hl : Linked h) (hm : h.next n = some m ∨ h.prev n = some m) :
    ∃ o, h.parent n = some o ∧ h.parent m = some o := by
  cases hparent : h.parent n with
  | none =>
    obtain ⟨hnext, hprev⟩ := hl.loose n hparent
    rcases hm with hm | hm
    · cases hnext.symm.trans hm
    · cases hprev.symm.trans hm
  | some o =>
    obtain ⟨x, y, hxy⟩ := List.append_of_mem (hl.mem_childs o n hparent)
    obtain ⟨hnext, hprev⟩ := (hl.at_node o).threaded x n y hxy
    refine ⟨o, rfl, hl.parent_of_mem ?_⟩
    rw [hxy]
    rcases hm with hm | hm
    · exact List.mem_append_right x (List.mem_cons_of_mem n (List.mem_of_head? (hnext.symm.trans hm)))
    · exact List.mem_append_left (n :: y) (List.mem_of_getLast? (hprev.symm.trans hm))

variable [DecidableEq N]

/-! ## `remove` -/

theorem setPrevOf_eq (h : NodeLinks N) (p v : Option N) :
    h.setPrevOf p v = { h with prev := fun m => if p = some m then v else h.prev m } := by
  cases p with
  | none => rfl
  | some p => simp [NodeLinks.setPrevOf, NodeLinks.setPrev, Function.update_apply, funext_iff, eq_comm]

theorem setNextOf_eq (h : NodeLinks N) (p v : Option N) :
    h.setNextOf p v = { h with next := fun m => if p = some m then v else h.next m } := by
  cases p with
  | none => rfl
  | some p => simp [NodeLinks.setNextOf, NodeLinks.setNext, Function.update_apply, funext_iff, eq_comm]

/-- The links of the node are gone, and its neighbours are linked. -/
theorem remove_eq (h : NodeLinks N) (n : N) : h.remove n =
    { root := fun m => if m = n then none else h.root m
      parent := fun m => if m = n then none else h.parent m
      prev := fun m => if m = n then none else if h.next n = some m then h.prev n else h.prev m
      next := fun m => if m = n then none else if h.prev n = some m then h.next n else h.next m
      childs := fun o => if h.parent n = some o then (h.childs o).erase n else h.childs o } := by
  have hchilds : (fun o => if h.parent n = some o then (h.childs o).erase n else h.childs o)
      = (h.parent n).elim h.childs fun o => Function.update h.childs o ((h.childs o).erase n) := by
    cases h.parent n with
    | none => rfl
    | some o =>
      funext m
      by_cases hm : o = m
      · rw [if_pos (congrArg some hm), hm, Option.elim_some, Function.update_self]
      · rw [if_neg fun heq => hm (Option.some.inj heq), Option.elim_some, Function.update_of_ne (Ne.symm hm)]
  rw [hchilds]
  unfold NodeLinks.remove
  simp only [setNextOf_eq, setPrevOf_eq]
  cases h.parent n <;>
    simp [NodeLinks.setRoot, NodeLinks.setParent, NodeLinks.setPrev, NodeLinks.setNext, NodeLinks.setChilds,
      Function.update_apply, funext_iff]

theorem remove_parent (h : NodeLinks N) (hm : m ≠ n) : (h.remove n).parent m = h.parent m := by
  rw [remove_eq]
  exact if_neg hm

/-- The links of nodes with another parent stay as they are. -/
theorem Linked.remove_links (hl : Linked h) (hm : m ≠ n) (hparent : h.parent m ≠ h.parent n) :
    (h.remove n).next m = h.next m ∧ (h.remove n).prev m = h.prev m := by
  have hnone {k : Option N} (hk : h.next n = k ∨ h.prev n = k) : k ≠ some m := by
    rintro rfl
    obtain ⟨o, hn, hm⟩ := hl.sibling hk
    exact hparent (hm.trans hn.symm)
  rw [remove_eq]
  simp only [if_neg hm, if_neg (hnone (.inl rfl)), if_neg (hnone (.inr rfl)), and_self]

/-- The vector the node is taken out of. -/
theorem Linked.remove_at (hl : Linked h) (hparent : h.parent n = some o) : LinkedAt (h.remove n) o := by
  obtain ⟨x, y, hxy⟩ := List.append_of_mem (hl.mem_childs o n hparent)
  have hnodup := (hl.at_node o).nodup
  have hthreaded := (hl.at_node o).threaded
  rw [hxy] at hnodup hthreaded
  obtain ⟨-, hny, hapart⟩ := List.nodup_append'.1 hnodup
  have hsub : List.Sublist (x ++ y) (x ++ n :: y) := List.Sublist.append_left (List.sublist_cons_self n y) x
  have hne : ∀ m ∈ x ++ y, m ≠ n := by
    rintro m hm rfl
    rcases List.mem_append.1 hm with hx | hy
    · exact hapart hx List.mem_cons_self
    · exact (List.nodup_cons.1 hny).1 hy
  have hchilds : (h.remove n).childs o = x ++ y := by
    rw [remove_eq]
    dsimp only
    rw [if_pos hparent, hxy, List.erase_append_right _ fun hx => hapart hx List.mem_cons_self,
      List.erase_cons_head]
  refine ⟨hchilds ▸ hnodup.sublist hsub, ?_, fun m hm => ?_⟩
  · rw [hchilds]
    refine hthreaded.remove hnodup (fun m hm => ?_) fun m hm => ?_
    · rw [remove_eq]
      exact if_neg (hne m hm)
    · rw [remove_eq]
      exact if_neg (hne m hm)
  · rw [hchilds] at hm
    rw [remove_parent h (hne m hm)]
    exact hl.parent_of_mem (hxy ▸ hsub.mem hm)

theorem Linked.remove (hl : Linked h) (n : N) : Linked (h.remove n) := by
  refine ⟨fun o => ?_, fun o m hm => ?_, fun m hm => ?_⟩
  · by_cases hparent : h.parent n = some o
    · exact hl.remove_at hparent
    · have hother : ∀ m ∈ h.childs o, m ≠ n ∧ h.parent m ≠ h.parent n := by
        intro m hm
        have hmo := hl.parent_of_mem hm
        exact ⟨fun heq => hparent (heq ▸ hmo), fun heq => hparent (heq.symm.trans hmo)⟩
      refine (hl.at_node o).congr ?_ (fun m hm => remove_parent h (hother m hm).1) fun m hm => ?_
      · rw [remove_eq]
        exact if_neg hparent
      · exact hl.remove_links (hother m hm).1 (hother m hm).2
  · have hmn : m ≠ n := by
      rintro rfl
      rw [remove_eq] at hm
      cases (if_pos rfl).symm.trans hm
    rw [remove_parent h hmn] at hm
    have hin := hl.mem_childs o m hm
    rw [remove_eq]
    dsimp only
    split
    · exact (List.mem_erase_of_ne hmn).2 hin
    · exact hin
  · by_cases hmn : m = n
    · rw [remove_eq]
      simp only [if_pos hmn, and_self]
    · rw [remove_parent h hmn] at hm
      obtain ⟨hnext, hprev⟩ := hl.loose m hm
      by_cases hn : h.parent n = none
      · obtain ⟨hnnext, hnprev⟩ := hl.loose n hn
        rw [remove_eq]
        simp only [if_neg hmn, hnnext, hnprev, hnext, hprev, ite_self, and_self]
      · obtain ⟨hnext', hprev'⟩ := hl.remove_links hmn fun heq => hn (heq.symm.trans hm)
        rw [hnext', hprev']
        exact ⟨hnext, hprev⟩

/-! ## `add_sibling` and `add_child` -/

/-- `n` is put between `x` and `y` into the vector of `o`. -/
structure Inserted (h h' : NodeLinks N) (o n : N) (x y : List N) : Prop where
  childs : ∀ o', h'.childs o' = if o' = o then x ++ n :: y else h.childs o'
  parent : ∀ m, h'.parent m = if m = n then some o else h.parent m
  next : ∀ m, h'.next m = if m = n then y.head? else if x.getLast? = some m then some n else h.next m
  prev : ∀ m, h'.prev m = if m = n then x.getLast? else if y.head? = some m then some n else h.prev m

omit [DecidableEq N] in
/-- A node without a parent is no child. -/
theorem Linked.ne_of_mem (hl : Linked h) (hn : h.parent n = none) (hm : m ∈ h.childs o) : m ≠ n := by
  rintro rfl
  cases hn.symm.trans (hl.parent_of_mem hm)

/-- The links of nodes with another parent stay as they are. -/
theorem Linked.insert_links (hl : Linked h) (hxy : h.childs o = x ++ y) (hins : Inserted h h' o n x y)
    (hm : m ≠ n) (hout : h.parent m ≠ some o) : h'.next m = h.next m ∧ h'.prev m = h.prev m := by
  have hx : x.getLast? ≠ some m := by
    intro hlast
    exact hout (hl.parent_of_mem (hxy ▸ List.mem_append_left y (List.mem_of_getLast? hlast)))
  have hy : y.head? ≠ some m := by
    intro hfirst
    exact hout (hl.parent_of_mem (hxy ▸ List.mem_append_right x (List.mem_of_head? hfirst)))
  rw [hins.next, hins.prev, if_neg hm, if_neg hm, if_neg hx, if_neg hy]
  exact ⟨rfl, rfl⟩

/-- The vector the node is put into. -/
theorem Linked.insert_at (hl : Linked h) (hn : h.parent n = none) (hxy : h.childs o = x ++ y)
    (hins : Inserted h h' o n x y) : LinkedAt h' o := by
  have hat := hl.at_node o
  have hne : ∀ m ∈ x ++ y, m ≠ n := fun m hm => hl.ne_of_mem hn (hxy ▸ hm)
  have hchilds : h'.childs o = x ++ n :: y := by rw [hins.childs, if_pos rfl]
  have hnodup : (x ++ n :: y).Nodup := by
    rw [List.nodup_middle, List.nodup_cons]
    exact ⟨fun hin => hne n hin rfl, hxy ▸ hat.nodup⟩
  refine ⟨hchilds ▸ hnodup, ?_, fun m hm => ?_⟩
  · rw [hchilds]
    refine Threaded.insert (hxy ▸ hat.threaded) hnodup ?_ ?_ (fun m hm => ?_) fun m hm => ?_
    · rw [hins.next, if_pos rfl]
    · rw [hins.prev, if_pos rfl]
    · rw [hins.next, if_neg (hne m hm)]
    · rw [hins.prev, if_neg (hne m hm)]
  · rw [hins.parent]
    split
    · rfl
    · next hmn =>
      rw [hchilds] at hm
      refine hat.parent m (hxy ▸ ?_)
      rcases List.mem_append.1 hm with hx | hy
      · exact List.mem_append_left y hx
      · exact List.mem_append_right x ((List.mem_cons.1 hy).resolve_left hmn)

theorem Linked.insert (hl : Linked h) (hn : h.parent n = none) (hxy : h.childs o = x ++ y)
    (hins : Inserted h h' o n x y) : Linked h' := by
  have hkeeps {m : N} (hm : m ≠ n) : h'.parent m = h.parent m := by
    rw [hins.parent, if_neg hm]
  refine ⟨fun o' => ?_, fun o' m hm => ?_, fun m hm => ?_⟩
  · by_cases ho : o' = o
    · rw [ho]
      exact hl.insert_at hn hxy hins
    · have hout : ∀ m ∈ h.childs o', h.parent m ≠ some o := by
        intro m hm heq
        exact ho (Option.some.inj ((hl.parent_of_mem hm).symm.trans heq))
      refine (hl.at_node o').congr ?_ (fun m hm => hkeeps (hl.ne_of_mem hn hm)) fun m hm => ?_
      · rw [hins.childs, if_neg ho]
      · exact hl.insert_links hxy hins (hl.ne_of_mem hn hm) (hout m hm)
  · rw [hins.parent] at hm
    rw [hins.childs]
    split at hm
    · next hmn =>
      rw [if_pos (Option.some.inj hm).symm, hmn]
      exact List.mem_append_right x List.mem_cons_self
    · have hin := hl.mem_childs o' m hm
      split
      · next ho =>
        rw [ho, hxy] at hin
        exact (List.Sublist.append_left (List.sublist_cons_self n y) x).mem hin
      · exact hin
  · have hmn : m ≠ n := by
      rintro rfl
      rw [hins.parent, if_pos rfl] at hm
      cases hm
    rw [hkeeps hmn] at hm
    have hout : h.parent m ≠ some o := by
      rw [hm]
      exact (Option.some_ne_none o).symm
    obtain ⟨hnext, hprev⟩ := hl.insert_links hxy hins hmn hout
    rw [hnext, hprev]
    exact hl.loose m hm

omit [DecidableEq N] in
theorem insertIdx_append (x y : List N) (n : N) : (x ++ y).insertIdx x.length n = x ++ n :: y := by
  induction x with
  | nil => rfl
  | cons a x ih => exact congrArg (a :: ·) ih

/-- The node is put beside `self`, or nothing changes. -/
theorem addSibling_inserted (hl : Linked h) (hn : h.parent n = none) (pos : SiblingPos) :
    (h.addSibling isRoot pos self n).1 = h ∨
      ∃ o x y, h.childs o = x ++ y ∧ Inserted h (h.addSibling isRoot pos self n).1 o n x y := by
  unfold NodeLinks.addSibling
  cases hself : h.parent self with
  | none => exact .inl rfl
  | some o =>
    dsimp only
    split
    · exact .inl rfl
    · next hin =>
      split
      · exact .inl rfl
      · obtain ⟨x, y, hxy⟩ := List.append_of_mem (not_not.1 hin)
        have hat := hl.at_node o
        obtain ⟨hsnext, hsprev⟩ := hat.threaded x self y hxy
        have hnodup := hat.nodup
        rw [hxy] at hnodup
        have hns : self ≠ n := by
          rintro rfl
          cases hn.symm.trans hself
        have hsx : self ∉ x := fun hx => (List.nodup_append'.1 hnodup).2.2 hx List.mem_cons_self
        have hidx : (h.childs o).idxOf self = x.length := by
          rw [hxy, List.idxOf_append_of_notMem hsx, List.idxOf_cons_self, Nat.add_zero]
        refine .inr ⟨o, ?_⟩
        cases pos with
        | prev =>
          refine ⟨x, self :: y, hxy, ?_⟩
          have hput : (h.childs o).insertIdx x.length n = x ++ n :: self :: y := by
            rw [hxy, insertIdx_append]
          simp only [setNextOf_eq, hidx]
          refine ⟨fun o' => ?_, fun m => ?_, fun m => ?_, fun m => ?_⟩
          · exact (Function.update_apply ..).trans (by rw [← hput]; rfl)
          · exact (Function.update_apply ..).trans (by rw [← hself]; rfl)
          · rw [← hsprev]
            exact Function.update_apply ..
          · refine (Function.update_apply ..).trans ?_
            by_cases hm : m = self
            · rw [if_pos hm, hm, if_neg hns, List.head?_cons, if_pos rfl]
            · have hfirst : (self :: y).head? ≠ some m := fun heq => hm (Option.some.inj heq).symm
              rw [if_neg hm, if_neg hfirst, ← hsprev]
              exact Function.update_apply ..
        | next =>
          refine ⟨x ++ [self], y, by rw [hxy, List.append_assoc, List.singleton_append], ?_⟩
          have hput : (h.childs o).insertIdx (x.length + 1) n = x ++ [self] ++ n :: y := by
            have hlen : x.length + 1 = (x ++ [self]).length := by simp
            rw [hxy, hlen, ← List.singleton_append, ← List.append_assoc, insertIdx_append]
          simp only [setPrevOf_eq, hidx]
          refine ⟨fun o' => ?_, fun m => ?_, fun m => ?_, fun m => ?_⟩
          · exact (Function.update_apply ..).trans (by rw [← hput]; rfl)
          · exact (Function.update_apply ..).trans (by rw [← hself]; rfl)
          · refine (Function.update_apply ..).trans ?_
            rw [List.getLast?_concat]
            by_cases hm : m = self
            · rw [if_pos hm, hm, if_neg hns, if_pos rfl]
            · rw [if_neg hm, if_neg fun heq => hm (Option.some.inj heq).symm, ← hsnext]
              exact Function.update_apply ..
          · rw [List.getLast?_concat, ← hsnext]
            exact Function.update_apply ..

theorem Linked.addSibling (hl : Linked h) (hn : h.parent n = none) (pos : SiblingPos) :
    Linked (h.addSibling isRoot pos self n).1 := by
  rcases @addSibling_inserted _ h isRoot n self _ hl hn pos with heq | ⟨o, x, y, hxy, hins⟩
  · rw [heq]
    exact hl
  · exact hl.insert hn hxy hins

/-- The first child, or a sibling behind the last one. -/
theorem Linked.addChild (hl : Linked h) : Linked (h.addChild isRoot self n).1 := by
  have hl' := hl.remove n
  have hn : (h.remove n).parent n = none := by
    rw [remove_eq]
    exact if_pos rfl
  unfold NodeLinks.addChild
  dsimp only
  cases hlast : ((h.remove n).childs self).getLast? with
  | none =>
    have hnil := List.getLast?_eq_none_iff.1 hlast
    obtain ⟨hnext, hprev⟩ := hl'.loose n hn
    refine @Linked.insert _ _ _ n self [] [] _ hl' hn hnil ⟨fun o' => ?_, fun m => ?_, fun m => ?_, fun m => ?_⟩
    · exact Function.update_apply ..
    · exact Function.update_apply ..
    · by_cases hm : m = n
      · rw [if_pos hm, hm]
        exact hnext
      · rw [if_neg hm]
        rfl
    · by_cases hm : m = n
      · rw [if_pos hm, hm]
        exact hprev
      · rw [if_neg hm]
        rfl
  | some last => exact hl'.addSibling hn .next

end Steps

/-! ## Runs -/

inductive NodeOp (N : Type) where
  | addChild (self n : N)
  | addSibling (pos : SiblingPos) (self n : N)
  | remove (n : N)

section Runs

variable {N : Type} [DecidableEq N]

/-- What an operation leaves, and the exception that ends it. -/
def NodeOp.exec (isRoot : N → Bool) (h : NodeLinks N) : NodeOp N → NodeLinks N × Option NodeError
  | .addChild self n => h.addChild isRoot self n
  | .addSibling pos self n => h.addSibling isRoot pos self n
  | .remove n => (h.remove n, none)

/-- A sibling that is added is no child yet. -/
def NodeOp.Allowed (h : NodeLinks N) : NodeOp N → Prop
  | .addSibling _ _ n => h.parent n = none
  | _ => True

/-- What operations make of new nodes. Behind an exception the program may go on, behind a null pointer it
does not. -/
inductive LinksReached (isRoot : N → Bool) : NodeLinks N → Prop
  | fresh : LinksReached isRoot .fresh
  | step {h : NodeLinks N} (op : NodeOp N) (hreached : LinksReached isRoot h) (hallowed : op.Allowed h)
      (hdefined : (op.exec isRoot h).2 ≠ some .nullPointer) : LinksReached isRoot (op.exec isRoot h).1

/-- For every node, the links of the child at each place are to the node and to the children at the places
beside, and no node is a child twice. -/
structure LinksMatch (h : NodeLinks N) : Prop where
  links : ∀ (o : N) (i : Nat) (m : N), (h.childs o)[i]? = some m →
    h.parent m = some o ∧ h.next m = (h.childs o)[i + 1]? ∧
      h.prev m = if i = 0 then none else (h.childs o)[i - 1]?
  once : ∀ (m o o' : N) (i i' : Nat), (h.childs o)[i]? = some m → (h.childs o')[i']? = some m → o = o' ∧ i = i'

variable {isRoot : N → Bool} {h : NodeLinks N}

theorem Linked.step (hl : Linked h) (op : NodeOp N) (hallowed : op.Allowed h) :
    Linked (op.exec isRoot h).1 := by
  cases op with
  | addChild self n => exact hl.addChild
  | addSibling pos self n => exact hl.addSibling hallowed pos
  | remove n => exact hl.remove n

theorem LinksReached.linked (hreached : LinksReached isRoot h) : Linked h := by
  induction hreached with
  | fresh => exact linked_fresh
  | step op _ hallowed _ ih => exact ih.step op hallowed

omit [DecidableEq N] in
theorem Linked.linksMatch (hl : Linked h) : LinksMatch h := by
  refine ⟨fun o i m hm => ?_, fun m o o' i i' hm hm' => ?_⟩
  · obtain ⟨hi, rfl⟩ := List.getElem?_eq_some_iff.1 hm
    have hcut : h.childs o = (h.childs o).take i ++ (h.childs o)[i] :: (h.childs o).drop (i + 1) := by
      rw [← List.drop_eq_getElem_cons hi, List.take_append_drop]
    obtain ⟨hnext, hprev⟩ := (hl.at_node o).threaded _ _ _ hcut
    refine ⟨hl.parent_of_mem (List.getElem_mem hi), ?_, ?_⟩
    · rw [hnext, List.head?_drop]
    · rw [hprev, List.getLast?_take]
      split
      · rfl
      · rw [List.getElem?_eq_getElem (by omega), Option.some_or]
  · have hin := hl.parent_of_mem (List.mem_of_getElem? hm)
    have hin' := hl.parent_of_mem (List.mem_of_getElem? hm')
    obtain rfl : o = o' := Option.some.inj (hin.symm.trans hin')
    obtain ⟨hi, hget⟩ := List.getElem?_eq_some_iff.1 hm
    obtain ⟨hi', hget'⟩ := List.getElem?_eq_some_iff.1 hm'
    exact ⟨rfl, (hl.at_node o).nodup.getElem_inj_iff.1 (hget.trans hget'.symm)⟩

/-- **The links of the nodes match their children after any operations.** -/
theorem links_match (hreached : LinksReached isRoot h) : LinksMatch h := hreached.linked.linksMatch

/-- A root node. -/
def sampleRoot (n : Nat) : Bool := n = 0

/-- Of two children the first is added again, one is put in front of it, and the second is removed. -/
def sampleLinks : NodeLinks Nat :=
  ([.addChild 0 1, .addChild 0 2, .addChild 0 1, .addSibling .prev 1 3, .remove 2] : List (NodeOp Nat)).foldl
    (fun h op => (op.exec sampleRoot h).1) .fresh

example : sampleLinks.childs 0 = [3, 1] ∧ sampleLinks.next 3 = some 1 ∧ sampleLinks.prev 3 = none := by decide

theorem sampleLinks_reached : LinksReached sampleRoot sampleLinks := by
  refine .step (.remove 2) (.step (.addSibling .prev 1 3) (.step (.addChild 0 1) (.step (.addChild 0 2)
    (.step (.addChild 0 1) .fresh trivial ?_) trivial ?_) trivial ?_) rfl ?_) trivial ?_
  all_goals decide

theorem links_match_sample : LinksMatch sampleLinks := links_match sampleLinks_reached

end Runs

end Fanjet

end LibEvmvc
