import LibEvmvc.Views.Partials

set_option autoImplicit false

/-! # The namespace of a view path

`view_engine::get` and `view_engine::render` cut a path at the last `::`. What is in front of it is the
namespace of an engine, and what is behind it is the path of a view. A path without `::` is looked for in
all engines, but it is cut too: its first two characters are dropped as if they were the `::`, and a
shorter one makes `substr` throw. -/

namespace LibEvmvc

/-! ## The calls -/

/-- The calls of an engine's virtual functions. -/
inductive EngineCall (E : Type) where
  | viewExists (e : E) (path : Bytes)
  | getView (e : E) (path : Bytes)
  | renderView (e : E) (path : Bytes)
  deriving DecidableEq, Repr

section Engines

variable {E : Type}

/-- The namespace and the path of a view; there is none if `substr` throws. -/
def splitViewPath (path : Bytes) : Option (Bytes × Bytes) :=
  let ns := match rfindNs path with
    | none => []
    | some p => path.take p
  if path.length < ns.length + 2 then none else some (ns, path.drop (ns.length + 2))

/-- The loop over all engines: the calls of `view_exists`, and the first engine that has the view. -/
def searchEngines (viewExists : E → Bytes → Bool) (vpath : Bytes) :
    List (Bytes × E) → List (EngineCall E) × Option E
  | [] => ([], none)
  | e :: engines =>
    if viewExists e.2 vpath then ([.viewExists e.2 vpath], some e.2)
    else
      let (calls, found) := searchEngines viewExists vpath engines
      (.viewExists e.2 vpath :: calls, found)

/-- `view_engine::get`: the calls it makes, of which `get_view` returns the view. -/
def viewEngineGetCalls (viewExists : E → Bytes → Bool) (engines : List (Bytes × E)) (path : Bytes) :
    Option (List (EngineCall E)) :=
  (splitViewPath path).map fun (ns, vpath) =>
    if ns ≠ [] then
      match engines.lookup ns with
      | none => []
      | some e => [.getView e vpath]
    else
      match searchEngines viewExists vpath engines with
      | (calls, none) => calls
      | (calls, some e) => calls ++ [.getView e vpath]

/-- `view_engine::render`: the calls it makes, and the error its callback is called with if no engine is
    found. -/
def viewEngineRenderCalls (viewExists : E → Bytes → Bool) (engines : List (Bytes × E)) (path : Bytes) :
    Option (List (EngineCall E) × Option ViewErr) :=
  (splitViewPath path).map fun (ns, vpath) =>
    if ns ≠ [] then
      match engines.lookup ns with
      | none =>
        ([], some (bytes "Unable to find engine with namespace: '" ++ ns ++ bytes "', path: '" ++ path ++
          bytes "'"))
      | some e => ([.renderView e vpath], none)
    else
      match searchEngines viewExists vpath engines with
      | (calls, none) => (calls, some (bytes "No view engine contains view at path: '" ++ path ++ bytes "'"))
      | (calls, some e) => (calls ++ [.renderView e vpath], none)

/-! ## What is to be looked up -/

/-- A view is looked for in the engines: each is asked for it up to the first one that has it, which is
    called. -/
def searchCalls (viewExists : E → Bytes → Bool) (call : E → Bytes → EngineCall E)
    (engines : List (Bytes × E)) (vpath : Bytes) : List (EngineCall E) :=
  (engines.takeWhile fun e => !viewExists e.2 vpath).map (fun e => .viewExists e.2 vpath) ++
    match engines.find? fun e => viewExists e.2 vpath with
    | none => []
    | some e => [.viewExists e.2 vpath, call e.2 vpath]

/-- The calls for a path: what is behind the last `::` is looked for in the engine of the namespace in
    front of it, and a path without one as a whole in all engines. -/
structure LooksUp (viewExists : E → Bytes → Bool) (call : E → Bytes → EngineCall E)
    (engines : List (Bytes × E)) (path : Bytes) (calls : Option (List (EngineCall E))) : Prop where
  returns : calls ≠ none
  qualified : ∀ ns rest, ns ≠ [] → path = ns ++ (bytes "::" ++ rest) → ¬ bytes "::" <:+: bytes ":" ++ rest →
    calls = some (match engines.lookup ns with
      | none => []
      | some e => [call e rest])
  plain : ¬ bytes "::" <:+: path → calls = some (searchCalls viewExists call engines path)

/-- A search ends with a call of an engine if and only if one of them has the view. -/
theorem searchCalls_finds (viewExists : E → Bytes → Bool) {call : E → Bytes → EngineCall E}
    (hcall : ∀ e e' vpath, call e vpath ≠ .viewExists e' vpath) (engines : List (Bytes × E))
    (vpath : Bytes) :
    (∃ e, call e vpath ∈ searchCalls viewExists call engines vpath) ↔
      ∃ e ∈ engines, viewExists e.2 vpath = true := by
  unfold searchCalls
  constructor
  · rintro ⟨e, he⟩
    rcases List.mem_append.1 he with hasked | hfound
    · obtain ⟨e', -, heq⟩ := List.mem_map.1 hasked
      exact absurd heq.symm (hcall e e'.2 vpath)
    · cases hfind : engines.find? fun e => viewExists e.2 vpath with
      | none =>
        rw [hfind] at hfound
        cases hfound
      | some e' =>
      have hhas : viewExists e'.2 vpath = true :=
        @List.find?_some _ (fun e : Bytes × E => viewExists e.2 vpath) _ _ hfind
      exact ⟨e', List.mem_of_find?_eq_some hfind, hhas⟩
  · rintro ⟨e, he, hhas⟩
    cases hfind : engines.find? fun e => viewExists e.2 vpath with
    | none => exact absurd hhas (List.find?_eq_none.1 hfind e he)
    | some e' => exact ⟨e'.2, by simp⟩

/-- The loop makes the calls of a search. -/
theorem searchEngines_calls (viewExists : E → Bytes → Bool) (call : E → Bytes → EngineCall E)
    (engines : List (Bytes × E)) (vpath : Bytes) :
    (searchEngines viewExists vpath engines).1 ++
        ((searchEngines viewExists vpath engines).2.map (call · vpath)).toList
      = searchCalls viewExists call engines vpath := by
  induction engines with
  | nil => rfl
  | cons e engines ih =>
    unfold searchCalls at ih ⊢
    rw [searchEngines, List.takeWhile_cons, List.find?_cons]
    by_cases hhas : viewExists e.2 vpath = true
    · rw [if_pos hhas, hhas]
      rfl
    · rw [if_neg hhas, Bool.eq_false_iff.2 hhas]
      exact congrArg (EngineCall.viewExists e.2 vpath :: ·) ih

/-! ## Where a path is cut -/

theorem find?_reverse_range {q : Nat → Bool} {n i : Nat} (hi : i < n) (hq : q i = true)
    (hlast : ∀ j, i < j → j < n → q j = false) : (List.range n).reverse.find? q = some i := by
  induction n with
  | zero => exact absurd hi (Nat.not_lt_zero i)
  | succ n ih =>
    rw [List.range_succ, List.reverse_append, List.reverse_singleton, List.singleton_append, List.find?_cons]
    rcases Nat.lt_succ_iff_lt_or_eq.1 hi with hlt | rfl
    · rw [hlast n hlt (Nat.lt_succ_self n)]
      exact ih hlt fun j hij hjn => hlast j hij (Nat.lt_succ_of_lt hjn)
    · rw [hq]

/-- The last `::` is found. -/
theorem rfindNs_append {ns rest : Bytes} (h : ¬ bytes "::" <:+: bytes ":" ++ rest) :
    rfindNs (ns ++ (bytes "::" ++ rest)) = some ns.length := by
  have hsep : (bytes "::").length = 2 := by decide
  have hdrop : (ns ++ (bytes "::" ++ rest)).drop (ns.length + 1) = bytes ":" ++ rest := by
    rw [List.drop_add_one_eq_tail_drop, List.drop_left]
    rfl
  refine find?_reverse_range ?_ ?_ fun j hj _ => ?_
  · simp only [List.length_append, hsep]
    omega
  · rw [List.drop_left]
    exact List.isPrefixOf_iff_prefix.2 (List.prefix_append _ _)
  · rw [Bool.eq_false_iff, ne_eq, List.isPrefixOf_iff_prefix]
    intro hstarts
    refine h (hstarts.isInfix.trans ?_)
    have hsuffix : (ns ++ (bytes "::" ++ rest)).drop j
        = (bytes ":" ++ rest).drop (j - (ns.length + 1)) := by
      rw [← hdrop, List.drop_drop]
      congr 1
      omega
    rw [hsuffix]
    exact (List.drop_suffix _ _).isInfix

theorem rfindNs_eq_none_iff {path : Bytes} : rfindNs path = none ↔ ¬ bytes "::" <:+: path := by
  unfold rfindNs
  rw [List.find?_eq_none]
  constructor
  · rintro hnone ⟨pre, post, hsplit⟩
    have hsep : (bytes "::").length = 2 := by decide
    have hlt : pre.length < path.length := by
      rw [← hsplit, List.length_append, List.length_append, hsep]
      omega
    refine hnone pre.length (List.mem_reverse.2 (List.mem_range.2 hlt)) ?_
    rw [List.isPrefixOf_iff_prefix, ← hsplit, List.append_assoc, List.drop_left]
    exact List.prefix_append _ _
  · intro hno i _ hstarts
    exact hno ((List.isPrefixOf_iff_prefix.1 hstarts).isInfix.trans (List.drop_suffix i path).isInfix)

/-- Where a `::` is found, it stands. -/
theorem rfindNs_le {path : Bytes} {p : Nat} (h : rfindNs path = some p) : p + 2 ≤ path.length := by
  have hat : (bytes "::").isPrefixOf (path.drop p) = true :=
    @List.find?_some _ (fun i => (bytes "::").isPrefixOf (path.drop i)) _ _ h
  have hstarts := List.isPrefixOf_iff_prefix.1 hat
  have hlen := hstarts.length_le
  have hsep : (bytes "::").length = 2 := by decide
  rw [hsep, List.length_drop] at hlen
  omega

theorem splitViewPath_append {ns rest : Bytes} (h : ¬ bytes "::" <:+: bytes ":" ++ rest) :
    splitViewPath (ns ++ (bytes "::" ++ rest)) = some (ns, rest) := by
  have hsep : (bytes "::").length = 2 := by decide
  have hlen : ¬ (ns ++ (bytes "::" ++ rest)).length < ns.length + 2 := by
    simp only [List.length_append, hsep]
    omega
  have hdrop : (ns ++ (bytes "::" ++ rest)).drop (ns.length + 2) = rest := by
    rw [← List.drop_drop, List.drop_left, ← hsep, List.drop_left]
  unfold splitViewPath
  simp only [rfindNs_append h, List.take_left, if_neg hlen, hdrop]

theorem splitViewPath_isSome {path : Bytes} (h : bytes "::" <:+: path) : splitViewPath path ≠ none := by
  unfold splitViewPath
  cases hfind : rfindNs path with
  | none => exact absurd h (rfindNs_eq_none_iff.1 hfind)
  | some p =>
    have hle := rfindNs_le hfind
    have hlen : ¬ path.length < (path.take p).length + 2 := by
      rw [List.length_take]
      omega
    simp only [if_neg hlen]
    exact Option.some_ne_none _

/-- Without a `::` the first two characters are dropped. -/
theorem splitViewPath_plain {path : Bytes} (h : ¬ bytes "::" <:+: path) :
    splitViewPath path = if path.length < 2 then none else some ([], path.drop 2) := by
  unfold splitViewPath
  simp only [rfindNs_eq_none_iff.2 h, List.length_nil, Nat.zero_add]

/-! ## What is looked up -/

/-- The calls for a namespace and the path of a view. -/
def lookupCalls (viewExists : E → Bytes → Bool) (call : E → Bytes → EngineCall E)
    (engines : List (Bytes × E)) (ns vpath : Bytes) : List (EngineCall E) :=
  if ns ≠ [] then
    match engines.lookup ns with
    | none => []
    | some e => [call e vpath]
  else searchCalls viewExists call engines vpath

variable (viewExists : E → Bytes → Bool) (engines : List (Bytes × E)) (path : Bytes)

theorem viewEngineGetCalls_eq : viewEngineGetCalls viewExists engines path
    = (splitViewPath path).map fun x => lookupCalls viewExists .getView engines x.1 x.2 := by
  refine congrArg (fun f => (splitViewPath path).map f) (funext fun x => ?_)
  obtain ⟨ns, vpath⟩ := x
  have hcalls := searchEngines_calls viewExists .getView engines vpath
  unfold lookupCalls
  rw [← hcalls]
  dsimp only
  split
  · rfl
  · obtain ⟨calls, found⟩ := searchEngines viewExists vpath engines
    cases found with
    | none => exact (List.append_nil calls).symm
    | some e => rfl

theorem viewEngineRenderCalls_eq : (viewEngineRenderCalls viewExists engines path).map Prod.fst
    = (splitViewPath path).map fun x => lookupCalls viewExists .renderView engines x.1 x.2 := by
  rw [viewEngineRenderCalls, Option.map_map]
  refine congrArg (fun f => (splitViewPath path).map f) (funext fun x => ?_)
  obtain ⟨ns, vpath⟩ := x
  have hcalls := searchEngines_calls viewExists .renderView engines vpath
  unfold lookupCalls
  rw [← hcalls]
  dsimp only [Function.comp_apply]
  split
  · cases engines.lookup ns with
    | none => rfl
    | some e => rfl
  · obtain ⟨calls, found⟩ := searchEngines viewExists vpath engines
    cases found with
    | none => exact (List.append_nil calls).symm
    | some e => rfl

/-- The first engine is asked for the path. -/
theorem searchCalls_head (call : E → Bytes → EngineCall E) (e : Bytes × E) (vpath : Bytes) :
    ∃ calls, searchCalls viewExists call (e :: engines) vpath = .viewExists e.2 vpath :: calls := by
  unfold searchCalls
  rw [List.takeWhile_cons, List.find?_cons]
  cases viewExists e.2 vpath with
  | true => exact ⟨_, rfl⟩
  | false => exact ⟨_, rfl⟩

theorem looksUp_iff (call : E → Bytes → EngineCall E) :
    LooksUp viewExists call engines path
        ((splitViewPath path).map fun x => lookupCalls viewExists call engines x.1 x.2) ↔
      bytes "::" <:+: path ∨ engines = [] ∧ 2 ≤ path.length := by
  by_cases hsep : bytes "::" <:+: path
  · refine iff_of_true ⟨?_, ?_, fun hno => absurd hsep hno⟩ (.inl hsep)
    · rw [ne_eq, Option.map_eq_none_iff]
      exact splitViewPath_isSome hsep
    · rintro ns rest hns rfl hlast
      rw [splitViewPath_append hlast]
      exact congrArg some (if_pos hns)
  · rw [splitViewPath_plain hsep]
    constructor
    · intro h
      by_cases hlen : path.length < 2
      · rw [if_pos hlen] at h
        exact absurd rfl h.returns
      · -- the first engine would be asked for two paths
        have hplain := h.plain hsep
        rw [if_neg hlen] at hplain
        refine .inr ⟨?_, Nat.not_lt.1 hlen⟩
        cases engines with
        | nil => rfl
        | cons e engines =>
          obtain ⟨calls, hcalls⟩ := searchCalls_head viewExists engines call e path
          obtain ⟨calls', hcalls'⟩ := searchCalls_head viewExists engines call e (path.drop 2)
          have heq : EngineCall.viewExists e.2 (path.drop 2) :: calls' = .viewExists e.2 path :: calls :=
            hcalls'.symm.trans ((Option.some.inj hplain).trans hcalls)
          injection heq with hfirst
          injection hfirst with _ hpath
          have hshort := congrArg List.length hpath
          rw [List.length_drop] at hshort
          omega
    · rintro (h | ⟨rfl, hlen⟩)
      · exact absurd h hsep
      · rw [if_neg (Nat.not_lt.2 hlen)]
        refine ⟨Option.some_ne_none _, ?_, fun _ => rfl⟩
        rintro ns rest - rfl -
        exact absurd ⟨ns, rest, List.append_assoc ..⟩ hsep

/-- **A view is looked up where its path says, in `get` and in `render`, exactly if the path has a `::`, or
there is no engine and the path is not too short.** -/
theorem viewPath_iff :
    (LooksUp viewExists .getView engines path (viewEngineGetCalls viewExists engines path) ∧
      LooksUp viewExists .renderView engines path
        ((viewEngineRenderCalls viewExists engines path).map Prod.fst)) ↔
    bytes "::" <:+: path ∨ engines = [] ∧ 2 ≤ path.length := by
  rw [viewEngineGetCalls_eq, viewEngineRenderCalls_eq, looksUp_iff, looksUp_iff, and_self]

end Engines

/-- The view `home` is there, and `me` is looked for. -/
theorem viewPath_cut :
    ¬ ∀ (engines : List (Bytes × Bytes)) (viewExists : Bytes → Bytes → Bool) (path : Bytes),
      LooksUp viewExists .getView engines path (viewEngineGetCalls viewExists engines path) := by
  intro hall
  have hget := (hall [(bytes "a", bytes "a")] (fun _ vpath => vpath = bytes "home") (bytes "home")).plain
    (by decide)
  exact absurd hget (by decide)

end LibEvmvc
