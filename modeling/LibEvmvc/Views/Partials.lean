import LibEvmvc.Foundation.Bytes

set_option autoImplicit false

/-! # Partial views

A view renders another one into its buffer with `view_base::render_view`. The engine looks for the
view, renders it and its layouts, and hands the text to the callback `scb`, which writes it and calls
the callback of the partial.

A view's own `render` is code of the application. What is modelled of it: it writes, renders partials
one after the other, stops with the first error it gets or has, and forwards the result once. -/

namespace LibEvmvc

abbrev ViewErr := Bytes

/-! ## Views and engines -/

/-- What a view's `render` does between its first `begin_write` and the last `commit_write`. -/
inductive ViewOp where
  /-- `write_raw` or `write_enc` -/
  | write (data : Bytes)
  | writeBody
  /-- `render_view`; `noMemory` is what `write_raw` throws if there is no memory for the text -/
  | renderView (path : Bytes) (noMemory : Option ViewErr)
  /-- the view calls its callback with an error, or it throws and `render` does so -/
  | fails (err : ViewErr)
  deriving DecidableEq, Repr

/-- A class of views. -/
structure ViewClass where
  path : Bytes
  absPath : Bytes
  layout : Bytes
  render : List ViewOp
  deriving DecidableEq, Repr

/-- `fanjet::view_engine`: its namespace and the views that are registered, in the order of the map. -/
structure ViewEngine where
  ns : Bytes
  views : List (Bytes × ViewClass)
  deriving DecidableEq, Repr

/-- A view and the engine it was made by. -/
structure View where
  engine : ViewEngine
  cls : ViewClass
  deriving DecidableEq, Repr

/-- `md::async::each`: how often and with what its completion callback is called, by what the calls for
    the elements have reported. It is called once, with one of the errors if there is one. -/
structure AsyncEach where
  done : List (Option ViewErr) → List (Option ViewErr)
  all_ok : ∀ rs, (∀ r ∈ rs, r = none) → done rs = [none]
  some_err : ∀ rs err, some err ∈ rs → ∃ e, some e ∈ rs ∧ done rs = [some e]

/-- The engines in the order of `_engines()`, the parser of the language `html`, and
    `md::async::each`. -/
structure ViewEnv where
  engines : List (Bytes × ViewEngine)
  parseLanguage : Bytes → Bytes
  each : AsyncEach

/-! ## Looking for a view -/

/-- `std::string::rfind("::")`. -/
def rfindNs (s : Bytes) : Option Nat :=
  (List.range s.length).reverse.find? fun i => (bytes "::").isPrefixOf (s.drop i)

/-- `fanjet::view_engine::find_generator`: in the directory of the path and then in those above it, and
    there in the directory itself, in `partials`, `layouts` and `helpers`. -/
def ViewEngine.findGenerator (e : ViewEngine) (path : Bytes) : Except ViewErr (Option ViewClass) :=
  if path = [] then .error (bytes "path is empty!")
  else
    let parts := path.splitOn 47
    let name := parts.getLastD []
    .ok ((List.range parts.length).reverse.findSome? fun i =>
      let rp := (parts.take i).flatMap fun part => part ++ bytes "/"
      e.views.findSome? fun v =>
        if v.1 = rp ++ name ∨ v.1 = rp ++ bytes "partials/" ++ name
            ∨ v.1 = rp ++ bytes "layouts/" ++ name ∨ v.1 = rp ++ bytes "helpers/" ++ name then
          some v.2
        else none)

/-- `fanjet::view_engine::get_view`. -/
def ViewEngine.getView (e : ViewEngine) (path : Bytes) : Except ViewErr (Option View) :=
  (e.findGenerator path).map fun cls => cls.map fun cls => ⟨e, cls⟩

/-- The engine a path with a namespace is for: the one of the namespace, or without a namespace the
    first one that has the view. -/
def findEngine (engines : List (Bytes × ViewEngine)) (ns vpath : Bytes) :
    Except ViewErr (Option ViewEngine) :=
  if ns ≠ [] then .ok (engines.lookup ns)
  else
    engines.foldr (fun e rest => do
      if (← e.2.findGenerator vpath).isSome then return some e.2 else rest) (.ok none)

/-- `view_engine::get`, for a path with a namespace. -/
def viewEngineGet (env : ViewEnv) (path : Bytes) : Except ViewErr (Option View) := do
  let ns := match rfindNs path with
    | none => []
    | some p => path.take p
  let vpath := path.drop (ns.length + 2)
  match ← findEngine env.engines ns vpath with
  | none => return none
  | some e => e.getView vpath

/-- The layout of a view that is rendered for `path`: next to the view, or at the path it is given
    with. -/
def findLayout (env : ViewEnv) (e : ViewEngine) (path s : Bytes) : Except ViewErr (Option View) := do
  match rfindNs s with
  | some _ => viewEngineGet env s
  | none =>
    let relPath := (path.reverse.dropWhile (· ≠ 47)).reverse
    match ← e.getView (relPath ++ s) with
    | some tv => return some tv
    | none => e.getView s

/-- The loop over the layouts of `tv`, and their layouts. -/
def layouts (env : ViewEnv) (e : ViewEngine) (path : Bytes) :
    Nat → View → Option (Except ViewErr (List View))
  | 0, _ => none
  | fuel + 1, tv =>
    if tv.cls.layout = [] then some (.ok [])
    else
      match findLayout env e path tv.cls.layout with
      | .error err => some (.error err)
      | .ok none => some (.ok [])
      | .ok (some tv) => (layouts env e path fuel tv).map fun r => r.map (tv :: ·)

/-- What comes of looking for a view: the callback is called with an error, an exception is thrown, or
    the view and its layouts are there. -/
inductive Located where
  | missing (err : ViewErr)
  | thrown (err : ViewErr)
  | views (vs : List View)
  deriving DecidableEq, Repr

/-- The first half of `fanjet::view_engine::render_view`. -/
def ViewEngine.locate (env : ViewEnv) (fuel : Nat) (e : ViewEngine) (path : Bytes) : Option Located :=
  match e.findGenerator path with
  | .error err => some (.thrown err)
  | .ok none => some (.missing (bytes "Engine 'fanjet' is unable to locate view at: '" ++ e.ns ++
      bytes "::" ++ path ++ bytes "'"))
  | .ok (some cls) =>
    (layouts env e path fuel ⟨e, cls⟩).map fun
      | .error err => .thrown err
      | .ok vs => .views (⟨e, cls⟩ :: vs)

/-- `view_engine::render`, for a path with a namespace and up to the engine's `render_view`. -/
def viewEngineLocate (env : ViewEnv) (fuel : Nat) (path : Bytes) : Option Located :=
  let ns := match rfindNs path with
    | none => []
    | some p => path.take p
  let vpath := path.drop (ns.length + 2)
  match findEngine env.engines ns vpath with
  | .error err => some (.thrown err)
  | .ok (some e) => e.locate env fuel vpath
  | .ok none =>
    if ns ≠ [] then
      some (.missing (bytes "Unable to find engine with namespace: '" ++ ns ++ bytes "', path: '" ++
        path ++ bytes "'"))
    else some (.missing (bytes "No view engine contains view at path: '" ++ path ++ bytes "'"))

/-- The path a view asks for, in `view_base::render_view`: a relative one is relative to the view. -/
def View.locate (env : ViewEnv) (fuel : Nat) (self : View) (path : Bytes) : Option Located :=
  match rfindNs path with
  | none =>
    let ps := if path.head? ≠ some 47 then self.cls.path ++ path else path
    self.engine.locate env fuel ps
  | some nsp =>
    let ns := path.take nsp
    let p := path.drop (nsp + 2)
    let ps := if p.head? ≠ some 47 then ns ++ bytes "::" ++ self.cls.path ++ p else path
    viewEngineLocate env fuel ps

/-! ## Rendering -/

/-- What has come of a partial so far: an exception that `render_view` has thrown, the calls of the
    callback it was given, and the buffer of the view it is for. -/
structure PartialRun where
  thrown : Option ViewErr
  calls : List (Option ViewErr)
  top : Bytes
  deriving DecidableEq, Repr

/-- The callback `scb` of `view_base::render_view`. After an error it goes on. -/
def PartialRun.scb (noMemory : Option ViewErr) (run : PartialRun) (err : Option ViewErr)
    (data : Bytes) : PartialRun :=
  let run := match err with
    | some e => { run with calls := run.calls ++ [some e] }
    | none => run
  match noMemory with
  | some e => { run with calls := run.calls ++ [some e] }
  | none => { run with top := run.top ++ data, calls := run.calls ++ [none] }

/-- A view's `render`: what it reports, and its output. `partials` renders a partial. -/
def renderOps (env : ViewEnv) (partials : Bytes → Option ViewErr → Bytes → Option PartialRun)
    (body : Option Bytes) : List ViewOp → Bytes → Option (Option ViewErr × Bytes)
  | [], top => some (none, env.parseLanguage top)
  | .write data :: ops, top => renderOps env partials body ops (top ++ data)
  | .writeBody :: ops, top =>
    renderOps env partials body ops (top ++ (body.map env.parseLanguage).getD [])
  | .fails err :: _, _ => some (some err, [])
  | .renderView path noMemory :: ops, top =>
    match partials path noMemory top with
    | none => none
    | some { thrown := some err, .. } => some (some err, [])
    | some { thrown := none, calls := [], .. } => none
    | some { thrown := none, calls := some err :: _, .. } => some (some err, [])
    | some { thrown := none, calls := none :: _, top := top } => renderOps env partials body ops top

/-- The views from the innermost one on. Each is the body of the next one. -/
def renderViews (env : ViewEnv)
    (partials : View → Bytes → Option ViewErr → Bytes → Option PartialRun) :
    Option Bytes → List View → Option (List (Option ViewErr × Bytes))
  | _, [] => some []
  | body, v :: vs =>
    match renderOps env (partials v) body v.cls.render [] with
    | none => none
    | some r => (renderViews env partials (some r.2) vs).map (r :: ·)

/-- `view_base::render_view`, with the `render_view` of the engine: `fuel` bounds the depth of the
    partials and the number of layouts. -/
def renderView (env : ViewEnv) : Nat → View → Bytes → Option ViewErr → Bytes → Option PartialRun
  | 0, _, _, _, _ => none
  | fuel + 1, self, path, noMemory, top =>
    let run : PartialRun := { thrown := none, calls := [], top := top }
    match self.locate env fuel path with
    | none => none
    | some (.thrown err) => some { run with thrown := some err }
    | some (.missing err) => some (run.scb noMemory (some err) [])
    | some (.views vs) =>
      match renderViews env (renderView env fuel) none vs with
      | none => none
      | some rs =>
        let buffer := (rs.getLastD (none, [])).2
        some ((env.each.done (rs.map Prod.fst)).foldl (fun run err =>
          match err with
          | some e => run.scb noMemory (some e) []
          | none => run.scb noMemory none buffer) run)

/-! ## Trees of partials -/

/-- A view asks for a path, and this is found. -/
def Locates (env : ViewEnv) (self : View) (path : Bytes) (found : Located) : Prop :=
  ∃ fuel, self.locate env fuel path = some found

/-- The tree of the partials below a partial is finite. -/
inductive PartialTree (env : ViewEnv) : View → Bytes → Prop where
  | lost {self : View} {path : Bytes} {found : Located} (hfound : Locates env self path found)
      (hlost : ∀ vs, found ≠ .views vs) : PartialTree env self path
  | found {self : View} {path : Bytes} {vs : List View} (hfound : Locates env self path (.views vs))
      (hbelow : ∀ v ∈ vs, ∀ p noMemory, .renderView p noMemory ∈ v.cls.render → PartialTree env v p) :
      PartialTree env self path

/-- A partial fails if it is not found, or if one of its views fails: with an error of its own, because
    of a partial nested in it, or because it has no memory for the text of one. -/
inductive PartialFails (env : ViewEnv) : View → Bytes → Prop where
  | lost {self : View} {path : Bytes} {found : Located} (hfound : Locates env self path found)
      (hlost : ∀ vs, found ≠ .views vs) : PartialFails env self path
  | own {self v : View} {path : Bytes} {vs : List View} {err : ViewErr}
      (hfound : Locates env self path (.views vs)) (hv : v ∈ vs) (hop : .fails err ∈ v.cls.render) :
      PartialFails env self path
  | nested {self v : View} {path p : Bytes} {vs : List View} {noMemory : Option ViewErr}
      (hfound : Locates env self path (.views vs)) (hv : v ∈ vs)
      (hop : .renderView p noMemory ∈ v.cls.render) (hfails : PartialFails env v p) :
      PartialFails env self path
  | noMemory {self v : View} {path p : Bytes} {vs : List View} {err : ViewErr}
      (hfound : Locates env self path (.views vs)) (hv : v ∈ vs)
      (hop : .renderView p (some err) ∈ v.cls.render) : PartialFails env self path

/-- The callback of a partial is called once, with an error exactly if the partial has failed, and then
    nothing is written. -/
structure ReportsOnce (run : PartialRun) (failed : Prop) (top : Bytes) : Prop where
  once : run.calls.length = 1
  error : (∃ err, some err ∈ run.calls) ↔ failed
  clean : failed → run.top = top

/-! ### Looking for a view has one result -/

section Locating

variable {env : ViewEnv}

theorem layouts_more {e : ViewEngine} {path : Bytes} {fuel : Nat} {tv : View}
    {r : Except ViewErr (List View)} (h : layouts env e path fuel tv = some r) {more : Nat}
    (hle : fuel ≤ more) : layouts env e path more tv = some r := by
  induction fuel generalizing more tv r with
  | zero => cases h
  | succ fuel ih =>
    obtain ⟨more, rfl⟩ : ∃ n, more = n + 1 := ⟨more - 1, by omega⟩
    rw [layouts] at h ⊢
    split at h
    · next hnone => rw [if_pos hnone]; exact h
    · next hnone =>
      rw [if_neg hnone]
      cases hlayout : findLayout env e path tv.cls.layout with
      | error err =>
        rw [hlayout] at h
        exact h
      | ok next =>
        rw [hlayout] at h
        cases next with
        | none => exact h
        | some tv' =>
          obtain ⟨rest, hrest, rfl⟩ := Option.map_eq_some_iff.1 h
          show (layouts env e path more tv').map _ = _
          rw [ih hrest (by omega)]
          rfl

theorem ViewEngine.locate_more {e : ViewEngine} {path : Bytes} {fuel : Nat} {found : Located}
    (h : e.locate env fuel path = some found) {more : Nat} (hle : fuel ≤ more) :
    e.locate env more path = some found := by
  unfold ViewEngine.locate at h ⊢
  cases hgen : e.findGenerator path with
  | error err =>
    rw [hgen] at h
    exact h
  | ok cls =>
    rw [hgen] at h
    cases cls with
    | none => exact h
    | some cls =>
      obtain ⟨r, hr, rfl⟩ := Option.map_eq_some_iff.1 h
      show (layouts env e path more ⟨e, cls⟩).map _ = _
      rw [layouts_more hr hle]
      rfl

theorem viewEngineLocate_more {path : Bytes} {fuel : Nat} {found : Located}
    (h : viewEngineLocate env fuel path = some found) {more : Nat} (hle : fuel ≤ more) :
    viewEngineLocate env more path = some found := by
  unfold viewEngineLocate at h ⊢
  simp only at h ⊢
  generalize findEngine env.engines _ _ = engine at h ⊢
  match engine with
  | .error err => exact h
  | .ok none => exact h
  | .ok (some e) => exact ViewEngine.locate_more h hle

theorem View.locate_more {self : View} {path : Bytes} {fuel : Nat} {found : Located}
    (h : self.locate env fuel path = some found) {more : Nat} (hle : fuel ≤ more) :
    self.locate env more path = some found := by
  unfold View.locate at h ⊢
  cases hns : rfindNs path with
  | none =>
    rw [hns] at h
    exact ViewEngine.locate_more h hle
  | some nsp =>
    rw [hns] at h
    exact viewEngineLocate_more h hle

/-- With steps enough a view is found, or it is not, once and for all. -/
theorem Locates.eventually {self : View} {path : Bytes} {found : Located}
    (h : Locates env self path found) :
    ∃ N, ∀ fuel, N ≤ fuel → self.locate env fuel path = some found := by
  obtain ⟨N, hN⟩ := h
  exact ⟨N, fun fuel hle => View.locate_more hN hle⟩

theorem Locates.unique {self : View} {path : Bytes} {found found' : Located}
    (h : Locates env self path found) (h' : Locates env self path found') : found = found' := by
  obtain ⟨N, hN⟩ := h.eventually
  obtain ⟨N', hN'⟩ := h'.eventually
  have heq := (hN _ (Nat.le_max_left N N')).symm.trans (hN' _ (Nat.le_max_right N N'))
  exact Option.some.inj heq

end Locating

/-! ### Whole trees -/

section Trees

variable {env : ViewEnv}

/-- The operation makes its view fail. -/
def OpFails (env : ViewEnv) (v : View) : ViewOp → Prop
  | .write _ => False
  | .writeBody => False
  | .fails _ => True
  | .renderView p noMemory => PartialFails env v p ∨ noMemory ≠ none

/-- A partial that is found fails exactly if an operation of one of its views does. -/
theorem partialFails_iff {self : View} {path : Bytes} {vs : List View}
    (hfound : Locates env self path (.views vs)) :
    PartialFails env self path ↔ ∃ v ∈ vs, ∃ op ∈ v.cls.render, OpFails env v op := by
  constructor
  · intro h
    cases h with
    | lost hfound' hlost => exact absurd (hfound'.unique hfound) (hlost vs)
    | own hfound' hv hop =>
      cases hfound'.unique hfound
      exact ⟨_, hv, _, hop, trivial⟩
    | nested hfound' hv hop hfails =>
      cases hfound'.unique hfound
      exact ⟨_, hv, _, hop, .inl hfails⟩
    | noMemory hfound' hv hop =>
      cases hfound'.unique hfound
      exact ⟨_, hv, _, hop, .inr (by simp)⟩
  · rintro ⟨v, hv, op, hop, hfails⟩
    match op, hfails with
    | .fails err, _ => exact .own hfound hv hop
    | .renderView p noMemory, .inl hnested => exact .nested hfound hv hop hnested
    | .renderView p (some err), .inr _ => exact .noMemory hfound hv hop

/-- What comes of a partial: the text is written and the callback called once (with an error if there
    was no memory); or, for one that fails, there is an exception and no call, or there are two
    calls. -/
def PartialOutcome (failed : Prop) (noMemory : Option ViewErr) (top : Bytes) (run : PartialRun) : Prop :=
  (¬ failed ∧ run.thrown = none ∧ run.calls = [noMemory] ∧ (noMemory ≠ none → run.top = top)) ∨
    (failed ∧ run.top = top ∧
      ((∃ err, run.thrown = some err ∧ run.calls = []) ∨
        (∃ err, run.thrown = none ∧ run.calls = [some err, noMemory])))

/-- A view reports an error exactly if one of its operations fails. -/
theorem renderOps_reports {v : View}
    {partials : Bytes → Option ViewErr → Bytes → Option PartialRun} (body : Option Bytes)
    (ops : List ViewOp)
    (hpartials : ∀ p noMemory, .renderView p noMemory ∈ ops → ∀ top, ∃ run,
      partials p noMemory top = some run ∧ PartialOutcome (PartialFails env v p) noMemory top run)
    (top : Bytes) :
    ∃ r, renderOps env partials body ops top = some r ∧
      (r.1 ≠ none ↔ ∃ op ∈ ops, OpFails env v op) := by
  induction ops generalizing top with
  | nil => exact ⟨_, rfl, by simp⟩
  | cons op ops ih =>
    have hrest := fun top => ih (fun p noMemory hop => hpartials p noMemory (List.mem_cons_of_mem _ hop)) top
    match op with
    | .write data =>
      obtain ⟨r, hr, hfails⟩ := hrest (top ++ data)
      refine ⟨r, hr, ?_⟩
      rw [hfails, List.exists_mem_cons_iff]
      simp [OpFails]
    | .writeBody =>
      obtain ⟨r, hr, hfails⟩ := hrest (top ++ (body.map env.parseLanguage).getD [])
      refine ⟨r, hr, ?_⟩
      rw [hfails, List.exists_mem_cons_iff]
      simp [OpFails]
    | .fails err => exact ⟨_, rfl, by simp [OpFails]⟩
    | .renderView p noMemory =>
      obtain ⟨⟨thrown, calls, top'⟩, hrun, hout⟩ := hpartials p noMemory (List.mem_cons_self ..) top
      rw [renderOps, hrun]
      obtain ⟨hok, hthrown, hcalls, -⟩ | ⟨hfail, -, ⟨err, hthrown, -⟩ | ⟨err, hthrown, hcalls⟩⟩ := hout
      · simp only at hthrown hcalls
        subst hthrown hcalls
        cases noMemory with
        | none =>
          obtain ⟨r, hr, hfails⟩ := hrest top'
          refine ⟨r, hr, ?_⟩
          rw [hfails, List.exists_mem_cons_iff]
          simp [OpFails, hok]
        | some err => exact ⟨_, rfl, by simp [OpFails]⟩
      · simp only at hthrown
        subst hthrown
        exact ⟨_, rfl, by simp [OpFails, hfail]⟩
      · simp only at hthrown hcalls
        subst hthrown hcalls
        exact ⟨_, rfl, by simp [OpFails, hfail]⟩

/-- One of the views reports an error exactly if an operation of one of them fails. -/
theorem renderViews_reports
    {partials : View → Bytes → Option ViewErr → Bytes → Option PartialRun} (vs : List View)
    (hpartials : ∀ v ∈ vs, ∀ p noMemory, .renderView p noMemory ∈ v.cls.render → ∀ top, ∃ run,
      partials v p noMemory top = some run ∧ PartialOutcome (PartialFails env v p) noMemory top run)
    (body : Option Bytes) :
    ∃ rs, renderViews env partials body vs = some rs ∧
      ((∃ err, some err ∈ rs.map Prod.fst) ↔ ∃ v ∈ vs, ∃ op ∈ v.cls.render, OpFails env v op) := by
  induction vs generalizing body with
  | nil => exact ⟨[], rfl, by simp⟩
  | cons v vs ih =>
    obtain ⟨r, hr, hfails⟩ := renderOps_reports body v.cls.render (hpartials v (List.mem_cons_self ..)) []
    obtain ⟨rs, hrs, hrest⟩ := ih (fun w hw => hpartials w (List.mem_cons_of_mem _ hw)) (some r.2)
    refine ⟨r :: rs, ?_, ?_⟩
    · rw [renderViews, hr]
      show (renderViews env partials (some r.2) vs).map _ = _
      rw [hrs]
      rfl
    · rw [List.exists_mem_cons_iff, ← hfails, ← hrest]
      constructor
      · rintro ⟨err, herr⟩
        rcases List.mem_cons.1 herr with hhead | htail
        · exact .inl (by rw [← hhead]; simp)
        · exact .inr ⟨err, htail⟩
      · rintro (hhead | ⟨err, htail⟩)
        · obtain ⟨err, herr⟩ := Option.ne_none_iff_exists'.1 hhead
          exact ⟨err, List.mem_cons.2 (.inl herr.symm)⟩
        · exact ⟨err, List.mem_cons_of_mem _ htail⟩

/-- One level of the tree. -/
theorem renderView_outcome_views {fuel : Nat} {self : View} {path : Bytes} {vs : List View}
    (hlocate : self.locate env fuel path = some (.views vs))
    (hbelow : ∀ v ∈ vs, ∀ p noMemory, .renderView p noMemory ∈ v.cls.render → ∀ top, ∃ run,
      renderView env fuel v p noMemory top = some run ∧
        PartialOutcome (PartialFails env v p) noMemory top run)
    (noMemory : Option ViewErr) (top : Bytes) :
    ∃ run, renderView env (fuel + 1) self path noMemory top = some run ∧
      PartialOutcome (PartialFails env self path) noMemory top run := by
  obtain ⟨rs, hrs, hfails⟩ := renderViews_reports vs hbelow none
  rw [← partialFails_iff ⟨fuel, hlocate⟩] at hfails
  rw [renderView, hlocate]
  simp only [hrs]
  refine ⟨_, rfl, ?_⟩
  by_cases hfailed : PartialFails env self path
  · obtain ⟨err, herr⟩ := hfails.2 hfailed
    obtain ⟨e, -, hdone⟩ := env.each.some_err _ err herr
    rw [hdone]
    refine .inr ⟨hfailed, ?_, .inr ⟨e, ?_, ?_⟩⟩ <;>
      cases noMemory <;> simp [PartialRun.scb]
  · have hall : ∀ r ∈ rs.map Prod.fst, r = none := by
      intro r hr
      by_contra hne
      obtain ⟨err, rfl⟩ := Option.ne_none_iff_exists'.1 hne
      exact hfailed (hfails.1 ⟨err, hr⟩)
    rw [env.each.all_ok _ hall]
    refine .inl ⟨hfailed, ?_, ?_, ?_⟩ <;>
      cases noMemory <;> simp [PartialRun.scb]

/-- What holds from some point on of every element of a list holds of all of them from some point on. -/
theorem eventually_forall_mem {α : Type} {P : Nat → α → Prop} (l : List α)
    (h : ∀ a ∈ l, ∃ N, ∀ n, N ≤ n → P n a) : ∃ N, ∀ n, N ≤ n → ∀ a ∈ l, P n a := by
  induction l with
  | nil => exact ⟨0, fun n _ a ha => absurd ha (by simp)⟩
  | cons a l ih =>
    obtain ⟨N, hN⟩ := ih fun b hb => h b (List.mem_cons_of_mem _ hb)
    obtain ⟨M, hM⟩ := h a (List.mem_cons_self ..)
    refine ⟨max N M, fun n hn b hb => ?_⟩
    rcases List.mem_cons.1 hb with rfl | hb
    · exact hM n (le_trans (le_max_right ..) hn)
    · exact hN n (le_trans (le_max_left ..) hn) b hb

/-- **What comes of every partial of a finite tree.** -/
theorem PartialTree.outcome {self : View} {path : Bytes} (h : PartialTree env self path) :
    ∃ N, ∀ fuel, N ≤ fuel → ∀ noMemory top, ∃ run,
      renderView env fuel self path noMemory top = some run ∧
        PartialOutcome (PartialFails env self path) noMemory top run := by
  induction h with
  | @lost self path found hfound hlost =>
    obtain ⟨N, hN⟩ := hfound.eventually
    refine ⟨N + 1, fun fuel hfuel noMemory top => ?_⟩
    obtain ⟨fuel, rfl⟩ : ∃ n, fuel = n + 1 := ⟨fuel - 1, by omega⟩
    rw [renderView, hN fuel (by omega)]
    cases found with
    | thrown err => exact ⟨_, rfl, .inr ⟨.lost hfound hlost, rfl, .inl ⟨err, rfl, rfl⟩⟩⟩
    | missing err =>
      refine ⟨_, rfl, .inr ⟨.lost hfound hlost, ?_, .inr ⟨err, ?_, ?_⟩⟩⟩ <;>
        cases noMemory <;> simp [PartialRun.scb]
    | views vs => exact absurd rfl (hlost vs)
  | @found self path vs hfound hbelow ih =>
    obtain ⟨N, hN⟩ := hfound.eventually
    -- one number of steps for all partials of all views
    obtain ⟨M, hM⟩ := eventually_forall_mem (P := fun n v => ∀ op ∈ v.cls.render, ∀ p noMemory,
        op = .renderView p noMemory → ∀ noMemory top, ∃ run,
          renderView env n v p noMemory top = some run ∧
            PartialOutcome (PartialFails env v p) noMemory top run) vs fun v hv => by
      refine eventually_forall_mem _ fun op hop => ?_
      match op with
      | .renderView p noMemory =>
        obtain ⟨K, hK⟩ := ih v hv p noMemory hop
        refine ⟨K, fun n hn p' noMemory' heq => ?_⟩
        cases heq
        exact hK n hn
      | .write data => exact ⟨0, fun n _ p' noMemory' heq => by cases heq⟩
      | .writeBody => exact ⟨0, fun n _ p' noMemory' heq => by cases heq⟩
      | .fails err => exact ⟨0, fun n _ p' noMemory' heq => by cases heq⟩
    refine ⟨max N M + 1, fun fuel hfuel noMemory top => ?_⟩
    obtain ⟨fuel, rfl⟩ : ∃ n, fuel = n + 1 := ⟨fuel - 1, by omega⟩
    exact renderView_outcome_views (hN fuel (by omega))
      (fun v hv p nm hop => hM fuel (by omega) v hv _ hop p nm rfl nm) noMemory top

/-- The callback is called once, with the right result, exactly if the partial does not fail. -/
theorem PartialOutcome.reportsOnce {failed : Prop} {noMemory : Option ViewErr} {top : Bytes}
    {run : PartialRun} (h : PartialOutcome failed noMemory top run) :
    ReportsOnce run (failed ∨ noMemory ≠ none) top ↔ ¬ failed := by
  obtain ⟨hok, -, hcalls, htop⟩ | ⟨hfail, -, ⟨err, -, hcalls⟩ | ⟨err, -, hcalls⟩⟩ := h
  · refine iff_of_true ⟨by rw [hcalls]; rfl, ?_, ?_⟩ hok
    · rw [hcalls]
      cases noMemory <;> simp [hok]
    · rintro (hfail | hne)
      · exact absurd hfail hok
      · exact htop hne
  · refine iff_of_false (fun h => ?_) (fun h => h hfail)
    have hlen := h.once
    rw [hcalls] at hlen
    cases hlen
  · refine iff_of_false (fun h => ?_) (fun h => h hfail)
    have hlen := h.once
    rw [hcalls] at hlen
    cases hlen

end Trees

/-- **The callback of a partial is called once, with the right result, exactly if the partial does not
    fail**: a partial that fails has two calls or none. -/
theorem reportsOnce_iff (env : ViewEnv) {self : View} {path : Bytes} (h : PartialTree env self path)
    (noMemory : Option ViewErr) (top : Bytes) :
    ∃ N, ∀ fuel, N ≤ fuel → ∃ run, renderView env fuel self path noMemory top = some run ∧
      (ReportsOnce run (PartialFails env self path ∨ noMemory ≠ none) top ↔
        ¬ PartialFails env self path) := by
  obtain ⟨N, hN⟩ := h.outcome
  refine ⟨N, fun fuel hfuel => ?_⟩
  obtain ⟨run, hrun, hout⟩ := hN fuel hfuel noMemory top
  exact ⟨run, hrun, hout.reportsOnce⟩

/-- `md::async::each` with the first error. -/
def firstError : AsyncEach where
  done rs := [rs.findSome? id]
  all_ok rs h := by
    have hnone : rs.findSome? id = none := List.findSome?_eq_none_iff.2 fun r hr => h r hr
    rw [hnone]
  some_err rs err h := by
    cases hfirst : rs.findSome? id with
    | none => exact absurd (List.findSome?_eq_none_iff.1 hfirst _ h) (by simp)
    | some e =>
      obtain ⟨a, ha, hae⟩ := List.exists_of_findSome?_eq_some hfirst
      exact ⟨e, by rw [← hae]; exact ha, rfl⟩

/-- Two views, `/good` and `/bad`, and one that has both of them. -/
def sampleEngine : ViewEngine where
  ns := bytes "app"
  views := [
    (bytes "/good", ⟨bytes "", bytes "/good", bytes "", [.write (bytes "a")]⟩),
    (bytes "/bad", ⟨bytes "", bytes "/bad", bytes "", [.fails (bytes "no")]⟩),
    (bytes "/page", ⟨bytes "", bytes "/page", bytes "",
      [.renderView (bytes "/good") none, .renderView (bytes "/bad") none]⟩)]

def sampleViews : ViewEnv where
  engines := [(bytes "app", sampleEngine)]
  parseLanguage := id
  each := firstError

def samplePage : View :=
  ⟨sampleEngine, ⟨bytes "", bytes "/page", bytes "",
    [.renderView (bytes "/good") none, .renderView (bytes "/bad") none]⟩⟩

theorem locates_good : Locates sampleViews samplePage (bytes "/good")
    (.views [⟨sampleEngine, ⟨bytes "", bytes "/good", bytes "", [.write (bytes "a")]⟩⟩]) :=
  ⟨1, by decide⟩

theorem locates_bad : Locates sampleViews samplePage (bytes "/bad")
    (.views [⟨sampleEngine, ⟨bytes "", bytes "/bad", bytes "", [.fails (bytes "no")]⟩⟩]) :=
  ⟨1, by decide⟩

theorem partialTree_good : PartialTree sampleViews samplePage (bytes "/good") := by
  refine .found locates_good ?_
  intro v hv p noMemory hop
  rw [List.mem_singleton.1 hv] at hop
  simp at hop

theorem partialTree_bad : PartialTree sampleViews samplePage (bytes "/bad") := by
  refine .found locates_bad ?_
  intro v hv p noMemory hop
  rw [List.mem_singleton.1 hv] at hop
  simp at hop

/-- The partial `/good` of the page is reported once. -/
theorem reportsOnce_good : ∃ N, ∀ fuel, N ≤ fuel → ∃ run,
    renderView sampleViews fuel samplePage (bytes "/good") none [] = some run ∧
      ReportsOnce run
        (PartialFails sampleViews samplePage (bytes "/good") ∨ (none : Option ViewErr) ≠ none) [] := by
  have hgood : ¬ PartialFails sampleViews samplePage (bytes "/good") := by
    rw [partialFails_iff locates_good]
    rintro ⟨v, hv, op, hop, hfails⟩
    rw [List.mem_singleton.1 hv] at hop
    rw [List.mem_singleton.1 hop] at hfails
    exact hfails
  obtain ⟨N, hN⟩ := reportsOnce_iff sampleViews partialTree_good none []
  refine ⟨N, fun fuel hfuel => ?_⟩
  obtain ⟨run, hrun, hiff⟩ := hN fuel hfuel
  exact ⟨run, hrun, hiff.2 hgood⟩

/-- The partial `/bad` of the page calls back with the error, and then without. -/
theorem failed_partial_reports_twice :
    ¬ ∀ (env : ViewEnv) (self : View) (path : Bytes) (noMemory : Option ViewErr) (top : Bytes),
      PartialTree env self path → ∃ N, ∀ fuel, N ≤ fuel → ∃ run,
        renderView env fuel self path noMemory top = some run ∧
          ReportsOnce run (PartialFails env self path ∨ noMemory ≠ none) top := by
  intro hall
  obtain ⟨N, hN⟩ := hall sampleViews samplePage (bytes "/bad") none [] partialTree_bad
  obtain ⟨M, hM⟩ := partialTree_bad.outcome
  obtain ⟨run, hrun, hreports⟩ := hN (max N M) (Nat.le_max_left N M)
  obtain ⟨run', hrun', hout⟩ := hM (max N M) (Nat.le_max_right N M) none []
  cases hrun.symm.trans hrun'
  have hop : .fails (bytes "no") ∈ [ViewOp.fails (bytes "no")] := List.mem_singleton.2 rfl
  exact hout.reportsOnce.1 hreports (.own locates_bad (List.mem_singleton.2 rfl) hop)

example : renderView sampleViews 2 samplePage (bytes "/bad") none [] =
    some { thrown := none, calls := [some (bytes "no"), none], top := [] } := by decide

end LibEvmvc
