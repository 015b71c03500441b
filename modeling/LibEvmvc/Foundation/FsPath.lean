import LibEvmvc.Foundation.Bytes

set_option autoImplicit false

/-! # File system paths

Paths as texts, their components, and `.` and `..` resolved over a stack of directories, as in a file
system without symbolic links. A relative path comes down to a number of steps up and the names it
then goes down (`climb`), and so whether it leaves the directory it starts from can be told from the
path alone (`isPrefix_resolveDots`). -/

namespace LibEvmvc

/-- A component that is read, unless it is empty. -/
def emitComponent (cur : Bytes) : List Bytes := if cur = [] then [] else [cur]

/-- The components of a path, with the part of one that has been read already. -/
def componentsFrom : Bytes → Bytes → List Bytes
  | cur, [] => emitComponent cur
  | cur, c :: t =>
    if c = 47 then emitComponent cur ++ componentsFrom [] t else componentsFrom (cur ++ [c]) t

/-- The names between the slashes of a path. -/
def components (p : Bytes) : List Bytes := componentsFrom [] p

/-- `operator/` of `boost::filesystem::path`: a separator is put in where there is none. -/
def appendPath (p q : Bytes) : Bytes :=
  if q = [] then p
  else if q.head? = some 47 ∨ p = [] ∨ p.getLast? = some 47 then p ++ q
  else p ++ 47 :: q

/-- Go through the components, from the directory `dir`. -/
def resolveDots : List Bytes → List Bytes → List Bytes
  | dir, [] => dir
  | dir, c :: cs =>
    if c = bytes "." then resolveDots dir cs
    else if c = bytes ".." then resolveDots dir.dropLast cs
    else resolveDots (dir ++ [c]) cs

/-- How far up a relative path goes, and the names it goes down from there. -/
def climbFrom : Nat → List Bytes → List Bytes → Nat × List Bytes
  | up, names, [] => (up, names)
  | up, names, c :: cs =>
    if c = bytes "." then climbFrom up names cs
    else if c = bytes ".." then
      if names = [] then climbFrom (up + 1) [] cs else climbFrom up names.dropLast cs
    else climbFrom up (names ++ [c]) cs

def climb (cs : List Bytes) : Nat × List Bytes := climbFrom 0 [] cs

/-! ## Components -/

theorem componentsFrom_slash (cur p q : Bytes) :
    componentsFrom cur (p ++ 47 :: q) = componentsFrom cur p ++ components q := by
  induction p generalizing cur with
  | nil => simp [componentsFrom, components]
  | cons c p ih =>
    simp only [List.cons_append, componentsFrom]
    split
    · rw [ih, List.append_assoc]
    · exact ih (cur ++ [c])

theorem components_slash (p q : Bytes) :
    components (p ++ 47 :: q) = components p ++ components q :=
  componentsFrom_slash [] p q

/-- Appending a path appends its components. -/
theorem components_appendPath (p q : Bytes) :
    components (appendPath p q) = components p ++ components q := by
  unfold appendPath
  split
  · next hq =>
    rw [hq]
    simp [components, componentsFrom, emitComponent]
  · split
    · next hsep =>
      rcases hsep with hq | hp | hp
      · obtain ⟨t, rfl⟩ := List.head?_eq_some_iff.1 hq
        have hnil : components (47 :: t) = components t := components_slash [] t
        rw [components_slash, hnil]
      · rw [hp]
        rfl
      · obtain ⟨t, rfl⟩ := List.getLast?_eq_some_iff.1 hp
        have hlast : components (t ++ [47]) = components t := by
          have hend := components_slash t []
          rwa [show components [] = [] from rfl, List.append_nil] at hend
        rw [hlast, List.append_assoc, List.singleton_append, components_slash]
    · exact components_slash p q

theorem resolveDots_append (dir cs ds : List Bytes) :
    resolveDots dir (cs ++ ds) = resolveDots (resolveDots dir cs) ds := by
  induction cs generalizing dir with
  | nil => rfl
  | cons c cs ih =>
    simp only [List.cons_append, resolveDots]
    split
    · exact ih dir
    · split
      · exact ih dir.dropLast
      · exact ih (dir ++ [c])

/-! ## Relative paths -/

theorem resolveDots_climbFrom (dir names cs : List Bytes) (up : Nat) :
    resolveDots (dir.take (dir.length - up) ++ names) cs
      = dir.take (dir.length - (climbFrom up names cs).1) ++ (climbFrom up names cs).2 := by
  induction cs generalizing up names with
  | nil => rfl
  | cons c cs ih =>
    simp only [resolveDots, climbFrom]
    split
    · exact ih names up
    · split
      · split
        · next hnil =>
          have hup : (dir.take (dir.length - up) ++ names).dropLast
              = dir.take (dir.length - (up + 1)) ++ [] := by
            rw [hnil, List.append_nil, List.append_nil, List.dropLast_eq_take, List.take_take,
              List.length_take]
            congr 1
            omega
          rw [hup]
          exact ih [] (up + 1)
        · next hne =>
          rw [List.dropLast_append_of_ne_nil hne]
          exact ih names.dropLast up
      · rw [List.append_assoc]
        exact ih (names ++ [c]) up

/-- A relative path leads up some steps and down some names. -/
theorem resolveDots_eq (dir cs : List Bytes) :
    resolveDots dir cs = dir.take (dir.length - (climb cs).1) ++ (climb cs).2 := by
  have hfrom := resolveDots_climbFrom dir [] cs 0
  rwa [Nat.sub_zero, List.take_length, List.append_nil] at hfrom

/-- **A relative path stays in the directory it starts from exactly if it goes down the same names
    again that it went up.** -/
theorem isPrefix_resolveDots (dir cs : List Bytes) :
    dir <+: resolveDots dir cs ↔ dir.drop (dir.length - (climb cs).1) <+: (climb cs).2 := by
  rw [resolveDots_eq]
  generalize dir.length - (climb cs).1 = n
  generalize (climb cs).2 = names
  have hcut := List.take_append_drop n dir
  constructor
  · intro h
    have hparts : dir.take n ++ dir.drop n <+: dir.take n ++ names := by
      rw [hcut]
      exact h
    exact (List.prefix_append_right_inj _).1 hparts
  · intro h
    have hparts := (List.prefix_append_right_inj (dir.take n)).2 h
    rwa [hcut] at hparts

end LibEvmvc
