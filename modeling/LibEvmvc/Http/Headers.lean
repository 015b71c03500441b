import LibEvmvc.Foundation.Lines
import LibEvmvc.Foundation.UMap
import Mathlib.Data.List.TakeWhile

set_option autoImplicit false

/-! # Header maps

`header_map_t` maps a header name, whatever its case, to the values it was given, in order. The name
is sent as it was first spelt. -/

namespace LibEvmvc

/-- `header_map_t`. -/
abbrev HeaderMap := UMap lower (List Bytes)

/-- What a C string function sees of a text. -/
def cstr (b : Bytes) : Bytes := b.takeWhile (· ≠ 0)

/-- `!strcasecmp`. -/
def strcasecmp (a b : Bytes) : Bool := lower (cstr a) = lower (cstr b)

theorem not_mem_cstr (b : Bytes) : 0 ∉ cstr b := by
  intro h
  simpa using List.mem_takeWhile_imp h

theorem cstr_of_noNul {b : Bytes} (h : 0 ∉ b) : cstr b = b := by
  refine List.takeWhile_eq_self_iff.2 fun c hc => decide_eq_true ?_
  rintro rfl
  exact h hc

/-- `encoding_type`. -/
inductive EncodingType where
  | unsupported
  | gzip
  | deflate
  | star
  deriving DecidableEq, Repr

namespace HeaderMap

/-- `http_headers::set`. -/
def set (m : HeaderMap) (name val : Bytes) (clearExisting : Bool) : HeaderMap :=
  match m.get? name with
  | none => m.emplace name [val]
  | some _ => m.modify name fun vals => (if clearExisting then [] else vals) ++ [val]

/-- `http_headers::get`, the first value. -/
def getFirst (m : HeaderMap) (name : Bytes) : Option Bytes :=
  (m.get? name).bind List.head?

/-- `http_headers::compare_value`, ignoring case. -/
def compareValue (m : HeaderMap) (name val : Bytes) : Bool :=
  match m.getFirst name with
  | none => false
  | some v => lower (cstr v) == lower (cstr val)

/-- `http_headers::remove`. -/
def remove (m : HeaderMap) (name : Bytes) : HeaderMap := m.erase name

/-- Every name with each of its values, as a walk over the map meets them. -/
def lines (m : HeaderMap) (order : IterOrder Bytes (List Bytes)) : List (Bytes × Bytes) :=
  (m.iterate order).flatMap fun e => e.2.map fun v => (e.1, v)

/-- The values stored under a name, in order. -/
def values (m : HeaderMap) (name : Bytes) : List Bytes := (m.get? name).getD []

/-- A value is added after those its name has already. -/
theorem values_set (m : HeaderMap) (name val name' : Bytes) :
    (m.set name val false).values name'
      = if lower name' = lower name then m.values name' ++ [val] else m.values name' := by
  unfold set values
  cases hget : m.get? name with
  | none =>
    simp only [UMap.get?_emplace, hget]
    split
    · next hname => rw [UMap.get?_congr m hname, hget]; rfl
    · rfl
  | some vals =>
    simp only [UMap.get?_modify]
    split
    · next hname => rw [UMap.get?_congr m hname, hget]; rfl
    · rfl

/-- All names of the map satisfy `p`. -/
def Names (p : Bytes → Prop) (m : HeaderMap) : Prop := ∀ e ∈ m.entries, p e.1

variable {p : Bytes → Prop} {m : HeaderMap}

theorem names_empty : Names p (UMap.empty lower (List Bytes)) := by
  intro e he
  cases he

theorem names_set (h : Names p m) {name : Bytes} (hname : p name) (val : Bytes) (clear : Bool) :
    Names p (m.set name val clear) := by
  unfold set
  split
  · intro e he
    rcases UMap.mem_emplace.1 he with hmem | ⟨-, rfl⟩
    · exact h e hmem
    · exact hname
  · intro e he
    obtain ⟨e', he', hkey⟩ := UMap.key_of_mem_modify he
    rw [← hkey]
    exact h e' he'

theorem names_remove (h : Names p m) (name : Bytes) : Names p (m.remove name) := by
  intro e he
  exact h e (UMap.mem_of_mem_erase he)

theorem names_lines (h : Names p m) (order : IterOrder Bytes (List Bytes)) :
    ∀ nv ∈ m.lines order, p nv.1 := by
  intro nv hnv
  obtain ⟨e, he, hv⟩ := List.mem_flatMap.1 hnv
  obtain ⟨v, -, rfl⟩ := List.mem_map.1 hv
  exact h e ((UMap.mem_iterate m order e).1 he)

end HeaderMap

end LibEvmvc
