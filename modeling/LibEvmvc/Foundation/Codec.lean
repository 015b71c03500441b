import Mathlib.Data.List.Basic

set_option autoImplicit false

/-! # Codes that are read from the front

A codec writes a value as a list and takes it off the front of a list that begins with it, whatever
follows (`dec_enc`); what it takes off is what it would have written (`dec_split`). Values are put one
after another without anything between them: a number of values of one codec (`times`), such a number
with a count in front (`counted`), and values of different codecs in an order that both sides know
(`decSeq`). -/

namespace LibEvmvc

/-- How values are written and read back. Only those that are `Ok` are written in full. -/
structure Codec (α β : Type) where
  enc : α → List β
  dec : List β → Option (α × List β)
  Ok : α → Prop
  dec_enc : ∀ {a : α}, Ok a → ∀ r : List β, dec (enc a ++ r) = some (a, r)
  dec_split : ∀ {l : List β} {a : α} {r : List β}, dec l = some (a, r) → l = enc a ++ r

namespace Codec

variable {α β : Type} (C : Codec α β)

/-- `n` values, one after another. -/
def times : Nat → List β → Option (List α × List β)
  | 0, l => some ([], l)
  | n + 1, l => (C.dec l).bind fun p => (times n p.2).map fun q => (p.1 :: q.1, q.2)

theorem times_succ_some {n : Nat} {l r : List β} {as : List α} :
    C.times (n + 1) l = some (as, r) ↔
      ∃ a m bs, C.dec l = some (a, m) ∧ C.times n m = some (bs, r) ∧ as = a :: bs := by
  rw [times]
  constructor
  · intro h
    obtain ⟨⟨a, m⟩, hdec, h⟩ := Option.bind_eq_some_iff.1 h
    obtain ⟨⟨bs, r'⟩, htimes, h⟩ := Option.map_eq_some_iff.1 h
    obtain ⟨rfl, rfl⟩ := Prod.mk.inj h
    exact ⟨a, m, bs, hdec, htimes, rfl⟩
  · rintro ⟨a, m, bs, hdec, htimes, rfl⟩
    rw [hdec, Option.bind_some, htimes, Option.map_some]

theorem times_enc {as : List α} (h : ∀ a ∈ as, C.Ok a) (r : List β) :
    C.times as.length (as.flatMap C.enc ++ r) = some (as, r) := by
  induction as with
  | nil => rfl
  | cons a as ih =>
    rw [List.forall_mem_cons] at h
    rw [List.flatMap_cons, List.append_assoc, List.length_cons]
    exact (C.times_succ_some).2 ⟨a, _, as, C.dec_enc h.1 _, ih h.2, rfl⟩

theorem times_split {n : Nat} {l r : List β} {as : List α} (h : C.times n l = some (as, r)) :
    as.length = n ∧ l = as.flatMap C.enc ++ r := by
  induction n generalizing l as with
  | zero =>
    obtain ⟨rfl, rfl⟩ := Prod.mk.inj (Option.some.inj h)
    exact ⟨rfl, rfl⟩
  | succ n ih =>
    obtain ⟨a, m, bs, hdec, htimes, rfl⟩ := (C.times_succ_some).1 h
    obtain ⟨hlen, rfl⟩ := ih htimes
    refine ⟨by rw [List.length_cons, hlen], ?_⟩
    rw [C.dec_split hdec, List.flatMap_cons, List.append_assoc]

theorem infix_flatMap {α β : Type} {as : List α} {a : α} (h : a ∈ as) (f : α → List β) :
    f a <:+: as.flatMap f :=
  List.infix_of_mem_flatten (List.mem_map_of_mem h)

theorem length_enc_le {as : List α} {a : α} (h : a ∈ as) :
    (C.enc a).length ≤ (as.flatMap C.enc).length :=
  (infix_flatMap h C.enc).length_le

/-- A list: the number of its values, then the values. -/
def counted (N : Codec Nat β) (C : Codec α β) : Codec (List α) β where
  enc as := N.enc as.length ++ as.flatMap C.enc
  dec l := (N.dec l).bind fun p => C.times p.1 p.2
  Ok as := N.Ok as.length ∧ ∀ a ∈ as, C.Ok a
  dec_enc := by
    intro as h r
    rw [List.append_assoc, N.dec_enc h.1, Option.bind_some, C.times_enc h.2]
  dec_split := by
    intro l as r h
    obtain ⟨⟨n, m⟩, hcount, hitems⟩ := Option.bind_eq_some_iff.1 h
    obtain ⟨rfl, hm⟩ : as.length = n ∧ m = as.flatMap C.enc ++ r := C.times_split hitems
    rw [N.dec_split hcount, hm, List.append_assoc]

theorem counted_some {N : Codec Nat β} {C : Codec α β} {l r : List β} {as : List α} :
    (counted N C).dec l = some (as, r) ↔
      ∃ n m, N.dec l = some (n, m) ∧ C.times n m = some (as, r) := by
  constructor
  · intro h
    obtain ⟨⟨n, m⟩, hcount, hitems⟩ := Option.bind_eq_some_iff.1 h
    exact ⟨n, m, hcount, hitems⟩
  · rintro ⟨n, m, hcount, hitems⟩
    exact Option.bind_eq_some_iff.2 ⟨(n, m), hcount, hitems⟩

/-! ## Values of different kinds -/

variable {K : Type} {V : K → Type} (F : (k : K) → Codec (V k) β)

/-- The values in the order they come. -/
def encSeq (vs : List ((k : K) × V k)) : List β := vs.flatMap fun v => (F v.1).enc v.2

/-- Values of the kinds that are expected. -/
def decSeq : List K → List β → Option (List ((k : K) × V k) × List β)
  | [], l => some ([], l)
  | k :: ks, l => ((F k).dec l).bind fun p => (decSeq ks p.2).map fun q => (⟨k, p.1⟩ :: q.1, q.2)

theorem length_enc_le_encSeq {vs : List ((k : K) × V k)} {v : (k : K) × V k} (h : v ∈ vs) :
    ((F v.1).enc v.2).length ≤ (encSeq F vs).length :=
  (infix_flatMap h fun v => (F v.1).enc v.2).length_le

/-- A sequence is read back by who knows the kinds. -/
theorem decSeq_encSeq {vs : List ((k : K) × V k)} (h : ∀ v ∈ vs, (F v.1).Ok v.2) (r : List β) :
    decSeq F (vs.map Sigma.fst) (encSeq F vs ++ r) = some (vs, r) := by
  induction vs with
  | nil => rfl
  | cons v vs ih =>
    rw [List.forall_mem_cons] at h
    unfold encSeq at ih ⊢
    rw [List.flatMap_cons, List.append_assoc, List.map_cons, decSeq, (F v.1).dec_enc h.1,
      Option.bind_some, ih h.2, Option.map_some]

end Codec

end LibEvmvc
