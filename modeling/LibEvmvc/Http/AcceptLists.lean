import LibEvmvc.Http.ContentType
import Mathlib.Order.Defs.Unbundled
import Mathlib.Algebra.Order.Ring.Rat
import Mathlib.Data.List.Perm.Basic
import Mathlib.Tactic.Linarith
import Mathlib.Tactic.NormNum

set_option autoImplicit false

/-! # What a client accepts

`accept_encodings` and `accept_languages` cut a header at its commas, give each element a weight and sort
the elements by it. An element without a weight of its own weighs 100 less its position. The comparison
they sort with is `>=`, which is true of an element and itself, so `std::sort` may do anything. -/

namespace LibEvmvc

/-! ## Sorting -/

section StdSort

variable {α : Type}

/-- The comparison is a strict weak ordering. -/
def StrictWeak (comp : α → α → Bool) : Prop := IsStrictWeakOrder α fun a b => comp a b = true

/-- What `std::sort` may leave of a list, `none` being no list at all. Nothing is known of it unless the
    comparison is a strict weak ordering. -/
inductive StdSort (comp : α → α → Bool) (l : List α) : Option (List α) → Prop
  | sorted {r : List α} (hperm : r.Perm l) (hsorted : r.Pairwise fun a b => comp b a = false) :
      StdSort comp l (some r)
  | undefined (hcomp : ¬ StrictWeak comp) (r : Option (List α)) : StdSort comp l r

theorem not_strictWeak_of_refl {comp : α → α → Bool} {a : α} (h : comp a a = true) : ¬ StrictWeak comp :=
  fun hstrict => hstrict.irrefl a h

end StdSort

/-! ## The elements of the header -/

structure AcceptEncoding where
  type : EncodingType
  weight : ℚ
  deriving DecidableEq

structure AcceptLanguage where
  language : Bytes
  weight : ℚ
  deriving DecidableEq

/-- `md::trim_copy` and `md::str_to_num<float>`. -/
structure AcceptEnv where
  trim : Bytes → Bytes
  strToNum : Bytes → ℚ

/-- The loop that cuts a value at the commas, with the element it is in. Empty elements are dropped. -/
def acceptElesLoop : Bytes → Bytes → List Bytes
  | tele, [] => if tele = [] then [] else [tele]
  | tele, c :: rest =>
    if c = 44 then
      if tele = [] then acceptElesLoop [] rest else tele :: acceptElesLoop [] rest
    else acceptElesLoop (tele ++ [c]) rest

def acceptEles (v : Bytes) : List Bytes := acceptElesLoop [] v

/-- The name of an element and its weight, which depends on its position if it has none. -/
def acceptEle (env : AcceptEnv) (ele : Bytes) (i : Nat) : Bytes × ℚ :=
  match ele.idxOf? 59 with
  | none => (env.trim ele, 100 - i)
  | some qloc =>
    let encQ := env.trim (ele.drop (qloc + 1))
    (env.trim (ele.take qloc),
      match encQ.idxOf? 61 with
      | none => 100 - i
      | some qvalloc => env.strToNum (encQ.drop (qvalloc + 1)))

def encodingType (encName : Bytes) : EncodingType :=
  if encName = bytes "gzip" then .gzip
  else if encName = bytes "deflate" then .deflate
  else if encName = bytes "*" then .star
  else .unsupported

/-- The list `accept_encodings` sorts. -/
def encodingList (env : AcceptEnv) (v : Bytes) : List AcceptEncoding :=
  (acceptEles v).zipIdx.map fun (ele, i) =>
    let (encName, q) := acceptEle env ele i
    ⟨encodingType encName, q⟩

/-- The list `accept_languages` sorts. -/
def languageList (env : AcceptEnv) (v : Bytes) : List AcceptLanguage :=
  (acceptEles v).zipIdx.map fun (ele, i) =>
    let (lngName, q) := acceptEle env ele i
    ⟨lngName, q⟩

/-- The comparison of `accept_encodings`. -/
def heavierEncoding (a b : AcceptEncoding) : Bool := b.weight ≤ a.weight

/-- The comparison of `accept_languages`. -/
def heavierLanguage (a b : AcceptLanguage) : Bool := b.weight ≤ a.weight

/-- `header_t::accept_encodings`: what it may return. -/
def AcceptEncodings (env : AcceptEnv) (v : Bytes) : Option (List AcceptEncoding) → Prop :=
  StdSort heavierEncoding (encodingList env v)

/-- `header_t::accept_languages`: what it may return. -/
def AcceptLanguages (env : AcceptEnv) (v : Bytes) : Option (List AcceptLanguage) → Prop :=
  StdSort heavierLanguage (languageList env v)

/-! ## The order of the elements -/

/-- An element of a header with the blanks before it, and the text of its weight. -/
structure AcceptElem where
  blanks : Bytes
  name : Bytes
  weight : Option Bytes
  blanks_space : ∀ c ∈ blanks, isspace c = true
  name_ne : name ≠ []
  name_plain : ∀ c ∈ name, isspace c = false ∧ c ≠ 44 ∧ c ≠ 59
  weight_plain : ∀ w ∈ weight, ∀ c ∈ w, isspace c = false ∧ c ≠ 44 ∧ c ≠ 59

namespace AcceptElem

/-- The element as it stands between the commas. -/
def text (el : AcceptElem) : Bytes := el.blanks ++ (el.name ++ (el.weight.map (bytes ";q=" ++ ·)).getD [])

/-- The weight an element is given at a position. -/
def weightAt (env : AcceptEnv) (el : AcceptElem) (i : Nat) : ℚ := (el.weight.map env.strToNum).getD (100 - i)

/-- The weight an element has: a missing one is 1. -/
def effectiveWeight (env : AcceptEnv) (el : AcceptElem) : ℚ := (el.weight.map env.strToNum).getD 1

/-- What `accept_encodings` makes of an element at a position. -/
def encoding (env : AcceptEnv) (x : AcceptElem × Nat) : AcceptEncoding :=
  ⟨encodingType x.1.name, x.1.weightAt env x.2⟩

/-- What `accept_languages` makes of it. -/
def lang (env : AcceptEnv) (x : AcceptElem × Nat) : AcceptLanguage := ⟨x.1.name, x.1.weightAt env x.2⟩

end AcceptElem

/-- The value of a header. -/
def acceptHeader (els : List AcceptElem) : Bytes := [44].intercalate (els.map AcceptElem.text)

/-- The elements by their weights, those of one weight in the order of the header. -/
def ranked (env : AcceptEnv) (els : List AcceptElem) : List AcceptElem :=
  els.mergeSort fun a b => b.effectiveWeight env ≤ a.effectiveWeight env

/-- `accept_encodings` compares as it has to, and returns the encodings in the order of their weights. -/
def RanksEncodings (env : AcceptEnv) (els : List AcceptElem) : Prop :=
  StrictWeak heavierEncoding ∧
    ∀ r, AcceptEncodings env (acceptHeader els) r → ∃ encs, r = some encs ∧
      encs.map AcceptEncoding.type = (ranked env els).map fun el => encodingType el.name

/-- `accept_languages` compares as it has to, and returns the languages in the order of their weights. -/
def RanksLanguages (env : AcceptEnv) (els : List AcceptElem) : Prop :=
  StrictWeak heavierLanguage ∧
    ∀ r, AcceptLanguages env (acceptHeader els) r → ∃ lngs, r = some lngs ∧
      lngs.map AcceptLanguage.language = (ranked env els).map AcceptElem.name

section Elements

variable {env : AcceptEnv}

theorem acceptElesLoop_append (tele : Bytes) {ele : Bytes} (h : 44 ∉ ele) (rest : Bytes) :
    acceptElesLoop tele (ele ++ rest) = acceptElesLoop (tele ++ ele) rest := by
  induction ele generalizing tele with
  | nil => rw [List.nil_append, List.append_nil]
  | cons c ele ih =>
    rw [List.mem_cons, not_or] at h
    rw [List.cons_append, acceptElesLoop, if_neg (Ne.symm h.1), ih _ h.2, List.append_assoc]
    rfl

/-- The elements are cut out at the commas. -/
theorem acceptEles_intercalate {eles : List Bytes} (h : ∀ ele ∈ eles, ele ≠ [] ∧ 44 ∉ ele) :
    acceptEles ([44].intercalate eles) = eles := by
  unfold acceptEles
  induction eles with
  | nil => rfl
  | cons ele eles ih =>
    obtain ⟨hne, hcomma⟩ := h ele List.mem_cons_self
    have htail := ih fun ele' hele => h ele' (List.mem_cons_of_mem _ hele)
    cases eles with
    | nil =>
      have hlast := acceptElesLoop_append [] hcomma []
      rw [List.append_nil, List.nil_append] at hlast
      rw [List.intercalate_singleton, hlast, acceptElesLoop, if_neg hne]
    | cons ele' eles =>
      rw [List.intercalate_cons_cons, List.append_assoc, acceptElesLoop_append _ hcomma, List.nil_append,
        List.singleton_append, acceptElesLoop, if_pos rfl, if_neg hne, htail]

theorem idxOf?_append_cons {s : Bytes} {c : UInt8} (h : c ∉ s) (rest : Bytes) :
    (s ++ c :: rest).idxOf? c = some s.length := by
  induction s with
  | nil => rw [List.nil_append, List.idxOf?_cons, if_pos (beq_self_eq_true c), List.length_nil]
  | cons d s ih =>
    rw [List.mem_cons, not_or] at h
    have hne : ¬ (d == c) = true := fun heq => h.1 (eq_of_beq heq).symm
    rw [List.cons_append, List.idxOf?_cons, if_neg hne, ih h.2]
    rfl

namespace AcceptElem

theorem text_ne (el : AcceptElem) : el.text ≠ [] := by
  simp [text, el.name_ne]

theorem not_mem_front (el : AcceptElem) {c : UInt8} (hc : c = 44 ∨ c = 59) : c ∉ el.blanks ++ el.name := by
  rw [List.mem_append, not_or]
  constructor
  · intro hmem
    have hspace := el.blanks_space c hmem
    rcases hc with rfl | rfl
    · exact absurd hspace (by decide)
    · exact absurd hspace (by decide)
  · intro hmem
    rcases hc with rfl | rfl
    · exact (el.name_plain _ hmem).2.1 rfl
    · exact (el.name_plain _ hmem).2.2 rfl

theorem text_none {el : AcceptElem} (h : el.weight = none) : el.text = el.blanks ++ el.name := by
  simp [text, h]

theorem text_some {el : AcceptElem} {w : Bytes} (h : el.weight = some w) :
    el.text = el.blanks ++ el.name ++ 59 :: (113 :: 61 :: w) := by
  have hq : bytes ";q=" = [59, 113, 61] := by decide
  simp [text, h, hq]

theorem not_comma_text (el : AcceptElem) : 44 ∉ el.text := by
  have hfront := el.not_mem_front (.inl rfl)
  cases hw : el.weight with
  | none =>
    rw [text_none hw]
    exact hfront
  | some w =>
    rw [text_some hw, List.mem_append, not_or]
    refine ⟨hfront, ?_⟩
    simp only [List.mem_cons, not_or]
    exact ⟨by decide, by decide, by decide, fun hmem => (el.weight_plain w hw _ hmem).2.1 rfl⟩

end AcceptElem

/-- `md::trim_copy` takes away the blanks in front of a word, and nothing of the word. -/
def AcceptEnv.TrimsWords (env : AcceptEnv) : Prop :=
  ∀ l m : Bytes, (∀ c ∈ l, isspace c = true) → (∀ c ∈ m, isspace c = false) → env.trim (l ++ m) = m

/-- The name of an element is what stands in front of the `;`, and its weight is its own or that of its
    position. -/
theorem acceptEle_text (htrim : env.TrimsWords) (el : AcceptElem) (i : Nat) :
    acceptEle env el.text i = (el.name, el.weightAt env i) := by
  have hname : env.trim (el.blanks ++ el.name) = el.name :=
    htrim _ _ el.blanks_space fun c hc => (el.name_plain c hc).1
  have hfront := el.not_mem_front (.inr rfl)
  unfold acceptEle AcceptElem.weightAt
  cases hw : el.weight with
  | none =>
    rw [AcceptElem.text_none hw, List.idxOf?_eq_none_iff.2 hfront]
    exact congrArg (·, (100 : ℚ) - i) hname
  | some w =>
    have hw' : ∀ c ∈ (113 :: 61 :: w : Bytes), isspace c = false := by
      intro c hc
      rcases List.mem_cons.1 hc with rfl | hc
      · decide
      · rcases List.mem_cons.1 hc with rfl | hc
        · decide
        · exact (el.weight_plain w hw c hc).1
    have hq : env.trim (113 :: 61 :: w) = 113 :: 61 :: w := htrim [] _ (by simp) hw'
    have hval : (113 :: 61 :: w : Bytes).idxOf? 61 = some 1 := @idxOf?_append_cons [113] 61 (by decide) w
    have hdrop : (el.blanks ++ el.name ++ 59 :: (113 :: 61 :: w)).drop ((el.blanks ++ el.name).length + 1)
        = 113 :: 61 :: w := by
      rw [List.drop_add_one_eq_tail_drop, List.drop_left, List.tail_cons]
    rw [AcceptElem.text_some hw, idxOf?_append_cons hfront]
    simp only [List.take_left, hname, hdrop, hq, hval]
    rfl

theorem acceptEles_header (els : List AcceptElem) :
    acceptEles (acceptHeader els) = els.map AcceptElem.text := by
  refine acceptEles_intercalate fun ele hele => ?_
  obtain ⟨el, -, rfl⟩ := List.mem_map.1 hele
  exact ⟨el.text_ne, el.not_comma_text⟩

/-- The elements of the header in its order, each with its weight. -/
theorem acceptEles_map {β : Type} (htrim : env.TrimsWords) (els : List AcceptElem) (f : Bytes × ℚ → β) :
    (acceptEles (acceptHeader els)).zipIdx.map (fun x => f (acceptEle env x.1 x.2))
      = els.zipIdx.map fun x => f (x.1.name, x.1.weightAt env x.2) := by
  rw [acceptEles_header, List.zipIdx_map, List.map_map]
  refine List.map_congr_left fun x _ => ?_
  simp only [Function.comp_apply, Prod.map_fst, Prod.map_snd, id_eq, acceptEle_text htrim]

/-- The encodings of the header, each with its weight, are what `accept_encodings` sorts. -/
theorem encodingList_header (htrim : env.TrimsWords) (els : List AcceptElem) :
    encodingList env (acceptHeader els) = els.zipIdx.map (AcceptElem.encoding env) :=
  acceptEles_map htrim els fun x => AcceptEncoding.mk (encodingType x.1) x.2

/-- The languages of the header, each with its weight, are what `accept_languages` sorts. -/
theorem languageList_header (htrim : env.TrimsWords) (els : List AcceptElem) :
    languageList env (acceptHeader els) = els.zipIdx.map (AcceptElem.lang env) :=
  acceptEles_map htrim els fun x => AcceptLanguage.mk x.1 x.2

/-! ## Elements without a weight -/

/-- The elements of a header stand behind each other by weight, those that have no weight of their own
    first. -/
def WeightlessFirst (els : List AcceptElem) (order : List (AcceptElem × Nat)) : Prop :=
  order.Perm els.zipIdx ∧ order.Pairwise fun a b => b.1.weight = none → a.1.weight = none

/-- The position weighs more than the weight another element may have. -/
theorem weightAt_lt {el el' : AcceptElem} {w : Bytes} {i j : Nat} (hnone : el.weight = none)
    (hsome : el'.weight = some w) (hle : env.strToNum w ≤ 1) (hi : i < 99) :
    el'.weightAt env j < el.weightAt env i := by
  have hpos : (i : ℚ) < 99 := by exact_mod_cast hi
  simp only [AcceptElem.weightAt, hnone, hsome, Option.map_none, Option.map_some, Option.getD_none,
    Option.getD_some]
  linarith

/-- Whatever is made of the elements, in the order of the weights they are given those without one of
    their own are the first. -/
theorem weightlessFirst_of_sorted {β : Type} {f : AcceptElem × Nat → β} (weight : β → ℚ)
    (hweight : ∀ x, weight (f x) = x.1.weightAt env x.2) {els : List AcceptElem} (hfew : els.length < 100)
    (hle : ∀ el ∈ els, ∀ w ∈ el.weight, env.strToNum w ≤ 1) {r : List β}
    (hperm : r.Perm (els.zipIdx.map f)) (hsorted : r.Pairwise fun a b => weight b ≤ weight a) :
    ∃ order, r = order.map f ∧ WeightlessFirst els order := by
  have hsplit : Relation.Comp (· = List.map f ·) List.Perm r els.zipIdx := by
    rw [List.eq_map_comp_perm]
    exact hperm
  obtain ⟨order, rfl, horder⟩ := hsplit
  refine ⟨order, rfl, horder, ?_⟩
  rw [List.pairwise_map] at hsorted
  refine hsorted.imp_of_mem fun {a b} ha hb hab hnone => ?_
  rw [hweight, hweight] at hab
  have hposb := List.snd_lt_of_mem_zipIdx (horder.mem_iff.1 hb)
  have hmema := List.fst_mem_of_mem_zipIdx (horder.mem_iff.1 ha)
  cases hsome : a.1.weight with
  | none => rfl
  | some w =>
    have hlt := weightAt_lt (j := a.2) hnone hsome (hle _ hmema w hsome) (by omega : b.2 < 99)
    exact absurd hab (not_le.2 hlt)

/-- **Encodings in the order of the weights `accept_encodings` gives them begin with those that have none
    of their own**, also in front of one with the weight 1. -/
theorem encodings_weightless_first (htrim : env.TrimsWords) {els : List AcceptElem}
    (hfew : els.length < 100) (hle : ∀ el ∈ els, ∀ w ∈ el.weight, env.strToNum w ≤ 1)
    {encs : List AcceptEncoding} (hperm : encs.Perm (encodingList env (acceptHeader els)))
    (hsorted : encs.Pairwise fun a b => heavierEncoding a b = true) :
    ∃ order, encs = order.map (AcceptElem.encoding env) ∧ WeightlessFirst els order := by
  rw [encodingList_header htrim] at hperm
  exact weightlessFirst_of_sorted AcceptEncoding.weight (fun _ => rfl) hfew hle hperm
    (hsorted.imp of_decide_eq_true)

/-- So do the languages. -/
theorem languages_weightless_first (htrim : env.TrimsWords) {els : List AcceptElem}
    (hfew : els.length < 100) (hle : ∀ el ∈ els, ∀ w ∈ el.weight, env.strToNum w ≤ 1)
    {lngs : List AcceptLanguage} (hperm : lngs.Perm (languageList env (acceptHeader els)))
    (hsorted : lngs.Pairwise fun a b => heavierLanguage a b = true) :
    ∃ order, lngs = order.map (AcceptElem.lang env) ∧ WeightlessFirst els order := by
  rw [languageList_header htrim] at hperm
  exact weightlessFirst_of_sorted AcceptLanguage.weight (fun _ => rfl) hfew hle hperm
    (hsorted.imp of_decide_eq_true)

end Elements

/-! ## The sort -/

theorem not_strictWeak_encoding : ¬ StrictWeak heavierEncoding :=
  @not_strictWeak_of_refl _ _ ⟨.star, 0⟩ (decide_eq_true le_rfl)

theorem not_strictWeak_language : ¬ StrictWeak heavierLanguage :=
  @not_strictWeak_of_refl _ _ ⟨[], 0⟩ (decide_eq_true le_rfl)

/-- **For no header the elements are sorted with a comparison `std::sort` is defined for, so in no case it
is said what is returned.** -/
theorem accept_unordered (env : AcceptEnv) (els : List AcceptElem) :
    (¬ RanksEncodings env els ∧ ∀ r, AcceptEncodings env (acceptHeader els) r) ∧
      ¬ RanksLanguages env els ∧ ∀ r, AcceptLanguages env (acceptHeader els) r :=
  ⟨⟨fun h => not_strictWeak_encoding h.1, .undefined not_strictWeak_encoding⟩,
    fun h => not_strictWeak_language h.1, .undefined not_strictWeak_language⟩

theorem gzip_plain : ∀ c ∈ bytes "gzip", isspace c = false ∧ c ≠ 44 ∧ c ≠ 59 :=
  forall_mem_of_all (by decide)

theorem deflate_plain : ∀ c ∈ bytes "deflate", isspace c = false ∧ c ≠ 44 ∧ c ≠ 59 :=
  forall_mem_of_all (by decide)

theorem half_plain : ∀ w ∈ some (bytes "0.5"), ∀ c ∈ w, isspace c = false ∧ c ≠ 44 ∧ c ≠ 59 := by
  intro w hw
  cases hw
  exact forall_mem_of_all (by decide)

theorem gzip_ne : bytes "gzip" ≠ [] := by decide

theorem deflate_ne : bytes "deflate" ≠ [] := by decide

theorem noBlank_space : ∀ c ∈ ([] : Bytes), isspace c = true := fun _ hc => absurd hc List.not_mem_nil

theorem oneBlank_space : ∀ c ∈ ([32] : Bytes), isspace c = true := forall_mem_of_all (by decide)

/-- `gzip;q=0.5, deflate;q=0.5` -/
def equalWeights : List AcceptElem :=
  [⟨[], bytes "gzip", some (bytes "0.5"), noBlank_space, gzip_ne, gzip_plain, half_plain⟩,
    ⟨[32], bytes "deflate", some (bytes "0.5"), oneBlank_space, deflate_ne, deflate_plain, half_plain⟩]

/-- An environment that reads the weight of the sample. -/
def halfEnv : AcceptEnv := ⟨strip, fun w => if w = bytes "0.5" then 1 / 2 else 0⟩

/-- Each of two elements with one weight is to come before the other one. -/
theorem accept_equal_undefined :
    acceptHeader equalWeights = bytes "gzip;q=0.5, deflate;q=0.5" ∧
      heavierEncoding ⟨.gzip, 1 / 2⟩ ⟨.deflate, 1 / 2⟩ = true ∧
      heavierEncoding ⟨.deflate, 1 / 2⟩ ⟨.gzip, 1 / 2⟩ = true ∧
      ¬ ∀ (env : AcceptEnv) (els : List AcceptElem),
        (∀ el ∈ els, ∀ w ∈ el.weight, 0 ≤ env.strToNum w ∧ env.strToNum w ≤ 1) →
          RanksEncodings env els ∧ RanksLanguages env els := by
  have hboth : heavierEncoding ⟨.gzip, 1 / 2⟩ ⟨.deflate, 1 / 2⟩ = true ∧
      heavierEncoding ⟨.deflate, 1 / 2⟩ ⟨.gzip, 1 / 2⟩ = true :=
    ⟨decide_eq_true le_rfl, decide_eq_true le_rfl⟩
  refine ⟨by decide, hboth.1, hboth.2, fun hall => ?_⟩
  have hweights : ∀ el ∈ equalWeights, ∀ w ∈ el.weight,
      0 ≤ halfEnv.strToNum w ∧ halfEnv.strToNum w ≤ 1 := by
    intro el _ w _
    simp only [halfEnv]
    split <;> norm_num
  have hranks := hall halfEnv equalWeights hweights
  exact hranks.1.1.irrefl _ (hranks.1.1.trans _ _ _ hboth.1 hboth.2)

end LibEvmvc
