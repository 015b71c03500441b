import LibEvmvc.Http.Methods

set_option autoImplicit false

/-! # Two ways to look up a method

`parse_method` compares the whole text with the names of its length. `parse_method_reversed` compares
the end of a reversed text, and never asks whether there is more in front. The six letters of `DELETE` it
compares as seven, and `HEAD` it spells `deah`, which is `HAED` backwards. -/

namespace LibEvmvc

/-- `evmvc::parse_method`. -/
def parseMethod (s : Bytes) : Method :=
  if s.length = 3 then
    if lower s = bytes "get" then .get
    else if lower s = bytes "put" then .put
    else .unknown
  else if s.length = 4 then
    if lower s = bytes "head" then .head
    else if lower s = bytes "post" then .post
    else .unknown
  else if s.length = 5 then
    if lower s = bytes "patch" then .patch
    else if lower s = bytes "trace" then .trace
    else .unknown
  else if s.length = 6 then
    if lower s = bytes "delete" then .del else .unknown
  else if s.length = 7 then
    if lower s = bytes "options" then .options
    else if lower s = bytes "connect" then .connect
    else .unknown
  else .unknown

/-- The name of a method in small letters. -/
def Method.word (m : Method) : Bytes := lower m.toBytes

/-- What `parse_method_reversed` takes for the name of a method. -/
def Method.reversedWord : Method → Bytes
  | .head => bytes "haed"
  | .del => 0 :: bytes "delete"
  | m => m.word

theorem length_lower (s : Bytes) : (lower s).length = s.length := List.length_map _

theorem parseMethod_word (s : Bytes) : parseMethod s = .unknown ∨ lower s = (parseMethod s).word := by
  unfold parseMethod
  repeat' split
  all_goals
    first
    | exact .inl rfl
    | next h => exact .inr (h.trans (by decide))

/-- `parse_method` finds the method whose name the text is. -/
theorem parseMethod_eq_iff (s : Bytes) {m : Method} (hm : m ≠ .unknown) :
    parseMethod s = m ↔ lower s = m.word := by
  constructor
  · rintro rfl
    exact (parseMethod_word s).resolve_left hm
  · intro h
    have hlen : s.length = m.word.length := by rw [← h, length_lower]
    unfold parseMethod
    rw [h, hlen]
    revert hm
    cases m <;> decide

/-- A name at the end of the reversed text is at the beginning of the text. -/
theorem endsWithFold_reverse (s name : Bytes) :
    endsWithFold s.reverse name.reverse = true ↔ name <+: lower s := by
  have hdrop : lower (s.reverse.drop (s.length - name.length))
      = ((lower s).take (s.length - (s.length - name.length))).reverse := by
    rw [List.drop_reverse, lower, List.map_reverse, List.map_take, lower]
  unfold endsWithFold
  simp only [List.length_reverse, hdrop, Bool.and_eq_true, decide_eq_true_eq, beq_iff_eq,
    List.reverse_inj]
  constructor
  · rintro ⟨-, h⟩
    rw [← h]
    exact List.take_prefix _ _
  · intro h
    have hle := h.length_le
    rw [length_lower] at hle
    refine ⟨hle, ?_⟩
    rw [Nat.sub_sub_self hle]
    exact (List.prefix_iff_eq_take.1 h).symm

theorem eq_or_of_lowerByte {c d : UInt8} (h : lowerByte c = d) : c = d - 32 ∨ c = d := by
  unfold lowerByte at h
  split at h
  · rw [← h, UInt8.add_sub_cancel]
    exact .inl rfl
  · exact .inr h

/-- The first byte of a text that begins with a word, in either case. -/
theorem head_of_prefix {c d : UInt8} {s name : Bytes} (h : d :: name <+: lower (c :: s)) :
    c = d - 32 ∨ c = d := by
  rw [lower, List.map_cons, List.cons_prefix_cons] at h
  exact eq_or_of_lowerByte h.1.symm

/-- The name of `DELETE` would have to begin with its terminator. -/
theorem not_endsWith_delete {c : UInt8} (s : Bytes) (hc : (c = 68 || c = 100) = true) :
    endsWithFold (c :: s).reverse (bytes "eteled" ++ [0]) = false := by
  rw [Bool.eq_false_iff]
  intro h
  have hprefix := (endsWithFold_reverse (c :: s) (0 :: bytes "delete")).1 h
  simp only [Bool.or_eq_true, decide_eq_true_eq] at hc
  rcases head_of_prefix hprefix with rfl | rfl
  · exact absurd hc (by decide)
  · exact absurd hc (by decide)

/-- What `parse_method_reversed` finds, the text begins with; it never finds `DELETE`. -/
theorem parseMethodReversed_word (s : Bytes) :
    parseMethodReversed s.reverse = .unknown ∨
      (parseMethodReversed s.reverse ≠ .del ∧ (parseMethodReversed s.reverse).reversedWord <+: lower s) := by
  cases s with
  | nil => exact .inl rfl
  | cons c s =>
    have hlast : (c :: s).reverse.getLast? = some c := by simp
    have hword : ∀ m : Method, endsWithFold (c :: s).reverse m.reversedWord.reverse = true →
        m.reversedWord <+: lower (c :: s) := fun m => (endsWithFold_reverse (c :: s) m.reversedWord).1
    unfold parseMethodReversed
    rw [hlast]
    simp only
    split
    · split
      · next h => exact .inr ⟨by decide, hword .get h⟩
      · exact .inl rfl
    · split
      · split
        · next h => exact .inr ⟨by decide, hword .post h⟩
        · split
          · next h => exact .inr ⟨by decide, hword .put h⟩
          · split
            · next h => exact .inr ⟨by decide, hword .patch h⟩
            · exact .inl rfl
      · split
        · split
          · next h => exact .inr ⟨by decide, hword .connect h⟩
          · exact .inl rfl
        · split
          · split
            · next h => exact .inr ⟨by decide, hword .head h⟩
            · exact .inl rfl
          · split
            · next hc =>
              rw [not_endsWith_delete s hc]
              exact .inl rfl
            · split
              · split
                · next h => exact .inr ⟨by decide, hword .trace h⟩
                · exact .inl rfl
              · split
                · split
                  · next h => exact .inr ⟨by decide, hword .options h⟩
                  · exact .inl rfl
                · exact .inl rfl

/-- No name is the beginning of another. -/
theorem Method.reversedWord_free :
    ∀ m n : Method, m.reversedWord <+: n.reversedWord → m = n := by
  intro m n
  cases m <;> cases n <;> decide

/-- `parse_method_reversed` finds every other method whose name the text begins with. -/
theorem parseMethodReversed_of_prefix {s : Bytes} {m : Method} (hm : m ≠ .unknown) (hdel : m ≠ .del)
    (h : m.reversedWord <+: lower s) : parseMethodReversed s.reverse = m := by
  have hfree : ∀ n : Method, n ≠ m → endsWithFold s.reverse n.reversedWord.reverse = false := by
    intro n hn
    rw [Bool.eq_false_iff]
    intro hends
    have hother := (endsWithFold_reverse s n.reversedWord).1 hends
    rcases List.prefix_or_prefix_of_prefix hother h with hp | hp
    · exact hn (n.reversedWord_free m hp)
    · exact hn (m.reversedWord_free n hp).symm
  have hfound := (endsWithFold_reverse s m.reversedWord).2 h
  cases s with
  | nil =>
    have hnil := List.prefix_nil.1 h
    revert hnil
    cases m <;> decide
  | cons c s =>
    have hlast : (c :: s).reverse.getLast? = some c := by simp
    unfold parseMethodReversed
    rw [hlast]
    simp only
    cases m with
    | unknown => exact absurd rfl hm
    | del => exact absurd rfl hdel
    | get => rcases head_of_prefix h with rfl | rfl <;> exact if_pos hfound
    | post => rcases head_of_prefix h with rfl | rfl <;> exact if_pos hfound
    | connect => rcases head_of_prefix h with rfl | rfl <;> exact if_pos hfound
    | head => rcases head_of_prefix h with rfl | rfl <;> exact if_pos hfound
    | trace => rcases head_of_prefix h with rfl | rfl <;> exact if_pos hfound
    | options => rcases head_of_prefix h with rfl | rfl <;> exact if_pos hfound
    | put =>
      have hpost := hfree .post (by decide)
      rcases head_of_prefix h with rfl | rfl
      all_goals exact (if_neg (Bool.eq_false_iff.1 hpost)).trans (if_pos hfound)
    | patch =>
      have hpost := hfree .post (by decide)
      have hput := hfree .put (by decide)
      rcases head_of_prefix h with rfl | rfl
      all_goals
        exact (if_neg (Bool.eq_false_iff.1 hpost)).trans
          ((if_neg (Bool.eq_false_iff.1 hput)).trans (if_pos hfound))

theorem parseMethodReversed_eq_iff (s : Bytes) {m : Method} (hm : m ≠ .unknown) :
    parseMethodReversed s.reverse = m ↔ m ≠ .del ∧ m.reversedWord <+: lower s := by
  constructor
  · rintro rfl
    exact (parseMethodReversed_word s).resolve_left hm
  · rintro ⟨hdel, h⟩
    exact parseMethodReversed_of_prefix hm hdel h

/-- **The two lookups agree exactly if the text is not `DELETE` or `HEAD`, does not begin with `HAED`,
    and is not longer than another name that it begins with**, whatever the case. -/
theorem parseMethodReversed_eq_parseMethod_iff (s : Bytes) :
    parseMethodReversed s.reverse = parseMethod s ↔
      lower s ≠ bytes "delete" ∧ lower s ≠ bytes "head" ∧ ¬ bytes "haed" <+: lower s ∧
        ∀ m : Method, m ≠ .unknown → m ≠ .del → m ≠ .head → m.word <+: lower s → lower s = m.word := by
  have hsame : ∀ m : Method, m ≠ .del → m ≠ .head → m.reversedWord = m.word := by
    intro m hdel hhead
    cases m with
    | del => exact absurd rfl hdel
    | head => exact absurd rfl hhead
    | _ => rfl
  constructor
  · intro heq
    have hiff : ∀ m : Method, m ≠ .unknown →
        (m ≠ .del ∧ m.reversedWord <+: lower s ↔ lower s = m.word) := fun m hm => by
      rw [← parseMethodReversed_eq_iff s hm, ← parseMethod_eq_iff s hm, heq]
    refine ⟨?_, ?_, ?_, ?_⟩
    · intro h
      exact ((hiff .del (by decide)).2 h).1 rfl
    · intro h
      have hprefix := ((hiff .head (by decide)).2 h).2
      rw [h] at hprefix
      revert hprefix
      decide
    · intro h
      have hword : lower s = bytes "head" := (hiff .head (by decide)).1 ⟨by decide, h⟩
      rw [hword] at h
      revert h
      decide
    · intro m hm hdel hhead h
      rw [← hsame m hdel hhead] at h
      exact (hiff m hm).1 ⟨hdel, h⟩
  · rintro ⟨hnodel, hnohead, hnohaed, hnames⟩
    have hiff : ∀ m : Method, m ≠ .unknown →
        (parseMethodReversed s.reverse = m ↔ parseMethod s = m) := by
      intro m hm
      rw [parseMethodReversed_eq_iff s hm, parseMethod_eq_iff s hm]
      cases m with
      | unknown => exact absurd rfl hm
      | del => exact iff_of_false (fun h => h.1 rfl) hnodel
      | head => exact iff_of_false (fun h => hnohaed h.2) hnohead
      | _ =>
        constructor
        · rintro ⟨-, h⟩
          exact hnames _ hm (by decide) (by decide) h
        · intro h
          exact ⟨by decide, by rw [h]; exact List.prefix_rfl⟩
    by_cases hun : parseMethodReversed s.reverse = .unknown
    · rw [hun]
      by_contra hne
      exact hne (((hiff _ (Ne.symm hne)).2 rfl).symm.trans hun).symm
    · exact ((hiff _ hun).1 rfl).symm

/-- `GETX` is taken for `GET`. -/
theorem parseMethodReversed_getx : ¬ ∀ s : Bytes, parseMethodReversed s.reverse = parseMethod s := by
  intro h
  exact absurd (h (bytes "GETX")) (by decide)

end LibEvmvc
