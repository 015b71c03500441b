import LibEvmvc.Fanjet.TokenCuts
import LibEvmvc.Fanjet.Lossless
import Mathlib.Logic.Relation

set_option autoImplicit false

/-! # The longest entry at each place

Read from its beginning, a template has at each place the longest entry that stands there, or a character of
the text between two entries. `is_token` refuses an entry that reaches the end of the template, and does not
look at the character in front of one. So the tokens are those of this reading exactly if no word of the table
is the end of another word, and the template does not end with an entry (`longest_entries_iff`). -/

namespace LibEvmvc

namespace Fanjet

/-! ## Entries that stand at a place -/

/-- An entry stands between what is in front of it and the rest of the template: it is not the beginning of a
longer word, and not the end of one if it is a word itself, and `*@` is not in front of another `@`. -/
structure Stands (before rest e : Bytes) : Prop where
  mem : e ∈ sTokens
  begins : e <+: rest
  word_ends : e.getLast?.any isAlphanum = true → rest[e.length]?.any isAlphanum = false
  word_begins : e.all isAlphanum = true → before.getLast?.any isAlphanum = false
  star : e = bytes "*@" → ¬ bytes "*@@" <+: rest

/-- The longest entry at a place. -/
def Longest (before rest e : Bytes) : Prop :=
  Stands before rest e ∧ ∀ e', Stands before rest e' → e'.length ≤ e.length

/-- No entry stands there. -/
def NoneStands (before rest : Bytes) : Prop := ∀ e, ¬ Stands before rest e

/-- A token between what is in front of it and behind it: it is the longest entry there, or no entry stands in
it; and a word of the table is not the end of another word. -/
structure Token.Munched (before behind : Bytes) (t : Token) : Prop where
  cut : Longest before (t.text ++ behind) t.text ∨
    ∀ x y, t.text = x ++ y → y ≠ [] → NoneStands (before ++ x) (y ++ behind)
  word : t.text ∈ sTokens → t.text.all isAlphanum = true → before.getLast?.any isAlphanum = false

/-- Each of the tokens is cut so. -/
def Munched : Bytes → List Token → Prop
  | _, [] => True
  | before, t :: ts => t.Munched before (listText ts) ∧ Munched (before ++ t.text) ts

/-! ## Reading from place to place -/

/-- A place of the template, with the text since the last entry in front of it. -/
structure TextPlace where
  before : Bytes
  pending : Bytes
  rest : Bytes

/-- Behind the longest entry, or behind a character where none stands. -/
inductive TextPlace.Next : TextPlace → TextPlace → Prop
  | entry {before pending e r : Bytes} (h : Longest before (e ++ r) e) :
      Next ⟨before, pending, e ++ r⟩ ⟨before ++ e, [], r⟩
  | char {before pending r : Bytes} {c : UInt8} (h : NoneStands before (c :: r)) :
      Next ⟨before, pending, c :: r⟩ ⟨before ++ [c], pending ++ [c], r⟩

/-- Nothing is missed at the place: a word that is the end of another one is not found, or a longer entry is;
an entry that ends the template has no text in front of it, and nothing is found in it; and what is left is
not `*@@`. -/
structure TextPlace.Safe (p : TextPlace) : Prop where
  word : ∀ e ∈ sTokens, isToken e p.rest = true → e.all isAlphanum = true →
    p.before.getLast?.any isAlphanum = true → ∃ e' ∈ sTokens, isToken e' p.rest = true ∧ e.length < e'.length
  last : Stands p.before p.rest p.rest →
    p.pending = [] ∧ ∀ e ∈ sTokens, ∀ y, y <:+ p.rest → isToken e y = false
  star : p.rest ≠ bytes "*@@"

/-- So it is at all places that are read from `p` on. -/
def SafeFrom (p : TextPlace) : Prop := ∀ q, Relation.ReflTransGen TextPlace.Next p q → q.Safe

section Places

variable {before pending rest r e f : Bytes} {c : UInt8} {p q : TextPlace}

theorem nil_notMem_sTokens : [] ∉ sTokens := by
  rw [sTokens_ascii]
  decide +kernel

theorem star_mem_sTokens : bytes "*" ∈ sTokens ∧ bytes "*@" ∈ sTokens := by
  constructor
  · exact List.mem_map_of_mem (by decide)
  · exact List.mem_map_of_mem (by decide)

theorem Stands.ne_nil (h : Stands before rest e) : e ≠ [] := by
  rintro rfl
  exact nil_notMem_sTokens h.mem

theorem isToken_iff : isToken e rest = true ↔ e.length < rest.length ∧ e <+: rest ∧
    (e.getLast?.any isAlphanum = true → rest[e.length]?.any isAlphanum = false) ∧
      (e = bytes "*@" → 3 < rest.length → ¬ bytes "*@@" <+: rest) := by
  have hstar : (!(e = bytes "*@" && 3 < rest.length && (bytes "*@@").isPrefixOf rest)) = true ↔
      (e = bytes "*@" → 3 < rest.length → ¬ bytes "*@@" <+: rest) := by
    rw [← List.isPrefixOf_iff_prefix, Bool.not_eq_true', Bool.and_eq_false_iff, Bool.and_eq_false_iff,
      Bool.not_eq_true, decide_eq_false_iff_not, decide_eq_false_iff_not]
    tauto
  have hword : (!(e.getLast?.any isAlphanum) || !(rest[e.length]?.any isAlphanum)) = true ↔
      (e.getLast?.any isAlphanum = true → rest[e.length]?.any isAlphanum = false) := by
    cases e.getLast?.any isAlphanum <;> simp
  unfold isToken
  rw [Bool.and_eq_true, Bool.and_eq_true, Bool.and_eq_true, hstar, hword, decide_eq_true_eq,
    List.isPrefixOf_iff_prefix, and_assoc, and_assoc]

/-- Two entries of one length. -/
theorem eq_of_begins (h : e <+: rest) (h' : f <+: rest) (hlen : e.length = f.length) : e = f :=
  (List.prefix_of_prefix_length_le h h' (Nat.le_of_eq hlen)).eq_of_length hlen

/-- An entry that does not reach the end is found. -/
theorem Stands.isToken (h : Stands before rest e) (hne : e ≠ rest) : isToken e rest = true := by
  refine isToken_iff.2 ⟨?_, h.begins, h.word_ends, fun heq _ => h.star heq⟩
  exact Nat.lt_of_le_of_ne h.begins.length_le fun hlen => hne (h.begins.eq_of_length hlen)

/-- What is found stands there, but for a word behind an identifier character and for `*@@` at the end. -/
theorem stands_of_isToken (hmem : e ∈ sTokens) (htok : isToken e rest = true)
    (hword : e.all isAlphanum = true → before.getLast?.any isAlphanum = false)
    (hstar : rest ≠ bytes "*@@") : Stands before rest e := by
  obtain ⟨hlt, hbegins, hends, hstar'⟩ := isToken_iff.1 htok
  refine ⟨hmem, hbegins, hends, hword, fun heq hstarts => hstar' heq ?_ hstarts⟩
  have hlen : (bytes "*@@").length = 3 := by decide
  refine Nat.lt_of_le_of_ne (hlen ▸ hstarts.length_le) fun hthree => ?_
  exact hstar (hstarts.eq_of_length (hlen.trans hthree)).symm

/-- `*` stands in front of `@@`. -/
theorem star_stands : Stands before (bytes "*@@") (bytes "*") := by
  refine ⟨star_mem_sTokens.1, ?_, ?_, ?_, ?_⟩
  · decide
  · exact fun h => absurd h (by decide)
  · exact fun h => absurd h (by decide)
  · exact fun h => absurd h (by decide)

theorem find_isSome (hmem : e ∈ sTokens) (htok : isToken e rest = true) :
    ∃ f, findToken sTokens rest = some f ∧ e.length ≤ f.length :=
  findToken_longest hmem (fun hnil => nil_notMem_sTokens (hnil ▸ hmem)) htok

/-- A word that is found, and is not the end of another one. -/
theorem TextPlace.Safe.find_word (h : p.Safe) (hfind : findToken sTokens p.rest = some f)
    (hall : f.all isAlphanum = true) : p.before.getLast?.any isAlphanum = false := by
  by_contra hbefore
  obtain ⟨e, hmem, htok, hlonger⟩ :=
    h.word f (findToken_mem hfind) (findToken_some hfind).2 hall (Bool.ne_false_iff.1 hbefore)
  obtain ⟨f', hfind', hle⟩ := find_isSome hmem htok
  obtain rfl : f = f' := Option.some.inj (hfind.symm.trans hfind')
  exact Nat.not_lt.2 hle hlonger

/-- What is found is the longest entry that stands there. -/
theorem TextPlace.Safe.find_longest (h : p.Safe) (hfind : findToken sTokens p.rest = some f) :
    Longest p.before p.rest f := by
  have hmem := findToken_mem hfind
  have htok := (findToken_some hfind).2
  refine ⟨stands_of_isToken hmem htok (h.find_word hfind) h.star, fun e he => ?_⟩
  by_cases hrest : e = p.rest
  · have hnone := (h.last (hrest ▸ he)).2 f hmem p.rest (List.suffix_refl _)
    cases hnone.symm.trans htok
  · obtain ⟨f', hfind', hle⟩ := find_isSome he.mem (he.isToken hrest)
    obtain rfl : f = f' := Option.some.inj (hfind.symm.trans hfind')
    exact hle

/-- Where nothing is found, an entry that stands there is all that is left. -/
theorem Stands.eq_rest (h : Stands before rest e) (hfind : findToken sTokens rest = none) : e = rest := by
  by_contra hne
  obtain ⟨f, hfind', -⟩ := find_isSome h.mem (h.isToken hne)
  cases hfind.symm.trans hfind'

theorem isToken_eq_false (hfind : findToken sTokens rest = none) (hmem : e ∈ sTokens) :
    isToken e rest = false := by
  by_contra htok
  obtain ⟨f, hfind', -⟩ := find_isSome hmem (Bool.ne_false_iff.1 htok)
  cases hfind.symm.trans hfind'

/-! ## The next place -/

theorem Longest.unique (h : Longest before rest e) (h' : Longest before rest f) : e = f := by
  exact eq_of_begins h.1.begins h'.1.begins (Nat.le_antisymm (h'.2 e h.1) (h.2 f h'.1))

theorem TextPlace.Next.of_entry (h : Longest before (e ++ r) e)
    (hnext : TextPlace.Next ⟨before, pending, e ++ r⟩ q) : q = ⟨before ++ e, [], r⟩ := by
  generalize hp : (⟨before, pending, e ++ r⟩ : TextPlace) = p at hnext
  cases hnext with
  | @entry before' pending' f r' h' =>
    obtain ⟨rfl, rfl, hrest⟩ := TextPlace.mk.inj hp
    obtain rfl : e = f := h.unique (hrest ▸ h')
    rw [List.append_cancel_left hrest]
  | char hnone =>
    obtain ⟨rfl, rfl, hrest⟩ := TextPlace.mk.inj hp
    exact absurd (hrest ▸ h.1) (hnone e)

theorem TextPlace.Next.of_char (h : NoneStands before (c :: r))
    (hnext : TextPlace.Next ⟨before, pending, c :: r⟩ q) : q = ⟨before ++ [c], pending ++ [c], r⟩ := by
  generalize hp : (⟨before, pending, c :: r⟩ : TextPlace) = p at hnext
  cases hnext with
  | entry hlongest =>
    obtain ⟨rfl, rfl, hrest⟩ := TextPlace.mk.inj hp
    exact absurd (hrest ▸ hlongest.1) (h _)
  | char _ =>
    obtain ⟨rfl, rfl, hrest⟩ := TextPlace.mk.inj hp
    obtain ⟨rfl, rfl⟩ := List.cons.inj hrest
    rfl

theorem safeFrom_iff : SafeFrom p ↔ p.Safe ∧ ∀ q, p.Next q → SafeFrom q := by
  constructor
  · intro h
    exact ⟨h p .refl, fun q hq q' hq' => h q' (hq'.head hq)⟩
  · rintro ⟨hsafe, hnext⟩ q hq
    rcases hq.cases_head with rfl | ⟨p', hp', hq⟩
    · exact hsafe
    · exact hnext p' hp' q hq

/-- At the end nothing is missed. -/
theorem safeFrom_end : SafeFrom ⟨before, pending, []⟩ := by
  have hstar : ([] : Bytes) ≠ bytes "*@@" := by decide
  refine safeFrom_iff.2 ⟨⟨fun e _ htok => ?_, fun hstands => ?_, hstar⟩, fun q hq => ?_⟩
  · exact absurd (isToken_shorter htok) (Nat.not_lt_zero _)
  · exact absurd rfl hstands.ne_nil
  · generalize hp : (⟨before, pending, []⟩ : TextPlace) = p at hq
    cases hq with
    | entry hlongest =>
      obtain ⟨rfl, rfl, hrest⟩ := TextPlace.mk.inj hp
      exact absurd (List.append_eq_nil_iff.1 hrest.symm).1 hlongest.1.ne_nil
    | char _ => cases (TextPlace.mk.inj hp).2.2

theorem safeFrom_entry (h : Longest before (e ++ r) e) :
    SafeFrom ⟨before, pending, e ++ r⟩ ↔
      TextPlace.Safe ⟨before, pending, e ++ r⟩ ∧ SafeFrom ⟨before ++ e, [], r⟩ := by
  refine safeFrom_iff.trans (and_congr_right fun _ => ⟨fun hall => hall _ (.entry h), fun hnext q hq => ?_⟩)
  rw [hq.of_entry h]
  exact hnext

theorem safeFrom_char (h : NoneStands before (c :: r)) : SafeFrom ⟨before, pending, c :: r⟩ ↔
    TextPlace.Safe ⟨before, pending, c :: r⟩ ∧ SafeFrom ⟨before ++ [c], pending ++ [c], r⟩ := by
  refine safeFrom_iff.trans (and_congr_right fun _ => ⟨fun hall => hall _ (.char h), fun hnext q hq => ?_⟩)
  rw [hq.of_char h]
  exact hnext

end Places

/-! ## The loop -/

/-- Between `prior` and `rest` there is text in which no entry stands; if it begins with a word, this is not
the end of another one. -/
structure PendingAt (prior pending rest : Bytes) : Prop where
  none_stands : ∀ x y, pending = x ++ y → y ≠ [] → NoneStands (prior ++ x) (y ++ rest)
  word_begins : (pending ++ rest).head?.any isAlphanum = true → prior.getLast?.any isAlphanum = false

section Loop

variable {prior pending rest r f : Bytes} {c : UInt8} {s : Lexer} {ts : List Token}

theorem PendingAt.char (h : PendingAt prior pending (c :: r))
    (hnone : NoneStands (prior ++ pending) (c :: r)) : PendingAt prior (pending ++ [c]) r := by
  refine ⟨fun x y hxy hy => ?_, ?_⟩
  · obtain ⟨y, rfl, hbefore⟩ := concat_eq_append hxy hy
    rw [List.append_assoc, List.singleton_append]
    by_cases hnil : y = []
    · rw [hnil, List.append_nil] at hbefore
      rw [hnil, ← hbefore]
      exact hnone
    · exact h.none_stands x y hbefore hnil
  · rw [List.append_assoc, List.singleton_append]
    exact h.word_begins

/-- Behind an entry there is no such text yet. -/
theorem PendingAt.entry (h : Stands prior (f ++ r) f) : PendingAt (prior ++ f) [] r := by
  refine ⟨fun x y hxy hy => absurd (List.append_eq_nil_iff.1 hxy.symm).2 hy, fun hword => ?_⟩
  have hlast : (prior ++ f).getLast? = f.getLast? := by
    rw [List.getLast?_append, Option.or_of_isSome]
    exact List.getLast?_isSome.2 h.ne_nil
  have hnext : (f ++ r)[f.length]? = r.head? := by
    rw [List.getElem?_append_right (Nat.le_refl _), Nat.sub_self, List.head?_eq_getElem?]
  rw [List.nil_append] at hword
  rw [hlast]
  by_contra hend
  have hends := h.word_ends (Bool.ne_false_iff.1 hend)
  rw [hnext] at hends
  cases hends.symm.trans hword

/-- The text since the last entry is cut as it is to be. -/
theorem munched_flush (h : PendingAt prior s.tmpText (listText ts)) :
    Munched prior (s.flush ++ ts) ↔ Munched (prior ++ s.tmpText) ts := by
  unfold Lexer.flush
  split
  · next hnil => rw [hnil, List.nil_append, List.append_nil]
  · next hne =>
    refine and_iff_right ⟨.inr h.none_stands, fun _ hall => h.word_begins ?_⟩
    obtain ⟨d, t, ht⟩ := List.exists_cons_of_ne_nil hne
    rw [ht] at hall ⊢
    exact (Bool.and_eq_true_iff.1 hall).1

/-- Where nothing is found the first token goes on to the next place where something is. -/
theorem tokenizeLoop_head (fuel : Nat) (s : Lexer) (rest : Bytes) (hfuel : rest.length ≤ fuel)
    (hne : s.tmpText ++ rest ≠ []) (hstart : s.tmpText ≠ [] ∨ findToken sTokens rest = none) :
    ∃ z y t ts, rest = z ++ y ∧ tokenizeLoop sTokens fuel s rest = t :: ts ∧ t.text = s.tmpText ++ z ∧
      listText ts = y ∧ (∀ x y', z = x ++ y' → y' ≠ [] → findToken sTokens (y' ++ y) = none) ∧
        (y = [] ∨ findToken sTokens y ≠ none) := by
  have hflush {s : Lexer} (h : s.tmpText ≠ []) : s.flush = [⟨s.tmpText, s.tl, s.tc, s.ti⟩] := if_neg h
  have hnil (y : Bytes) : ∀ x y', [] = x ++ y' → y' ≠ [] → findToken sTokens (y' ++ y) = none :=
    fun x y' hxy hy => absurd (List.append_eq_nil_iff.1 hxy.symm).2 hy
  have hend {s : Lexer} (h : s.tmpText ++ [] ≠ []) : ∃ z y t ts, [] = z ++ y ∧ s.flush = t :: ts ∧
      t.text = s.tmpText ++ z ∧ listText ts = y ∧
        (∀ x y', z = x ++ y' → y' ≠ [] → findToken sTokens (y' ++ y) = none) ∧
          (y = [] ∨ findToken sTokens y ≠ none) := by
    rw [List.append_nil] at h
    exact ⟨[], [], _, [], rfl, hflush h, (List.append_nil _).symm, rfl, hnil [], .inl rfl⟩
  induction fuel generalizing s rest with
  | zero =>
    rw [List.length_eq_zero_iff.1 (Nat.le_zero.1 hfuel)] at hne ⊢
    exact hend hne
  | succ fuel ih =>
    cases rest with
    | nil => exact hend hne
    | cons ch rest =>
      have htext := @text_tokenizeLoop sTokens (fuel + 1) s (ch :: rest) hfuel
      rw [tokenizeLoop] at htext ⊢
      cases hfind : findToken sTokens (ch :: rest) with
      | none =>
        have hmore : s.tmpText ++ [ch] ≠ [] := List.append_ne_nil_of_right_ne_nil _ (List.cons_ne_nil ch [])
        obtain ⟨z, y, t, ts, rfl, hloop, ht, hts, hnone, hy⟩ :=
          ih { s with i := s.i + 1, c := s.c + 1, tmpText := s.tmpText ++ [ch] } rest
            (Nat.le_of_succ_le_succ hfuel) (List.append_ne_nil_of_left_ne_nil hmore rest) (.inl hmore)
        refine ⟨ch :: z, y, t, ts, rfl, hloop, ?_, hts, fun x y' hxy hy' => ?_, hy⟩
        · rw [ht, List.append_assoc, List.singleton_append]
        · rcases x with _ | ⟨d, x⟩
          · rw [← show ch :: z = y' from hxy]
            exact hfind
          · exact hnone x y' (List.cons.inj hxy).2 hy'
      | some tok =>
        have hfound : findToken sTokens (ch :: rest) ≠ none := hfind ▸ Option.some_ne_none tok
        have htmp : s.tmpText ≠ [] := hstart.resolve_right hfound
        rw [hfind] at htext
        dsimp only at htext ⊢
        rw [hflush htmp, List.singleton_append, listText_cons] at htext
        refine ⟨[], ch :: rest, _, _, rfl, by rw [hflush htmp, List.singleton_append],
          (List.append_nil _).symm, List.append_cancel_left htext, hnil _, .inr hfound⟩

/-- All that is left is an entry, and nothing is found at its beginning. -/
theorem munched_last_iff {fuel : Nat} (hfuel : rest.length ≤ fuel) (hat : PendingAt prior s.tmpText rest)
    (hstands : Stands (prior ++ s.tmpText) rest rest) (hfind : findToken sTokens rest = none) :
    Munched prior (tokenizeLoop sTokens fuel s rest) ↔
      s.tmpText = [] ∧ ∀ e ∈ sTokens, ∀ y, y <:+ rest → isToken e y = false := by
  have hrest := hstands.ne_nil
  obtain ⟨z, y, t, ts, hzy, hloop, ht, hts, hnone, hy⟩ := tokenizeLoop_head fuel s rest hfuel
    (List.append_ne_nil_of_right_ne_nil _ hrest) (.inr hfind)
  have hz : z ≠ [] := by
    rintro rfl
    rw [hzy, List.nil_append] at hrest hfind
    exact hy.elim hrest fun hne => hne hfind
  rw [hloop]
  constructor
  · rintro ⟨⟨hcut, -⟩, -⟩
    rw [ht, hts] at hcut
    -- the entry stands in the token, so it is the token
    have hlongest := hcut.resolve_right fun hnone => by
      have hhere := hnone s.tmpText z rfl hz
      rw [← hzy] at hhere
      exact hhere rest hstands
    have htmp : s.tmpText = [] := by
      by_contra htmp
      have hhere := hat.none_stands [] s.tmpText rfl htmp
      rw [List.append_nil, hzy, ← List.append_assoc] at hhere
      exact hhere _ hlongest.1
    rw [htmp, List.nil_append, ← hzy] at hlongest
    rw [htmp, List.append_nil] at hstands
    have hle := hlongest.2 rest hstands
    obtain rfl : y = [] := by
      have hlen := congrArg List.length hzy
      rw [List.length_append] at hlen
      exact List.length_eq_zero_iff.1 (by omega)
    refine ⟨htmp, fun e hmem y hsuffix => ?_⟩
    by_cases hnil : y = []
    · rw [hnil]
      exact Bool.eq_false_iff.2 fun htok => Nat.not_lt_zero _ (isToken_shorter htok)
    · obtain ⟨x, hx⟩ := hsuffix
      rw [hzy, List.append_nil] at hx
      have hnone' := hnone x y hx.symm hnil
      rw [List.append_nil] at hnone'
      exact isToken_eq_false hnone' hmem
  · rintro ⟨htmp, hfree⟩
    -- nothing is found behind the token, so it is all that is left
    obtain rfl : y = [] := by
      refine hy.resolve_right fun hne => ?_
      obtain ⟨f, hf⟩ := Option.ne_none_iff_exists'.1 hne
      have htok := (findToken_some hf).2
      cases (hfree f (findToken_mem hf) y ⟨z, hzy.symm⟩).symm.trans htok
    rw [List.append_nil] at hzy
    obtain rfl : ts = [] := by
      cases ts with
      | nil => rfl
      | cons u us =>
        have hu : u.text ≠ [] := by
          refine @tokenizeLoop_ne sTokens fuel s rest u ?_
          rw [hloop]
          exact List.mem_cons_of_mem t List.mem_cons_self
        rw [listText_cons] at hts
        exact absurd (List.append_eq_nil_iff.1 hts).1 hu
    rw [htmp, List.nil_append, ← hzy] at ht
    rw [htmp, List.append_nil] at hstands
    refine ⟨⟨.inl ?_, fun _ hall => ?_⟩, trivial⟩
    · rw [ht, hts, List.append_nil]
      exact ⟨hstands, fun e he => he.begins.length_le⟩
    · rw [ht] at hall
      exact hstands.word_begins hall

/-- An entry that is found is cut as it is to be exactly where nothing is missed. -/
theorem munched_entry_iff {t : Token} (hfind : findToken sTokens (f ++ listText ts) = some f)
    (ht : t.text = f) : t.Munched prior (listText ts) ↔ TextPlace.Safe ⟨prior, pending, f ++ listText ts⟩ := by
  have hmem := findToken_mem hfind
  obtain ⟨hne, htok⟩ := findToken_some hfind
  subst ht
  constructor
  · rintro ⟨hcut, hword⟩
    -- something stands there, so it is the longest entry
    have hlongest (h : ∃ e, Stands prior (t.text ++ listText ts) e) :
        Longest prior (t.text ++ listText ts) t.text := by
      obtain ⟨e, he⟩ := h
      refine hcut.resolve_right fun hnone => ?_
      have hhere := hnone [] t.text rfl hne
      rw [List.append_nil] at hhere
      exact hhere e he
    refine ⟨fun e he htok' hall hbefore => ⟨t.text, hmem, htok, ?_⟩, fun hlast => ?_, fun hstar => ?_⟩
    · obtain ⟨f', hfind', hle⟩ := find_isSome he htok'
      obtain rfl : t.text = f' := Option.some.inj (hfind.symm.trans hfind')
      refine Nat.lt_of_le_of_ne hle fun hlen => ?_
      have hsame : e = t.text := eq_of_begins (isToken_iff.1 htok').2.1 (isToken_iff.1 htok).2.1 hlen
      cases (hword hmem (hsame ▸ hall)).symm.trans hbefore
    · have hle := (hlongest ⟨_, hlast⟩).2 _ hlast
      exact absurd (isToken_shorter htok) (Nat.not_lt.2 hle)
    · have hstar : t.text ++ listText ts = bytes "*@@" := hstar
      rw [hstar] at hlongest hfind htok
      have hlong := hlongest ⟨_, star_stands⟩
      have hat : isToken (bytes "*@") (bytes "*@@") = true := by decide
      obtain ⟨f', hfind', hle⟩ := find_isSome star_mem_sTokens.2 hat
      obtain rfl : t.text = f' := Option.some.inj (hfind.symm.trans hfind')
      have htext : bytes "*@" = t.text := by
        refine eq_of_begins (isToken_iff.1 hat).2.1 (isToken_iff.1 htok).2.1 ?_
        have hthree : (bytes "*@@").length = (bytes "*@").length + 1 := by decide
        have hlt := isToken_shorter htok
        omega
      exact hlong.1.star htext.symm (List.prefix_refl _)
  · intro hsafe
    exact ⟨.inl (hsafe.find_longest hfind), fun _ hall => hsafe.find_word hfind hall⟩

/-- Where nothing is found, only an entry at the end is missed. -/
theorem safe_of_not_found (hfind : findToken sTokens rest = none) : TextPlace.Safe ⟨prior, pending, rest⟩ ↔
    (Stands prior rest rest → pending = [] ∧ ∀ e ∈ sTokens, ∀ y, y <:+ rest → isToken e y = false) := by
  refine ⟨fun h => h.last, fun hlast => ⟨fun e hmem htok => ?_, hlast, ?_⟩⟩
  · cases (isToken_eq_false hfind hmem).symm.trans htok
  · rintro rfl
    have htok : isToken (bytes "*") (bytes "*@@") = true := by decide
    cases (isToken_eq_false hfind star_mem_sTokens.1).symm.trans htok

/-- The text in front of an entry that is found, the entry, and what is behind it. -/
theorem munched_found_iff {t : Token} (hat : PendingAt prior s.tmpText (f ++ listText ts))
    (hfind : findToken sTokens (f ++ listText ts) = some f) (ht : t.text = f)
    (hrest : PendingAt (prior ++ s.tmpText ++ f) [] (listText ts) →
      (Munched (prior ++ s.tmpText ++ f) ts ↔ SafeFrom ⟨prior ++ s.tmpText ++ f, [], listText ts⟩)) :
    Munched prior (s.flush ++ t :: ts) ↔ SafeFrom ⟨prior ++ s.tmpText, s.tmpText, f ++ listText ts⟩ := by
  have hflush := @munched_flush prior s (t :: ts) (by rwa [listText_cons, ht])
  have hentry := @munched_entry_iff (prior ++ s.tmpText) s.tmpText _ _ _ hfind ht
  rw [hflush, Munched, hentry, ht]
  by_cases hsafe : TextPlace.Safe ⟨prior ++ s.tmpText, s.tmpText, f ++ listText ts⟩
  · have hlongest := hsafe.find_longest hfind
    rw [safeFrom_entry hlongest, hrest (.entry hlongest.1)]
  · refine iff_of_false (fun h => hsafe h.1) fun h => hsafe ?_
    exact (safeFrom_iff.1 h).1

/-- The loop cuts the rest as it is to be exactly if nothing is missed from here on. -/
theorem munched_loop_iff (fuel : Nat) (s : Lexer) (rest : Bytes) (hfuel : rest.length ≤ fuel)
    (hat : PendingAt prior s.tmpText rest) :
    Munched prior (tokenizeLoop sTokens fuel s rest) ↔ SafeFrom ⟨prior ++ s.tmpText, s.tmpText, rest⟩ := by
  have hend {prior : Bytes} {s : Lexer} (hat : PendingAt prior s.tmpText []) :
      Munched prior s.flush ↔ SafeFrom ⟨prior ++ s.tmpText, s.tmpText, []⟩ := by
    rw [← List.append_nil s.flush, @munched_flush prior s [] hat]
    exact iff_of_true trivial safeFrom_end
  induction fuel generalizing s rest prior with
  | zero =>
    rw [List.length_eq_zero_iff.1 (Nat.le_zero.1 hfuel)] at hat ⊢
    exact hend hat
  | succ fuel ih =>
    cases rest with
    | nil => exact hend hat
    | cons ch rest =>
      cases hfind : findToken sTokens (ch :: rest) with
      | none =>
        have hsafe := @safe_of_not_found (prior ++ s.tmpText) s.tmpText _ hfind
        by_cases hstands : ∃ e, Stands (prior ++ s.tmpText) (ch :: rest) e
        · -- it is all that is left
          obtain ⟨e, he⟩ := hstands
          obtain rfl := he.eq_rest hfind
          have hlongest : Longest (prior ++ s.tmpText) ((ch :: rest) ++ []) (ch :: rest) := by
            rw [List.append_nil]
            exact ⟨he, fun e' he' => he'.begins.length_le⟩
          have hplaces := @safeFrom_entry _ s.tmpText _ _ hlongest
          rw [List.append_nil] at hplaces
          rw [munched_last_iff hfuel hat he hfind, hplaces, hsafe, and_iff_left safeFrom_end]
          exact ⟨fun h _ => h, fun h => h he⟩
        · have hnone : NoneStands (prior ++ s.tmpText) (ch :: rest) := not_exists.1 hstands
          have hloop := ih { s with i := s.i + 1, c := s.c + 1, tmpText := s.tmpText ++ [ch] } rest
            (Nat.le_of_succ_le_succ hfuel) (hat.char hnone)
          rw [tokenizeLoop, hfind, safeFrom_char hnone, List.append_assoc]
          refine hloop.trans (and_iff_right ?_).symm
          exact hsafe.2 fun hlast => absurd hlast (hnone _)
      | some tok =>
        obtain ⟨r, hr, hdrop, hlen⟩ := findToken_split hfind hfuel
        have hbehind : listText (tokenizeLoop sTokens fuel (s.skip tok) r) = r := text_tokenizeLoop _ _ _ hlen
        rw [tokenizeLoop, hfind]
        dsimp only
        rw [hdrop]
        rw [← hr, ← hbehind] at hfind hat
        have hloop := @munched_found_iff prior tok s _ ⟨tok, s.l, s.c, s.i⟩ hat hfind rfl
        rw [hbehind, hr] at hloop
        refine hloop fun hat' => ?_
        have hskip := ih (s.skip tok) r hlen hat'
        rwa [show (s.skip tok).tmpText = [] from rfl, List.append_nil] at hskip

/-! ## The tokens of a template -/

/-- **The tokens are the longest entries, and a word of the table is not the end of another word, exactly if
nothing is missed** at the places that are read. -/
theorem longest_entries_iff (text : Bytes) :
    Munched [] (tokenize text) ↔ SafeFrom ⟨[], [], text⟩ := by
  have hstart : PendingAt [] [] text :=
    ⟨fun x y hxy hy => absurd (List.append_eq_nil_iff.1 hxy.symm).2 hy, fun _ => rfl⟩
  have hroot (behind : Bytes) : rootToken.Munched [] behind :=
    ⟨.inr fun x y hxy hy => absurd (List.append_eq_nil_iff.1 hxy.symm).2 hy, fun _ _ => rfl⟩
  refine (and_iff_right (hroot _)).trans ?_
  exact munched_loop_iff text.length ⟨0, 1, 1, [], 0, 0, 0⟩ text (Nat.le_refl _) hstart

/-- The `;` at the end of `x;` is not found, and in `xa b` the `a` is cut off. -/
theorem longest_entries_missed :
    ¬ Munched [] (tokenize (bytes "x;")) ∧ ¬ Munched [] (tokenize (bytes "xa b")) := by
  have hend : tokenize (bytes "x;") = [rootToken, ⟨bytes "x;", 0, 0, 0⟩] := by
    rw [tokenize_heads (fun c => isNoLetter c || c = 120) (by decide +kernel)]
    decide +kernel
  have hword : tokenize (bytes "xa b") = [rootToken, ⟨bytes "x", 0, 0, 0⟩, ⟨bytes "a", 1, 2, 1⟩,
      ⟨bytes " ", 1, 3, 2⟩, ⟨bytes "b", 1, 0, 2⟩] := by
    rw [tokenize_heads (fun c => isNoLetter c || c = 120 || c = 97 || c = 98) (by decide +kernel)]
    decide +kernel
  rw [hend, hword]
  constructor
  · rintro ⟨-, ⟨hcut, -⟩, -⟩
    have hsemicolon : Stands (bytes "x") (bytes ";") (bytes ";") := by
      refine ⟨List.mem_map_of_mem (by decide), List.prefix_refl _, ?_, ?_, ?_⟩
      · exact fun h => absurd h (by decide)
      · exact fun h => absurd h (by decide)
      · exact fun h => absurd h (by decide)
    rcases hcut with hlongest | hnone
    · have hmem : bytes "x;" ∉ sTokens := by
        rw [sTokens_ascii]
        decide +kernel
      exact hmem hlongest.1.mem
    · exact hnone (bytes "x") (bytes ";") (by decide) (by decide) (bytes ";") hsemicolon
  · rintro ⟨-, -, ⟨-, hword⟩, -⟩
    have hmem : bytes "a" ∈ sTokens := by
      rw [sTokens_ascii]
      decide +kernel
    cases hword hmem (by decide)

end Loop

end Fanjet

end LibEvmvc
