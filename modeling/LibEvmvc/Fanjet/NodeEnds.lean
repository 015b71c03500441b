import LibEvmvc.Fanjet.CodeBlocks
import LibEvmvc.Fanjet.TokenCuts

set_option autoImplicit false

/-! # Where a node ends

A node that is read is closed at one of the tokens to come. Which one that is can be said by the text
behind it, since the parser only goes forward and all tokens to come have a text. -/

namespace LibEvmvc

namespace Fanjet

/-! ## States and tokens to come -/

section States

variable {env : FanEnv} {text : Bytes} {p q : Parsing}

/-- The parser only goes forward. -/
theorem act_cur {a : Action} (h : act p a = .go q) : q.cur <:+ p.cur := by
  induction a generalizing p with
  | attach a ih => exact (ih h :)
  | next a ih =>
    rw [act] at h
    split at h
    · cases h
    · next t rest hcur =>
      rw [hcur]
      exact (ih h).trans (List.suffix_cons t rest)
  | set kind a ih => exact (ih h :)
  | dbg line col a ih => exact (ih h :)
  | setParent kind a ih =>
    rw [act] at h
    split at h
    · cases h
    · exact (ih h :)
  | loop =>
    cases h
    exact List.suffix_refl _
  | openScope kind hup =>
    rw [act] at h
    split at h
    · cases h
    · split at h
      · cases h
        exact List.drop_suffix _ _
      · cases h
  | openBoth kind inner hup =>
    rw [act] at h
    split at h
    · cases h
    · cases h
    · split at h
      · cases h
        exact (List.drop_suffix _ _).trans (List.drop_suffix _ _)
      · cases h
  | passUp =>
    rw [act] at h
    split at h
    · cases h
    · cases h
      exact List.suffix_refl _
  | finish => cases h
  | fail err => cases h
  | null => cases h

theorem Steps.cur (h : Steps env p q) : q.cur <:+ p.cur := act_cur h

theorem run_cur (h : Relation.ReflTransGen (Steps env) p q) : q.cur <:+ p.cur := by
  induction h with
  | refl => exact List.suffix_refl _
  | tail _ hstep ih => exact hstep.cur.trans ih

/-- In a node below the literal at the top, the tokens to come are cut from the template. -/
theorem Reached.cut (h : Reached env text p) (hbelow : p.below ≠ []) :
    Tokenized sTokens p.cur ∧ ∀ t ∈ p.cur, t.text ≠ [] := by
  have hsuffix : p.cur <:+ (tokenize text).drop 2 :=
    (List.suffix_append p.pre p.cur).trans (h.parseInv.nested hbelow)
  refine ⟨(tokenize_tokenized text).suffix (hsuffix.trans (List.drop_suffix _ _)), fun t ht => ?_⟩
  exact tokenize_ne text t (List.mem_of_mem_drop (hsuffix.subset ht : t ∈ (tokenize text).tail.drop 1))

theorem listText_nil {ts : List Token} (hne : ∀ t ∈ ts, t.text ≠ []) (h : listText ts = []) : ts = [] := by
  rcases ts with _ | ⟨t, ts⟩
  · rfl
  · rw [listText_cons] at h
    exact absurd (List.append_eq_nil_iff.1 h).1 (hne t List.mem_cons_self)

/-- Tokens to come have texts of different lengths. -/
theorem suffix_eq_of_text {ts l r : List Token} (hne : ∀ t ∈ ts, t.text ≠ []) (hl : l <:+ ts) (hr : r <:+ ts)
    (htext : listText l = listText r) : l = r := by
  have hlonger {l r : List Token} (hl : l <:+ ts) (hr : r <:+ ts) (htext : listText l = listText r)
      (hlen : l.length ≤ r.length) : l = r := by
    obtain ⟨x, rfl⟩ := List.suffix_of_suffix_length_le hl hr hlen
    rw [listText_append] at htext
    rw [listText_nil (fun t ht => hne t (hr.subset (List.mem_append_left l ht)))
      (List.append_left_eq_self.1 htext.symm)]
    rfl
  rcases Nat.le_total l.length r.length with hlen | hlen
  · exact hlonger hl hr htext hlen
  · exact (hlonger hr hl htext.symm hlen).symm

/-- A token without a text behind it is the last one. -/
theorem suffix_last {l r : List Token} {t u : Token} (hne : ∀ v ∈ l ++ [t], v.text ≠ [])
    (hsuffix : u :: r <:+ l ++ [t]) (hr : listText r = []) : u = t := by
  obtain rfl := listText_nil (fun v hv => hne v (hsuffix.subset (List.mem_cons_of_mem u hv))) hr
  obtain ⟨x, hx⟩ := hsuffix
  exact (List.cons.inj (List.append_inj' hx rfl).2).1

end States

/-! ## The end of a node -/

/-- The node that is read at `p`, of kind `k` and in `X`, ends at a token `c` with `rest` behind it: then it
is the last child of `X`, which goes on. -/
def EndsAt (env : FanEnv) (k : NodeKind) (c : UInt8) (X : OpenNode) (below : List OpenNode) (rest : Bytes)
    (p : Parsing) : Prop :=
  ∃ q r t, Relation.ReflTransGen (Steps env) p q ∧ q.At k (X :: below) (t :: r.cur) ∧ t.text = [c] ∧
    Steps env q r ∧ r.At X.kind below r.cur ∧
    (∃ line col childs, r.top.childs = X.childs ++ [.node k line col childs]) ∧ listText r.cur = rest

section Ends

variable {env : FanEnv} {k : NodeKind} {c : UInt8} {X : OpenNode} {below : List OpenNode} {rest : Bytes}
  {p : Parsing} {l r : List Token} {t : Token}

/-- The parser is at the token that has `rest` behind it. -/
theorem EndsAt.at_token (h : EndsAt env k c X below rest p) (hne : ∀ t ∈ p.cur, t.text ≠ [])
    (hcur : p.cur = l ++ t :: r) (ht : t.text = [c]) (hr : listText r = rest) :
    ∃ q, Relation.ReflTransGen (Steps env) p q ∧ q.cur = t :: r := by
  obtain ⟨q, e, t', hrun, hq, ht', -, -, -, hrest⟩ := h
  refine ⟨q, hrun, suffix_eq_of_text hne (run_cur hrun) (hcur ▸ List.suffix_append l (t :: r)) ?_⟩
  rw [hq.cur, listText_cons, listText_cons, ht', ht, hrest, hr]

/-- If nothing is behind it, the last token is this one. -/
theorem EndsAt.last_token (h : EndsAt env k c X below rest p) (hne : ∀ t ∈ p.cur, t.text ≠ [])
    (hcur : p.cur = l ++ [t]) (hnil : rest = []) : t.text = [c] := by
  obtain ⟨q, e, t', hrun, hq, ht', -, -, -, hrest⟩ := h
  have hsuffix := run_cur hrun
  rw [hq.cur, hcur] at hsuffix
  rw [hcur] at hne
  exact suffix_last hne hsuffix (hrest.trans hnil) ▸ ht'

/-- The character it ends at is a token, also at the end of the template. -/
theorem EndsAt.own_token {s : Bytes} (h : EndsAt env k c X below rest p) (hne : ∀ t ∈ p.cur, t.text ≠ [])
    (htext : listText p.cur = s ++ c :: rest) :
    rest = [] → ∃ l t, p.cur = l ++ [t] ∧ t.text = [c] := by
  intro hnil
  have hcur : p.cur ≠ [] := by
    intro hcur
    rw [hcur] at htext
    exact absurd (congrArg List.length htext) (by simp [listText])
  have hsplit := (List.dropLast_concat_getLast hcur).symm
  exact ⟨p.cur.dropLast, p.cur.getLast hcur, hsplit, h.last_token hne hsplit hnil⟩

end Ends

end Fanjet

end LibEvmvc
