import LibEvmvc.Foundation.Layers
import LibEvmvc.Fanjet.ViewBody

set_option autoImplicit false

/-! # The code of the user

What is generated for a code block or a statement is the text of the user with its keys and aliases
replaced, if three things do not get in the way. A nested block or statement replaces them in its own text,
and those around it do so again in all of that. A `try` statement writes the tokens that are its own
children, and nothing of the blocks and expressions in it. And the keyword of a statement is written as it
is (`codeText_kept_iff`). -/

namespace LibEvmvc

namespace Fanjet

open Brackets

/-! ## Nodes of code -/

/-- The nodes end with a token of this text. -/
def EndsWith (ns : List Node) (text : Bytes) : Prop :=
  ∃ front ts, ns = front ++ [.token ts] ∧ listText ts = text

/-- The keywords of the control statements. -/
def controlKeywords : List Bytes := ["if", "switch", "while", "for", "do"].map bytes

mutual

/-- A node in code: tokens, nested blocks, expressions, strings, control and `try` statements. -/
def Node.IsCode : Node → Prop
  | .token _ => True
  | .node (.expr _) _ _ childs => childs ≠ [] ∧ CodeNodes childs
  | .node (.string ..) _ _ childs =>
    match childs with
    | [] => False
    | quote :: cs => quote.isText = true ∧ EndsWith cs quote.tokenText ∧ CodeNodes cs
  | .node .codeBlock _ _ childs =>
    match childs with
    | [] => False
    | brace :: cs =>
      (brace.isText = true ∧ brace.tokenText = bytes "\x7b") ∧ EndsWith cs (bytes "\x7d") ∧ CodeNodes cs
  | .node (.codeControl _) _ _ childs =>
    match childs with
    | [] => False
    | keyword :: cs => (keyword.isText = true ∧ keyword.tokenText ∈ controlKeywords) ∧ CodeNodes cs
  | .node (.codeErr _) _ _ childs => (∃ n ∈ childs, n.isBlock = true) ∧ CodeNodes childs
  | _ => False

def CodeNodes : List Node → Prop
  | [] => True
  | n :: ns => n.IsCode ∧ CodeNodes ns

end

mutual

/-- Whether a `try` statement is in it. -/
def Node.hasTry : Node → Bool
  | .token _ => false
  | .node kind _ _ childs => (match kind with | .codeErr _ => true | _ => false) || anyTry childs

def anyTry : List Node → Bool
  | [] => false
  | n :: ns => n.hasTry || anyTry ns

end

/-- What a `try` statement writes: the tokens that are its children. -/
def tryParts (childs : List Node) : List (Layered UInt8) :=
  childs.map fun n => match n with | .token ts => .text (listText ts) | .node .. => .lost n.text

mutual

/-- A node in layers: the text in the braces of a nested block, and the text behind the keyword of a nested
    statement, are inner texts. -/
def Node.parts : Node → List (Layered UInt8)
  | .token ts => [.text (listText ts)]
  | .node kind _ _ childs =>
    match kind, childs with
    | .string .., quote :: cs => .text quote.tokenText :: (partsAll true cs ++ [.text quote.tokenText])
    | .codeBlock, brace :: cs => [.text brace.tokenText, .inner (partsAll true cs), .text (bytes "\x7d")]
    | .codeControl _, keyword :: cs => [.text keyword.tokenText, .inner (partsAll false cs)]
    | .codeErr _, childs => tryParts childs
    | _, childs => partsAll false childs

/-- Several nodes in layers, without the last one if `init`. -/
def partsAll (init : Bool) : List Node → List (Layered UInt8)
  | [] => []
  | n :: ns => if init && ns.isEmpty then [] else n.parts ++ partsAll init ns

end

/-- The layers behind the first token of a block or a control statement. -/
def Node.inside : Node → List (Layered UInt8)
  | .node .codeBlock _ _ (_ :: cs) => partsAll true cs
  | .node (.codeControl _) _ _ (_ :: cs) => partsAll false cs
  | _ => []

section Parts

variable {env : GenEnv} {doc : Document}

theorem rawAll_tryParts (childs : List Node) : rawAll (tryParts childs) = childsText childs := by
  induction childs with
  | nil => rfl
  | cons n ns ih =>
    unfold tryParts at ih ⊢
    rw [List.map_cons, rawAll, ih, childsText]
    cases n <;> rfl

theorem outAll_tryParts (isWord : UInt8 → Bool) (r : Bytes → Bytes) (childs : List Node) :
    outAll isWord r (tryParts childs) = tokenTexts childs := by
  induction childs with
  | nil => rfl
  | cons n ns ih =>
    unfold tryParts at ih ⊢
    rw [List.map_cons, outAll, ih, tokenTexts, tokenTexts, List.flatMap_cons]
    cases n <;> rfl

theorem tokenText_eq {n : Node} (hn : n.isText = true) : n.tokenText = n.text := by
  cases n with
  | token => rfl
  | node => cases hn

theorem partsInit_cons {n : Node} {ns : List Node} (hne : ns ≠ []) :
    partsAll true (n :: ns) = n.parts ++ partsAll true ns := by
  rw [partsAll, if_neg]
  rw [Bool.true_and, List.isEmpty_iff]
  exact hne

theorem endsWith_nil {text : Bytes} : ¬ EndsWith [] text := by
  rintro ⟨front, ts, heq, -⟩
  exact absurd heq.symm (List.append_ne_nil_of_right_ne_nil front (List.cons_ne_nil _ _))

theorem endsWith_cons {n : Node} {ns : List Node} {text : Bytes} (h : EndsWith (n :: ns) text) :
    ((ns = [] ∧ n.isText = true) ∧ text = n.text) ∨ (ns ≠ [] ∧ EndsWith ns text) := by
  obtain ⟨front, ts, heq, rfl⟩ := h
  cases front with
  | nil =>
    cases heq
    exact .inl ⟨⟨rfl, rfl⟩, rfl⟩
  | cons m front =>
    cases heq
    exact .inr ⟨List.append_ne_nil_of_right_ne_nil front (List.cons_ne_nil _ _), front, ts, rfl, rfl⟩

mutual

/-- The layers are the text of the node. -/
theorem Node.rawAll_parts : (n : Node) → n.IsCode → rawAll n.parts = n.text
  | .token ts, _ => List.append_nil _
  | .node (.expr _) _ _ childs, h => by
    rw [Node.parts, Node.text]
    · exact rawAll_partsAll childs h.2
    all_goals simp
  | .node (.string ..) _ _ (quote :: cs), h => by
    have hlast := rawAll_partsInit cs h.2.2 h.2.1
    rw [Node.parts, Node.text, rawAll, rawAll_append, childsText, ← tokenText_eq h.1, ← hlast]
    exact congrArg _ (congrArg _ (List.append_nil _))
  | .node .codeBlock _ _ (brace :: cs), h => by
    have hlast := rawAll_partsInit cs h.2.2 h.2.1
    rw [Node.parts, Node.text, childsText, ← tokenText_eq h.1.1, ← hlast]
    exact congrArg _ (congrArg _ (List.append_nil _))
  | .node (.codeControl _) _ _ (keyword :: cs), h => by
    rw [Node.parts, Node.text, childsText, ← tokenText_eq h.1.1, ← rawAll_partsAll cs h.2]
    exact congrArg _ (List.append_nil _)
  | .node (.codeErr _) _ _ childs, _ => by
    rw [Node.parts, Node.text]
    exact rawAll_tryParts childs

theorem rawAll_partsAll : (ns : List Node) → CodeNodes ns → rawAll (partsAll false ns) = childsText ns
  | [], _ => rfl
  | n :: ns, h => by
    have hall : partsAll false (n :: ns) = n.parts ++ partsAll false ns := rfl
    rw [hall, rawAll_append, childsText, Node.rawAll_parts n h.1, rawAll_partsAll ns h.2]

theorem rawAll_partsInit : (ns : List Node) → CodeNodes ns → {last : Bytes} → EndsWith ns last →
    rawAll (partsAll true ns) ++ last = childsText ns
  | [], _, _, h => absurd h endsWith_nil
  | n :: ns, h, last, hend => by
    rcases endsWith_cons hend with ⟨⟨rfl, -⟩, rfl⟩ | ⟨hne, hend⟩
    · exact (List.append_nil _).symm
    · rw [partsInit_cons hne, rawAll_append, childsText, Node.rawAll_parts n h.1, List.append_assoc,
        rawAll_partsInit ns h.2 hend]

end

/-! ## What is generated -/

theorem gen_append_text (a b : Bytes) : (Gen.text a ++ Gen.text b) = Gen.text (a ++ b) := rfl

theorem gen_map_text (f : Bytes → Bytes) (a : Bytes) : (Gen.text a).map f = Gen.text (f a) := rfl

theorem Node.IsCode.isGenerated {kind : NodeKind} {line col : Nat} {childs : List Node}
    (h : (Node.node kind line col childs).IsCode) : (Node.node kind line col childs).isGenerated = true := by
  cases kind with
  | directive => exact h.elim
  | _ => rfl

theorem not_last_of {init : Bool} {ns : List Node} (h : ¬ (init && ns.isEmpty) = true) :
    init = true → ns ≠ [] := by
  intro hinit hnil
  exact h (by rw [hinit, hnil]; rfl)

mutual

/-- What is generated for a node are its layers, with the keys of the inner ones replaced. -/
theorem Node.gen_parts : (n : Node) → n.IsCode → n.isText = false →
    n.gen env doc .cpp = .text (outAll isFanWord (fanKeyWord doc) n.parts)
  | .token _, _, h => by cases h
  | .node (.expr _) _ _ childs, h, _ => by
    have hne : childs.isEmpty = false := by
      rw [Bool.eq_false_iff, Ne, List.isEmpty_iff]
      exact h.1
    rw [Node.gen, if_neg (Bool.eq_false_iff.1 hne), genCode_parts false childs true h.2]
    rfl
  | .node (.string ..) _ _ (quote :: cs), h, _ => by
    rw [Node.gen, genCode_parts true cs true h.2.2, gen_append_text, gen_append_text, Node.parts, outAll,
      outAll_append, outAll, outAll, List.append_nil, List.append_assoc]
    rfl
  | .node .codeBlock _ _ (brace :: cs), h, _ => by
    have hbrace : brace.tokenText ≠ bytes "@\x7b" := by
      rw [h.1.2]
      decide
    rw [Node.gen, if_neg hbrace, if_pos h.1.2, genCode_parts true cs false h.2.2, gen_map_text,
      gen_append_text, gen_append_text, Node.parts, outAll, outAll, outAll, outAll, h.1.2, List.append_nil,
      List.append_assoc]
    rfl
  | .node (.codeControl _) _ _ (keyword :: cs), h, _ => by
    have hkeyword : keyword.tokenText ∈ ["if", "switch", "while", "for", "do"].map bytes := h.1.2
    have hplain : keyword.tokenText ∉ ["@if", "@switch", "@while", "@for", "@do"].map bytes := by
      have hdisjoint : ∀ w ∈ controlKeywords, w ∉ ["@if", "@switch", "@while", "@for", "@do"].map bytes := by
        decide
      exact hdisjoint _ h.1.2
    rw [Node.gen, if_neg (mt List.contains_iff_mem.1 hplain), if_pos (List.contains_iff_mem.2 hkeyword),
      genCode_parts false cs false h.2, gen_map_text, gen_append_text, Node.parts, outAll, outAll, outAll,
      List.append_nil]
    rfl
  | .node (.codeErr _) _ _ childs, _, _ => by
    rw [Node.gen, Node.parts, outAll_tryParts]

theorem genCode_parts (init : Bool) : (ns : List Node) → (skip : Bool) → CodeNodes ns →
    genCode env doc .cpp skip init ns = .text (outAll isFanWord (fanKeyWord doc) (partsAll init ns))
  | [], _, _ => by rw [genCode]; rfl
  | .token ts :: ns, skip, h => by
    rw [partsAll]
    by_cases hlast : (init && ns.isEmpty) = true
    · rw [genCode.eq_def]
      dsimp only
      rw [if_pos hlast, if_pos hlast]
      rfl
    · rw [genCode_token (not_last_of hlast), genCode_parts init ns skip h.2, if_neg hlast, outAll_append,
        gen_append_text]
      exact congrArg (fun b => Gen.text (b ++ _)) (List.append_nil _).symm
  | .node kind line col childs :: ns, skip, h => by
    rw [partsAll]
    by_cases hlast : (init && ns.isEmpty) = true
    · rw [genCode.eq_def]
      dsimp only
      rw [if_pos hlast, if_pos hlast]
      rfl
    · rw [genCode_node (not_last_of hlast) h.1.isGenerated, Node.gen_parts _ h.1 rfl,
        genCode_parts init ns skip h.2, if_neg hlast, outAll_append, gen_append_text]

end

/-! ## What `try` statements leave out -/

mutual

theorem Node.whole_parts : (n : Node) → n.IsCode → n.hasTry = false → WholeAll n.parts
  | .token _, _, _ => ⟨trivial, trivial⟩
  | .node (.expr _) _ _ childs, h, htry => by
    rw [Node.parts]
    · exact whole_partsAll false childs h.2 htry
    all_goals simp
  | .node (.string ..) _ _ (quote :: cs), h, htry => by
    have htry : anyTry (quote :: cs) = false := htry
    rw [anyTry, Bool.or_eq_false_iff] at htry
    exact ⟨trivial, wholeAll_append.2 ⟨whole_partsAll true cs h.2.2 htry.2, trivial, trivial⟩⟩
  | .node .codeBlock _ _ (brace :: cs), h, htry => by
    have htry : anyTry (brace :: cs) = false := htry
    rw [anyTry, Bool.or_eq_false_iff] at htry
    exact ⟨trivial, whole_partsAll true cs h.2.2 htry.2, trivial, trivial⟩
  | .node (.codeControl _) _ _ (keyword :: cs), h, htry => by
    have htry : anyTry (keyword :: cs) = false := htry
    rw [anyTry, Bool.or_eq_false_iff] at htry
    exact ⟨trivial, whole_partsAll false cs h.2 htry.2, trivial⟩
  | .node (.codeErr _) .., _, htry => by
    rw [Node.hasTry] at htry
    cases htry

theorem whole_partsAll (init : Bool) : (ns : List Node) → CodeNodes ns → anyTry ns = false →
    WholeAll (partsAll init ns)
  | [], _, _ => trivial
  | n :: ns, h, htry => by
    rw [anyTry, Bool.or_eq_false_iff] at htry
    rw [partsAll]
    split
    · trivial
    · exact wholeAll_append.2 ⟨Node.whole_parts n h.1 htry.1, whole_partsAll init ns h.2 htry.2⟩

end

/-- A block has a brace. -/
theorem brace_mem_block {n : Node} (hn : n.isBlock = true) (hcode : n.IsCode) : 123 ∈ n.text := by
  match n, hn with
  | .node .codeBlock _ _ (brace :: cs), _ =>
    have hbrace : (123 : UInt8) ∈ brace.text := by
      rw [← tokenText_eq hcode.1.1, hcode.1.2]
      decide
    exact List.mem_append_left _ hbrace

theorem mem_codeNodes {ns : List Node} (h : CodeNodes ns) {n : Node} (hn : n ∈ ns) : n.IsCode := by
  induction ns with
  | nil => cases hn
  | cons m ns ih =>
    rcases List.mem_cons.1 hn with rfl | hn
    · exact h.1
    · exact ih h.2 hn

theorem loses_tryParts {childs : List Node} (hblock : ∃ n ∈ childs, n.isBlock = true) (h : CodeNodes childs) :
    LosesAny 123 (tryParts childs) := by
  obtain ⟨n, hn, hblock⟩ := hblock
  have hbrace := brace_mem_block hblock (mem_codeNodes h hn)
  obtain ⟨front, back, rfl⟩ := List.append_of_mem hn
  unfold tryParts
  rw [List.map_append, List.map_cons]
  refine losesAny_append.2 (.inr (.inl ?_))
  cases n with
  | token => cases hblock
  | node => exact hbrace

/-- The first child is a token. -/
theorem anyTry_tail {first : Node} {cs : List Node} (hfirst : first.isText = true)
    (h : anyTry (first :: cs) = true) : anyTry cs = true := by
  cases first with
  | token => exact h
  | node => cases hfirst

mutual

theorem Node.loses_parts : (n : Node) → n.IsCode → n.hasTry = true → LosesAny 123 n.parts
  | .token _, _, htry => by cases htry
  | .node (.expr _) _ _ childs, h, htry => by
    rw [Node.parts]
    · exact loses_partsAll childs h.2 htry
    all_goals simp
  | .node (.string ..) _ _ (quote :: cs), h, htry => by
    exact .inr (losesAny_append.2 (.inl (loses_partsInit cs h.2.2 h.2.1 (anyTry_tail h.1 htry))))
  | .node .codeBlock _ _ (brace :: cs), h, htry => by
    exact .inr (.inl (loses_partsInit cs h.2.2 h.2.1 (anyTry_tail h.1.1 htry)))
  | .node (.codeControl _) _ _ (keyword :: cs), h, htry => by
    exact .inr (.inl (loses_partsAll cs h.2 (anyTry_tail h.1.1 htry)))
  | .node (.codeErr _) _ _ childs, h, _ => by
    rw [Node.parts]
    exact loses_tryParts h.1 h.2

theorem loses_partsAll : (ns : List Node) → CodeNodes ns → anyTry ns = true → LosesAny 123 (partsAll false ns)
  | [], _, htry => by cases htry
  | n :: ns, h, htry => by
    have hall : partsAll false (n :: ns) = n.parts ++ partsAll false ns := rfl
    rw [anyTry, Bool.or_eq_true] at htry
    rw [hall]
    refine losesAny_append.2 (htry.imp (Node.loses_parts n h.1) (loses_partsAll ns h.2))

theorem loses_partsInit : (ns : List Node) → CodeNodes ns → {last : Bytes} → EndsWith ns last →
    anyTry ns = true → LosesAny 123 (partsAll true ns)
  | [], _, _, hend, _ => absurd hend endsWith_nil
  | n :: ns, h, last, hend, htry => by
    rw [anyTry, Bool.or_eq_true] at htry
    rcases endsWith_cons hend with ⟨⟨rfl, hn⟩, -⟩ | ⟨hne, hend⟩
    · -- the last node is a token
      rcases htry with htry | htry
      · cases n with
        | token => cases htry
        | node => cases hn
      · cases htry
    · rw [partsInit_cons hne]
      exact losesAny_append.2 (htry.imp (Node.loses_parts n h.1) (loses_partsInit ns h.2 hend))

end

end Parts

/-! ## Replacing the keys again -/

/-- What the keys are replaced by. -/
def keyTexts (doc : Document) : List Bytes :=
  [doc.selfName, doc.nsclsName, bytes "std::shared_ptr<" ++ doc.nsclsName ++ bytes ">",
    doc.selfName ++ bytes "->req", doc.selfName ++ bytes "->res", doc.cbName, doc.filename, doc.dirname]

/-- In the path of the file there is neither a key nor a brace. -/
structure Document.PlainPaths (doc : Document) : Prop where
  filename : 123 ∉ doc.filename ∧ ∀ w ∈ words isFanWord doc.filename, w ∉ fanKeys
  dirname : 123 ∉ doc.dirname ∧ ∀ w ∈ words isFanWord doc.dirname, w ∉ fanKeys

section Keys

variable {doc : Document} {w : Bytes}

theorem aliasWord_cases (doc : Document) (w : Bytes) :
    aliasWord doc w = w ∨ aliasWord doc w ∈ keyTexts doc ∨
      ∃ ii ∈ doc.inheritsItems, aliasWord doc w = ii.nsclsName := by
  unfold aliasWord
  split_ifs
  · exact .inr (.inl (by simp [keyTexts]))
  · exact .inr (.inl (by simp [keyTexts]))
  · exact .inr (.inl (by simp [keyTexts]))
  · split
    · next ii hfind => exact .inr (.inr ⟨ii, List.mem_of_find?_eq_some hfind, rfl⟩)
    · exact .inl rfl

variable (doc) in
/-- A word stays, and is no key, or it becomes the text of a key or the name of a class. -/
theorem fanKeyWord_cases (hne : w ≠ []) (hw : ∀ c ∈ w, isFanWord c = true) :
    (fanKeyWord doc w = w ∧ w ∉ fanKeys) ∨ fanKeyWord doc w ∈ keyTexts doc ∨
      ∃ ii ∈ doc.inheritsItems, fanKeyWord doc w = ii.nsclsName := by
  have halias := aliasWord_cases doc w
  unfold fanKeyWord
  rw [replaceAlias_word hne hw]
  generalize aliasWord doc w = v at halias ⊢
  by_cases hkey : v ∈ fanKeys
  · refine .inr (.inl ?_)
    simp only [fanKeys, List.map_cons, List.map_nil, List.mem_cons, List.not_mem_nil, or_false] at hkey
    rcases hkey with rfl | rfl | rfl | rfl | rfl | rfl | rfl | rfl <;> simp [keyTexts, bytes]
  · have hstays := hkey
    simp only [fanKeys, List.map_cons, List.map_nil, List.mem_cons, List.not_mem_nil, or_false, not_or] at hstays
    simp only [hstays, if_false]
    rcases halias with rfl | htext | hitem
    · exact .inl ⟨rfl, hkey⟩
    · exact .inr (.inl htext)
    · exact .inr (.inr hitem)

theorem Qualified.char {s : Bytes} (h : Qualified s) : ∀ c ∈ s, isIdentChar c = true ∨ c = 58 := by
  obtain ⟨ns, cls, rfl, hns, hcls⟩ := h
  have hscope : ∀ c ∈ bytes "::", isIdentChar c = true ∨ c = 58 := forall_mem_of_all (by decide)
  rw [List.forall_mem_append, List.forall_mem_append]
  exact ⟨hns, hscope, fun c hc => .inl (hcls.ident c hc)⟩

/-- Neither an `@` nor a brace is in a name. -/
theorem Qualified.no_mark {s : Bytes} (h : Qualified s) {c : UInt8} (hc : c = 64 ∨ c = 123) : c ∉ s := by
  intro hmem
  rcases hc with rfl | rfl
  · exact absurd (h.char _ hmem) (by decide)
  · exact absurd (h.char _ hmem) (by decide)

theorem isName_no_mark {s : Bytes} (h : IsName s) {c : UInt8} (hc : c = 64 ∨ c = 123) : c ∉ s := by
  intro hmem
  rcases hc with rfl | rfl
  · exact absurd (h.ident _ hmem) (by decide)
  · exact absurd (h.ident _ hmem) (by decide)

theorem fanWord_of_ident {c : UInt8} (h : isIdentChar c = true) : isFanWord c = true := by
  unfold isIdentChar at h
  unfold isFanWord isAlphanum
  simp only [Bool.or_eq_true] at h ⊢
  tauto

/-- An `@` or a brace is only in a path. -/
theorem keyTexts_mark (hnames : ClassNames doc) (hcls : Qualified doc.nsclsName) {t : Bytes}
    (ht : t ∈ keyTexts doc) {c : UInt8} (hc : c = 64 ∨ c = 123) (hmem : c ∈ t) :
    t = doc.filename ∨ t = doc.dirname := by
  have hself := isName_no_mark hnames.self hc
  have hcb := isName_no_mark hnames.cb hc
  have hclsName := hcls.no_mark hc
  have hfixed : c ∉ bytes "std::shared_ptr<" ∧ c ∉ bytes ">" ∧ c ∉ bytes "->req" ∧ c ∉ bytes "->res" := by
    rcases hc with rfl | rfl
    · decide
    · decide
  simp only [keyTexts, List.mem_cons, List.not_mem_nil, or_false] at ht
  rcases ht with rfl | rfl | rfl | rfl | rfl | rfl | rfl | rfl
  · exact absurd hmem hself
  · exact absurd hmem hclsName
  · simp only [List.mem_append, hfixed, hclsName, or_self] at hmem
  · simp only [List.mem_append, hfixed, hself, or_self] at hmem
  · simp only [List.mem_append, hfixed, hself, or_self] at hmem
  · exact absurd hmem hcb
  · exact .inl rfl
  · exact .inr rfl

/-- A text without an `@` has no key in it. -/
theorem words_no_key {s : Bytes} (hs : 64 ∉ s) : ∀ w ∈ words isFanWord s, w ∉ fanKeys := by
  intro w hw hkey
  have hat : ∀ key ∈ fanKeys, (64 : UInt8) ∈ key := by decide
  exact hs (mem_of_mem_words hw (hat w hkey))

theorem words_fanKeyWord (hnames : ClassNames doc) (hcls : Qualified doc.nsclsName)
    (hitems : ∀ ii ∈ doc.inheritsItems, Qualified ii.nsclsName) (hpaths : doc.PlainPaths) (hne : w ≠ [])
    (hw : ∀ c ∈ w, isFanWord c = true) : ∀ v ∈ words isFanWord (fanKeyWord doc w), v ∉ fanKeys := by
  rcases fanKeyWord_cases doc hne hw with ⟨heq, hkey⟩ | htext | ⟨ii, hii, heq⟩
  · intro v hv
    rw [heq, words, pieces_word hw hne] at hv
    obtain rfl : v = w := List.mem_singleton.1 hv
    exact hkey
  · by_cases hat : 64 ∈ fanKeyWord doc w
    · rcases keyTexts_mark hnames hcls htext (.inl rfl) hat with heq | heq
      · rw [heq]
        exact hpaths.filename.2
      · rw [heq]
        exact hpaths.dirname.2
    · exact words_no_key hat
  · rw [heq]
    exact words_no_key ((hitems ii hii).no_mark (.inl rfl))

/-- Once the keys are replaced, only aliases are left. -/
theorem count_replaceFanKeys_again (hnames : ClassNames doc) (hcls : Qualified doc.nsclsName)
    (hitems : ∀ ii ∈ doc.inheritsItems, Qualified ii.nsclsName) (hpaths : doc.PlainPaths) (s : Bytes)
    (hagain : replaceFanKeys doc (replaceFanKeys doc s) ≠ replaceFanKeys doc s) :
    (replaceFanKeys doc s).count 58 < (replaceFanKeys doc (replaceFanKeys doc s)).count 58 := by
  have hkeys : ∀ v ∈ words isFanWord (replaceFanKeys doc s), v ∉ fanKeys := by
    intro v hv
    rw [replaceFanKeys, words_replaceWords] at hv
    obtain ⟨w, hw, hv⟩ := List.mem_flatMap.1 hv
    obtain ⟨hne, hword⟩ := mem_words hw
    exact words_fanKeyWord hnames hcls hitems hpaths hne hword v hv
  obtain ⟨v, hv, hchanged⟩ : ∃ v ∈ words isFanWord (replaceFanKeys doc s), fanKeyWord doc v ≠ v := by
    by_contra hnone
    push Not at hnone
    exact hagain (replaceWords_id hnone)
  obtain ⟨hne, hword⟩ := mem_words hv
  obtain ⟨ii, hii, halias⟩ : ∃ ii ∈ doc.inheritsItems, ii.aliasName = v := by
    by_contra hnone
    push Not at hnone
    exact hchanged (fanKeyWord_plain hne hword (hkeys v hv) hnone)
  have hcolon : ∀ ii ∈ doc.inheritsItems, 58 ∈ ii.nsclsName := by
    intro ii hii
    obtain ⟨ns, cls, heq, -, -⟩ := hitems ii hii
    rw [heq]
    exact List.mem_append_right _ (List.mem_append_left _ (by decide))
  obtain ⟨ii', hii', heq⟩ := fanKeyWord_alias hcolon hne hword (hkeys v hv) hii halias
  refine count_replaceWords_lt (fun w hw => ?_) hv ?_
  · rw [count_colon_word hw]
    exact Nat.zero_le _
  · rw [count_colon_word hv, heq]
    exact List.count_pos_iff.2 (hcolon ii' hii')

/-- Braces stay. -/
theorem count_fanKeyWord_brace (hnames : ClassNames doc) (hcls : Qualified doc.nsclsName)
    (hitems : ∀ ii ∈ doc.inheritsItems, Qualified ii.nsclsName) (hpaths : doc.PlainPaths) (hne : w ≠ [])
    (hword : ∀ c ∈ w, isFanWord c = true) : (fanKeyWord doc w).count 123 = w.count 123 := by
  have hnone : 123 ∉ w := fun hmem => absurd (hword 123 hmem) (by decide)
  rw [List.count_eq_zero.2 hnone, List.count_eq_zero]
  rcases fanKeyWord_cases doc hne hword with ⟨heq, -⟩ | htext | ⟨ii, hii, heq⟩
  · rw [heq]
    exact hnone
  · intro hmem
    rcases keyTexts_mark hnames hcls htext (.inr rfl) hmem with heq | heq
    · rw [heq] at hmem
      exact hpaths.filename.1 hmem
    · rw [heq] at hmem
      exact hpaths.dirname.1 hmem
  · rw [heq]
    exact (hitems ii hii).no_mark (.inr rfl)

theorem count_replaceFanKeys_brace (hnames : ClassNames doc) (hcls : Qualified doc.nsclsName)
    (hitems : ∀ ii ∈ doc.inheritsItems, Qualified ii.nsclsName) (hpaths : doc.PlainPaths) (s : Bytes) :
    (replaceFanKeys doc s).count 123 = s.count 123 := by
  refine count_replaceWords_eq fun w hw => ?_
  obtain ⟨hne, hword⟩ := mem_words hw
  exact count_fanKeyWord_brace hnames hcls hitems hpaths hne hword

end Keys

/-! ## Blocks and statements -/

/-- A code block, a control statement or a `try` statement: what is generated for it is code. -/
def Node.IsStatement : Node → Prop
  | .node .codeBlock _ _ (brace :: cs) =>
    (brace.isText = true ∧ (brace.tokenText = bytes "@\x7b" ∨ brace.tokenText = bytes "\x7b")) ∧
      EndsWith cs (bytes "\x7d") ∧ CodeNodes cs
  | .node (.codeControl _) _ _ (keyword :: cs) =>
    (keyword.isText = true ∧ ∃ w ∈ controlKeywords, keyword.tokenText = 64 :: w ∨ keyword.tokenText = w) ∧
      (childsText cs).head? ≠ some 58 ∧ CodeNodes cs
  | .node (.codeErr _) _ _ (keyword :: cs) =>
    (keyword.isText = true ∧ (keyword.tokenText = bytes "@try" ∨ keyword.tokenText = bytes "try")) ∧
      (∃ n ∈ cs, n.isBlock = true) ∧ CodeNodes cs
  | _ => False

/-- The text of a node without the delimiters `@\x7b` and `\x7d`, or the `@` of the keyword. -/
def Node.userCode (n : Node) : Bytes :=
  match n with
  | .node .codeBlock _ _ (brace :: _) =>
    if brace.tokenText = bytes "@\x7b" then (n.text.drop 2).dropLast else n.text
  | _ => if n.text.head? = some 64 then n.text.drop 1 else n.text

/-- The keyword of a control statement. -/
def Node.keyword : Node → Option Bytes
  | .node (.codeControl _) _ _ (keyword :: _) =>
    some (if keyword.tokenText.head? = some 64 then keyword.tokenText.drop 1 else keyword.tokenText)
  | _ => none

/-- No nested block or statement begins or ends in a word. -/
def Node.Apart (n : Node) : Prop := SeamsAll isFanWord [] n.parts

/-- There is no `try` statement, in the nested blocks and statements a second replacement changes nothing,
    and the keyword is no alias. -/
structure Node.Kept (doc : Document) (n : Node) : Prop where
  noTry : n.hasTry = false
  stable : StableAll isFanWord (fanKeyWord doc) n.inside
  keyword : ∀ w ∈ n.keyword, ∀ ii ∈ doc.inheritsItems, ii.aliasName ≠ w

section Statements

variable {env : GenEnv} {doc : Document} {ctx : GenCtx} {ps : List (Layered UInt8)} {hasTry : Bool}

/-- What is generated for inner texts, if nothing is left out and nothing is replaced twice. -/
theorem inside_kept (hwhole : WholeAll ps) (hseams : SeamsAll isFanWord [] ps)
    (hstable : StableAll isFanWord (fanKeyWord doc) ps) :
    replaceFanKeys doc (outAll isFanWord (fanKeyWord doc) ps) = replaceFanKeys doc (rawAll ps) :=
  replaceWords_outAll ps [] hseams hwhole hstable

/-- Where a brace is left out, the text is another one. -/
theorem noTry_of_count (hnames : ClassNames doc) (hcls : Qualified doc.nsclsName)
    (hitems : ∀ ii ∈ doc.inheritsItems, Qualified ii.nsclsName) (hpaths : doc.PlainPaths)
    (hloses : hasTry = true → LosesAny 123 ps)
    (heq : (replaceFanKeys doc (outAll isFanWord (fanKeyWord doc) ps)).count 123
      = (replaceFanKeys doc (rawAll ps)).count 123) : hasTry = false := by
  have hbrace := count_replaceFanKeys_brace hnames hcls hitems hpaths
  by_contra hnot
  have hless := (count_outAll_lost hbrace ps).2 (hloses (Bool.not_eq_false _ ▸ hnot))
  rw [hbrace, hbrace] at heq
  exact absurd heq (Nat.ne_of_lt hless)

/-- Where a second replacement changes something, the text is another one. -/
theorem stable_of_eq (hnames : ClassNames doc) (hcls : Qualified doc.nsclsName)
    (hitems : ∀ ii ∈ doc.inheritsItems, Qualified ii.nsclsName) (hpaths : doc.PlainPaths)
    (hwhole : WholeAll ps) (hseams : SeamsAll isFanWord [] ps)
    (heq : replaceFanKeys doc (outAll isFanWord (fanKeyWord doc) ps) = replaceFanKeys doc (rawAll ps)) :
    StableAll isFanWord (fanKeyWord doc) ps := by
  by_contra hnot
  have hmore := (count_outAll count_replaceFanKeys_le
    (count_replaceFanKeys_again hnames hcls hitems hpaths) ps [] hseams hwhole).2 hnot
  rw [List.nil_append, List.nil_append] at hmore
  exact absurd (congrArg (List.count 58) heq) (Nat.ne_of_gt hmore)

/-- The `@` of a keyword is no brace. -/
theorem count_userCode_try (en : ErrNode) (line col : Nat) (childs : List Node) :
    (Node.userCode (.node (.codeErr en) line col childs)).count 123 = (childsText childs).count 123 := by
  rw [Node.userCode]
  · rw [Node.text]
    cases childsText childs with
    | nil => rfl
    | cons c t =>
      split
      · next hhead =>
        cases hhead
        rfl
      · rfl
  · simp

theorem gen_text_iff {g : Gen} {a b : Bytes} (hg : g = .text a) : (∀ st, g st = .ok (b, st)) ↔ a = b := by
  rw [hg]
  constructor
  · intro h
    cases h ⟨0, 0⟩
    rfl
  · rintro rfl st
    rfl

variable (env doc ctx) in
/-- What is generated for a block, and the text of the user, between the same texts. -/
theorem block_written {line col : Nat} {brace : Node} {cs : List Node}
    (hn : (Node.node .codeBlock line col (brace :: cs)).IsStatement) :
    ∃ front back : Bytes,
      Node.gen env doc ctx (.node .codeBlock line col (brace :: cs))
        = .text (front ++ (replaceFanKeys doc (outAll isFanWord (fanKeyWord doc) (partsAll true cs)) ++ back)) ∧
      replaceFanKeys doc (Node.userCode (.node .codeBlock line col (brace :: cs)))
        = front ++ (replaceFanKeys doc (rawAll (partsAll true cs)) ++ back) := by
  obtain ⟨⟨htoken, hbrace⟩, hend, hcode⟩ := hn
  have hcodeGen : genCode env doc .cpp false true cs
      = .text (outAll isFanWord (fanKeyWord doc) (partsAll true cs)) := genCode_parts true cs false hcode
  have htext : Node.text (.node .codeBlock line col (brace :: cs))
      = brace.tokenText ++ (rawAll (partsAll true cs) ++ bytes "\x7d") := by
    rw [Node.text, childsText, ← tokenText_eq htoken, rawAll_partsInit cs hcode hend]
  rcases hbrace with hbrace | hbrace
  · refine ⟨[], [], ?_, ?_⟩
    · rw [Node.gen, if_pos hbrace, hcodeGen, gen_map_text, List.append_nil]
      rfl
    · have hdrop : (bytes "@\x7b" ++ (rawAll (partsAll true cs) ++ bytes "\x7d")).drop 2
          = rawAll (partsAll true cs) ++ bytes "\x7d" := rfl
      have hlast : (rawAll (partsAll true cs) ++ bytes "\x7d").dropLast = rawAll (partsAll true cs) :=
        List.dropLast_concat
      rw [Node.userCode, if_pos hbrace, htext, hbrace, hdrop, hlast, List.append_nil]
      rfl
  · have hplain : brace.tokenText ≠ bytes "@\x7b" := by
      rw [hbrace]
      decide
    refine ⟨bytes "\x7b", bytes "\x7d", ?_, ?_⟩
    · rw [Node.gen, if_neg hplain, if_pos hbrace, hcodeGen, gen_map_text, gen_append_text, gen_append_text,
        List.append_assoc]
    · have hfirst : Seam isFanWord (bytes "\x7b") (rawAll (partsAll true cs) ++ bytes "\x7d") := .inl (by decide)
      have hlast : Seam isFanWord (rawAll (partsAll true cs)) (bytes "\x7d") := .inr (by decide)
      rw [Node.userCode, if_neg hplain, htext, hbrace, replaceFanKeys, replaceWords_append hfirst,
        replaceWords_append hlast]
      rfl

/-- A keyword of a control statement. -/
theorem keyword_word {w : Bytes} (hw : w ∈ controlKeywords) :
    (w ≠ [] ∧ ∀ c ∈ w, isIdentChar c = true) ∧ w ∉ fanKeys ∧
      64 :: w ∈ ["@if", "@switch", "@while", "@for", "@do"].map bytes ∧
      w ∉ ["@if", "@switch", "@while", "@for", "@do"].map bytes := by
  have hident : (controlKeywords.all fun w => w.all isIdentChar) = true := by decide
  have hall : ∀ w ∈ controlKeywords, w ≠ [] ∧ w ∉ fanKeys ∧
      64 :: w ∈ ["@if", "@switch", "@while", "@for", "@do"].map bytes ∧
        w ∉ ["@if", "@switch", "@while", "@for", "@do"].map bytes := by
    decide
  obtain ⟨hne, hkeys⟩ := hall w hw
  exact ⟨⟨hne, List.all_eq_true.1 (List.all_eq_true.1 hident w hw)⟩, hkeys⟩

variable (env doc ctx) in
/-- What is generated for a control statement, and the text of the user. -/
theorem control_written {cn : ControlNode} {line col : Nat} {keyword : Node} {cs : List Node}
    (hn : (Node.node (.codeControl cn) line col (keyword :: cs)).IsStatement)
    (hapart : (Node.node (.codeControl cn) line col (keyword :: cs)).Apart) :
    ∃ w ∈ controlKeywords, Node.keyword (.node (.codeControl cn) line col (keyword :: cs)) = some w ∧
      Node.gen env doc ctx (.node (.codeControl cn) line col (keyword :: cs))
        = .text (w ++ replaceFanKeys doc (outAll isFanWord (fanKeyWord doc) (partsAll false cs))) ∧
      replaceFanKeys doc (Node.userCode (.node (.codeControl cn) line col (keyword :: cs)))
        = fanKeyWord doc w ++ replaceFanKeys doc (rawAll (partsAll false cs)) ∧
      Seam isFanWord w (rawAll (partsAll false cs)) := by
  obtain ⟨⟨htoken, w, hw, hkeyword⟩, -, hcode⟩ := hn
  obtain ⟨⟨hne, hident⟩, -, hat, hplain⟩ := keyword_word hw
  have hcodeGen : genCode env doc .cpp false false cs
      = .text (outAll isFanWord (fanKeyWord doc) (partsAll false cs)) := genCode_parts false cs false hcode
  have hword : ∀ c ∈ w, isFanWord c = true := fun c hc => fanWord_of_ident (hident c hc)
  have hseam : Seam isFanWord w (rawAll (partsAll false cs)) := by
    have hseam : Seam isFanWord ([] ++ keyword.tokenText) (rawAll (partsAll false cs)) := hapart.2.2.2.1.1
    rw [List.nil_append] at hseam
    rcases hkeyword with hkeyword | hkeyword
    · rw [hkeyword, ← List.singleton_append] at hseam
      exact hseam.of_append
    · rw [hkeyword] at hseam
      exact hseam
  have htext : Node.text (.node (.codeControl cn) line col (keyword :: cs))
      = keyword.tokenText ++ rawAll (partsAll false cs) := by
    rw [Node.text, childsText, ← tokenText_eq htoken, rawAll_partsAll cs hcode]
  have hno : w.head? ≠ some 64 := by
    intro hhead
    have hmem := List.mem_of_mem_head? hhead
    exact absurd (hident 64 hmem) (by decide)
  have hcodeText : Node.userCode (.node (.codeControl cn) line col (keyword :: cs))
      = w ++ rawAll (partsAll false cs) := by
    rw [Node.userCode]
    · rw [htext]
      rcases hkeyword with hkeyword | hkeyword
      · rw [hkeyword]
        rfl
      · obtain ⟨c, v, rfl⟩ := List.exists_cons_of_ne_nil hne
        rw [hkeyword, if_neg]
        exact hno
    · simp
  refine ⟨w, hw, ?_, ?_, ?_, hseam⟩
  · rw [Node.keyword]
    rcases hkeyword with hkeyword | hkeyword
    · rw [hkeyword]
      rfl
    · rw [hkeyword, if_neg hno]
  · rcases hkeyword with hkeyword | hkeyword
    · rw [Node.gen, hkeyword, if_pos (List.contains_iff_mem.2 hat), hcodeGen, gen_map_text, gen_append_text]
      rfl
    · have hlisted : w ∈ ["if", "switch", "while", "for", "do"].map bytes := hw
      rw [Node.gen, hkeyword, if_neg (mt List.contains_iff_mem.1 hplain),
        if_pos (List.contains_iff_mem.2 hlisted), hcodeGen, gen_map_text, gen_append_text]
  · rw [hcodeText, replaceFanKeys, replaceWords_append hseam, replaceWords_word hword hne]
    rfl

/-- The name of a class does not begin with a keyword and a sign that is no `:`. -/
theorem dropWhile_qualified {s : Bytes} (hs : ∀ c ∈ s, isIdentChar c = true ∨ c = 58) (hcolon : 58 ∈ s)
    (b : Bytes) : ∃ t, (s ++ b).dropWhile isFanWord = 58 :: t := by
  induction s with
  | nil => cases hcolon
  | cons c s ih =>
    rw [List.forall_mem_cons] at hs
    by_cases hc : c = 58
    · rw [hc]
      exact ⟨s ++ b, rfl⟩
    · have hword : isFanWord c = true := fanWord_of_ident (hs.1.resolve_right hc)
      have hrest : 58 ∈ s := (List.mem_cons.1 hcolon).resolve_left fun heq => hc heq.symm
      rw [List.cons_append, List.dropWhile_cons, if_pos hword]
      exact ih hs.2 hrest

/-- The keyword of a statement is written as it is, so it stays only if it is no alias. -/
theorem keyword_stays (hitems : ∀ ii ∈ doc.inheritsItems, Qualified ii.nsclsName) {w : Bytes}
    (hw : w ∈ controlKeywords) (hseam : Seam isFanWord w (rawAll ps)) (hcolon : (rawAll ps).head? ≠ some 58)
    (hwhole : WholeAll ps) {b : Bytes}
    (heq : w ++ replaceFanKeys doc (outAll isFanWord (fanKeyWord doc) ps) = fanKeyWord doc w ++ b) :
    ∀ ii ∈ doc.inheritsItems, ii.aliasName ≠ w := by
  obtain ⟨⟨hne, hident⟩, hkey, -⟩ := keyword_word hw
  have hword : ∀ c ∈ w, isFanWord c = true := fun c hc => fanWord_of_ident (hident c hc)
  intro ii hii halias
  have hcolons : ∀ ii ∈ doc.inheritsItems, 58 ∈ ii.nsclsName := by
    intro ii hii
    obtain ⟨ns, cls, heq, -, -⟩ := hitems ii hii
    rw [heq]
    exact List.mem_append_right _ (List.mem_append_left _ (by decide))
  obtain ⟨ii', hii', hname⟩ := fanKeyWord_alias hcolons hne hword hkey hii halias
  obtain ⟨t, ht⟩ := dropWhile_qualified (hitems ii' hii').char (hcolons ii' hii') b
  -- the text behind the keyword begins with a character that is neither of a word nor a `:`
  have hedges : SameEdges isFanWord (rawAll ps)
      (replaceFanKeys doc (outAll isFanWord (fanKeyWord doc) ps)) := (sameEdges_outAll ps hwhole).replace
  have hrest : (rawAll ps).head?.any isFanWord = false := by
    rcases hseam with hseam | hseam
    · obtain ⟨v, c, rfl⟩ : ∃ v c, w = v ++ [c] := by
        rcases List.eq_nil_or_concat w with rfl | ⟨v, c, rfl⟩
        · exact absurd rfl hne
        · exact ⟨v, c, List.concat_eq_append⟩
      rw [List.getLast?_concat, Option.any_some, hword c (by simp)] at hseam
      cases hseam
    · exact hseam
  rw [hname] at heq
  rw [← heq, List.dropWhile_append_of_pos hword] at ht
  cases hraw : rawAll ps with
  | nil =>
    rw [hedges.empty hraw] at ht
    cases ht
  | cons c s =>
    rw [hraw] at hrest hcolon
    obtain ⟨s', hs'⟩ := hedges.head c s hraw hrest
    have hc : isFanWord c = false := hrest
    rw [hs', List.dropWhile_cons, hc, if_neg Bool.false_ne_true] at ht
    cases ht
    exact hcolon rfl

end Statements

/-- **What is generated for a block or a statement is the text of the user with its keys and aliases
replaced, exactly if there is no `try` statement, a second replacement changes nothing in the nested blocks
and statements, and the keyword is no alias.** -/
theorem codeText_kept_iff (env : GenEnv) {docs : List Document} {doc doc' : Document}
    (hdocs : ∀ d ∈ docs, d.Accepted) (hdoc : doc.Accepted) (hinherit : doc.inherit docs = .ok doc')
    (ctx : GenCtx) {n : Node} (hn : n.IsStatement) (hapart : n.Apart) :
    (n.Kept doc' → ∀ st, n.gen env doc' ctx st = .ok (replaceFanKeys doc' n.userCode, st)) ∧
      (doc'.PlainPaths → (∀ st, n.gen env doc' ctx st = .ok (replaceFanKeys doc' n.userCode, st)) →
        n.Kept doc') := by
  obtain ⟨hnames, hcls, hitems⟩ := classNames_inherit hdocs hdoc hinherit
  match n, hn, hapart with
  | .node .codeBlock line col (brace :: cs), hn, hapart =>
    obtain ⟨front, back, hgen, hcode⟩ := block_written env doc' ctx hn
    have hseams : SeamsAll isFanWord [] (partsAll true cs) := hapart.2.2.1
    have hwhole := whole_partsAll true cs hn.2.2
    have hloses := loses_partsInit cs hn.2.2 hn.2.1
    have htry : Node.hasTry (.node .codeBlock line col (brace :: cs)) = anyTry cs := by
      cases brace with
      | token => rfl
      | node => cases hn.1.1
    rw [gen_text_iff hgen, hcode]
    constructor
    · intro hkept
      rw [inside_kept (hwhole (htry ▸ hkept.noTry)) hseams hkept.stable]
    · intro hpaths heq
      have hinside := List.append_cancel_right (List.append_cancel_left heq)
      have hno := noTry_of_count hnames hcls hitems hpaths hloses (congrArg (List.count 123) hinside)
      have hstable := stable_of_eq hnames hcls hitems hpaths (hwhole hno) hseams hinside
      exact ⟨htry.trans hno, hstable, fun w hw => (by cases hw)⟩
  | .node (.codeControl cn) line col (keyword :: cs), hn, hapart =>
    obtain ⟨w, hw, hkeyword, hgen, hcode, hseam⟩ :=
      control_written env doc' ctx hn hapart
    have hseams : SeamsAll isFanWord [] (partsAll false cs) := hapart.2.2.1
    have hwhole := whole_partsAll false cs hn.2.2
    have hloses := loses_partsAll cs hn.2.2
    have htry : Node.hasTry (.node (.codeControl cn) line col (keyword :: cs)) = anyTry cs := by
      cases keyword with
      | token => rfl
      | node => cases hn.1.1
    obtain ⟨⟨hne, hident⟩, hkey, -⟩ := keyword_word hw
    have hword : ∀ c ∈ w, isFanWord c = true := fun c hc => fanWord_of_ident (hident c hc)
    rw [gen_text_iff hgen, hcode]
    constructor
    · intro hkept
      rw [fanKeyWord_plain hne hword hkey (hkept.keyword w hkeyword),
        inside_kept (hwhole (htry ▸ hkept.noTry)) hseams hkept.stable]
    · intro hpaths heq
      have hcount := congrArg (List.count 123) heq
      rw [List.count_append, List.count_append, count_fanKeyWord_brace hnames hcls hitems hpaths hne hword]
        at hcount
      have hno := noTry_of_count hnames hcls hitems hpaths hloses (Nat.add_left_cancel hcount)
      have halias := keyword_stays hitems hw hseam
        (by rw [rawAll_partsAll cs hn.2.2]; exact hn.2.1) (hwhole hno) heq
      rw [fanKeyWord_plain hne hword hkey halias] at heq
      have hstable := stable_of_eq hnames hcls hitems hpaths (hwhole hno) hseams (List.append_cancel_left heq)
      refine ⟨htry.trans hno, hstable, fun v hv => ?_⟩
      rw [hkeyword] at hv
      cases hv
      exact halias
  | .node (.codeErr en) line col (keyword :: cs), hn, _ =>
    -- what is in the blocks of the statement is left out
    refine ⟨fun hkept => (by cases hkept.noTry), fun hpaths hgen => ?_⟩
    obtain ⟨⟨htoken, -⟩, ⟨m, hm, hblock⟩, hcode⟩ := hn
    have hkeyword : keyword.IsCode := by
      cases keyword with
      | token => trivial
      | node => cases htoken
    have hbrace := count_replaceFanKeys_brace hnames hcls hitems hpaths
    have hloses : LosesAny 123 (tryParts (keyword :: cs)) :=
      loses_tryParts ⟨m, List.mem_cons_of_mem _ hm, hblock⟩ ⟨hkeyword, hcode⟩
    have hless : (outAll isFanWord (fanKeyWord doc') (tryParts (keyword :: cs))).count 123
        < (rawAll (tryParts (keyword :: cs))).count 123 := (count_outAll_lost hbrace _).2 hloses
    have hwritten : tokenTexts (keyword :: cs)
        = replaceFanKeys doc' (Node.userCode (.node (.codeErr en) line col (keyword :: cs))) :=
      (gen_text_iff (by rw [Node.gen])).1 hgen
    rw [outAll_tryParts, rawAll_tryParts, hwritten, hbrace, count_userCode_try] at hless
    exact absurd hless (Nat.lt_irrefl _)

/-- A block with a statement in it, in which a name is an alias. -/
def aliasBlock : Node :=
  .node .codeBlock 1 1 [tokenNode "@\x7b", tokenNode " ",
    .node (.codeControl ⟨.codeIf, false, false, false, true⟩) 1 1 [tokenNode "if",
      .node (.expr .parens) 1 1 [tokenNode "(", tokenNode "a", tokenNode ")"],
      .node .codeBlock 1 1 [tokenNode "\x7b", tokenNode "header();", tokenNode "\x7d"], tokenNode " "],
    tokenNode "b();", tokenNode "\x7d"]

theorem aliasBlock_statement : aliasBlock.IsStatement := by
  have hinner : CodeNodes [tokenNode "header();", tokenNode "\x7d"] := ⟨trivial, trivial, trivial⟩
  have hblock : Node.IsCode (.node .codeBlock 1 1 [tokenNode "\x7b", tokenNode "header();", tokenNode "\x7d"]) :=
    ⟨⟨rfl, rfl⟩, ⟨[tokenNode "header();"], _, rfl, rfl⟩, hinner⟩
  have hexpr : Node.IsCode (.node (.expr .parens) 1 1 [tokenNode "(", tokenNode "a", tokenNode ")"]) :=
    ⟨List.cons_ne_nil _ _, trivial, trivial, trivial, trivial⟩
  have hif : Node.IsCode (.node (.codeControl ⟨.codeIf, false, false, false, true⟩) 1 1 [tokenNode "if",
      .node (.expr .parens) 1 1 [tokenNode "(", tokenNode "a", tokenNode ")"],
      .node .codeBlock 1 1 [tokenNode "\x7b", tokenNode "header();", tokenNode "\x7d"], tokenNode " "]) :=
    ⟨⟨rfl, by decide⟩, hexpr, hblock, trivial, trivial⟩
  exact ⟨⟨rfl, .inl rfl⟩, ⟨_, _, (rfl : _ = [_, _, _] ++ [_]), rfl⟩, trivial, hif, trivial, trivial, trivial⟩

theorem aliasBlock_apart : aliasBlock.Apart := by
  unfold Node.Apart
  decide

/-- What is generated for the block. -/
theorem codeText_kept_block :
    (aliasBlock.Kept headerDocFound → ∀ st, aliasBlock.gen plainGenEnv headerDocFound .literal st
        = .ok (replaceFanKeys headerDocFound aliasBlock.userCode, st)) ∧
      (headerDocFound.PlainPaths → (∀ st, aliasBlock.gen plainGenEnv headerDocFound .literal st
        = .ok (replaceFanKeys headerDocFound aliasBlock.userCode, st)) → aliasBlock.Kept headerDocFound) :=
  codeText_kept_iff plainGenEnv sampleDocs_accepted headerDoc_accepted headerDoc_inherit .literal
    aliasBlock_statement aliasBlock_apart

/-- The tokens of `@try\x7b1\x7dcatch(2)\x7b3\x7d4`. -/
def tryTokens : List Token :=
  [rootToken, ⟨bytes "@try", 1, 1, 0⟩, ⟨bytes "\x7b", 1, 5, 4⟩, ⟨bytes "1", 1, 0, 4⟩, ⟨bytes "\x7d", 1, 7, 6⟩,
    ⟨bytes "catch", 1, 8, 7⟩, ⟨bytes "(", 1, 13, 12⟩, ⟨bytes "2", 1, 0, 12⟩, ⟨bytes ")", 1, 15, 14⟩,
    ⟨bytes "\x7b", 1, 16, 15⟩, ⟨bytes "3", 1, 0, 15⟩, ⟨bytes "\x7d", 1, 18, 17⟩, ⟨bytes "4", 1, 0, 17⟩]

/-- The node of the statement. -/
def tryNode : Node :=
  .node (.codeErr ⟨false, false, true⟩) 1 5 [.token [⟨bytes "@try", 1, 1, 0⟩],
    .node .codeBlock 1 0 [.token [⟨bytes "\x7b", 1, 5, 4⟩], .token [⟨bytes "1", 1, 0, 4⟩],
      .token [⟨bytes "\x7d", 1, 7, 6⟩]],
    .token [⟨bytes "catch", 1, 8, 7⟩],
    .node (.expr .parens) 1 0 [.token [⟨bytes "(", 1, 13, 12⟩], .token [⟨bytes "2", 1, 0, 12⟩],
      .token [⟨bytes ")", 1, 15, 14⟩]],
    .node .codeBlock 1 0 [.token [⟨bytes "\x7b", 1, 16, 15⟩], .token [⟨bytes "3", 1, 0, 15⟩],
      .token [⟨bytes "\x7d", 1, 18, 17⟩]],
    .token [⟨bytes "4", 1, 0, 17⟩]]

theorem tryNode_statement : tryNode.IsStatement := by
  have hblock {t t' t'' : Token} (ht : t.text = bytes "\x7b") (ht'' : t''.text = bytes "\x7d")
      (line col : Nat) :
      Node.IsCode (.node .codeBlock line col [.token [t], .token [t'], .token [t'']]) := by
    have htext (t : Token) : listText [t] = t.text := List.append_nil _
    exact ⟨⟨rfl, (htext t).trans ht⟩, ⟨[.token [t']], [t''], rfl, (htext t'').trans ht''⟩,
      trivial, trivial, trivial⟩
  refine ⟨⟨rfl, .inl rfl⟩, ⟨_, List.mem_cons_self, rfl⟩, hblock rfl rfl 1 0, trivial,
    ⟨List.cons_ne_nil _ _, trivial, trivial, trivial, trivial⟩, hblock rfl rfl 1 0, trivial, trivial⟩

/-- Of `@try\x7b1\x7dcatch(2)\x7b3\x7d4` only `@trycatch4` is written. -/
theorem codeText_lost :
    ¬ ∀ (env : GenEnv) (docs : List Document) (doc doc' : Document), (∀ d ∈ docs, d.Accepted) → doc.Accepted →
      doc.inherit docs = .ok doc' →
      ∀ (text : Bytes) (r : RootNode), parse env.toFanEnv [] text = some (.ok r) →
      ∀ kind line col childs, r.child = .node kind line col childs → ∀ n ∈ childs, n.IsStatement →
      ∀ ctx st, n.gen env doc' ctx st = .ok (replaceFanKeys doc' n.userCode, st) := by
  intro hall
  let isHead (c : UInt8) : Bool := isNoLetter c || c = 99
  have htokens : tokenize (bytes "@try\x7b1\x7dcatch(2)\x7b3\x7d4") = tryTokens := by
    rw [tokenize_heads isHead (by decide +kernel)]
    decide +kernel
  have htree : (parse plainGenEnv.toFanEnv [] (bytes "@try\x7b1\x7dcatch(2)\x7b3\x7d4")).any (·.isTree fun r =>
      r.child = .node (.literal .literal (bytes "html") 0) 0 0 [tryNode]) = true := by
    rw [parse, htokens]
    decide +kernel
  obtain ⟨r, hparse, hr⟩ := exists_of_isTree htree
  have hgen := hall plainGenEnv _ _ _ sampleDocs_accepted headerDoc_accepted headerDoc_inherit _ r hparse
    _ _ _ _ (of_decide_eq_true hr) tryNode List.mem_cons_self tryNode_statement .literal
  have hwritten := (gen_text_iff (a := tokenTexts [.token [⟨bytes "@try", 1, 1, 0⟩], .token [⟨bytes "catch", 1, 8, 7⟩],
    .token [⟨bytes "4", 1, 0, 17⟩]]) (by rw [tryNode, Node.gen]; rfl)).1 hgen
  revert hwritten
  decide +kernel

end Fanjet

end LibEvmvc
