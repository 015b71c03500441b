import LibEvmvc.Foundation.Bytes

set_option autoImplicit false

/-! # The tokens of a template

`tokenizer::tokenize` cuts a fanjet template into tokens: at each place the longest entry of
`s_tokens` that stands there, and what lies between two entries as a token of its own. An entry that
reaches the end of the template is not recognised there. The list begins with a token without text.

No character is lost (`text_tokenize`), and no token but the first is without text. -/

namespace LibEvmvc

namespace Fanjet

/-- `token_t`, without its links: a list of tokens is a list. -/
structure Token where
  text : Bytes
  line : Nat
  col : Nat
  pos : Nat
  deriving DecidableEq, Repr

/-- `token_t::text(true)`: the text of a list of tokens. -/
def listText (ts : List Token) : Bytes := ts.flatMap Token.text

/-! ## The table -/

/-- The names of `is_html_void_tag`. -/
def htmlVoidTags : List String :=
  ["area", "base", "basefont", "bgsound", "br", "col", "command", "embed", "frame", "hr", "image",
  "img", "input", "isindex", "keygen", "link", "menuitem", "meta", "nextid", "param", "source",
  "track", "wbr"]

/-- The names of `is_html_tag`. -/
def htmlTags : List String :=
  ["a", "abbr", "acronym", "address", "applet", "area", "article", "aside", "audio", "b", "base",
  "basefont", "bdi", "bdo", "bgsound", "big", "blink", "blockquote", "body", "br", "button",
  "canvas", "caption", "center", "cite", "code", "col", "colgroup", "command", "content", "data",
  "datalist", "dd", "del", "details", "dfn", "dialog", "dir", "div", "dl", "dt", "element", "em",
  "embed", "fieldset", "figcaption", "figure", "font", "footer", "form", "frame", "frameset",
  "h1", "h2", "h3", "h4", "h5", "h6", "head", "header", "hgroup", "hr", "html", "i", "iframe",
  "image", "img", "input", "ins", "isindex", "kbd", "keygen", "label", "legend", "li", "link",
  "listing", "main", "map", "mark", "marquee", "math", "menu", "menuitem", "meta", "meter",
  "multicol", "nav", "nextid", "nobr", "noembed", "noframes", "noscript", "object", "ol",
  "optgroup", "option", "output", "p", "param", "picture", "plaintext", "pre", "progress", "q",
  "rb", "rbc", "rp", "rt", "rtc", "ruby", "s", "samp", "script", "section", "select", "shadow",
  "slot", "small", "source", "spacer", "span", "strike", "strong", "style", "sub", "summary",
  "sup", "svg", "table", "tbody", "td", "template", "textarea", "tfoot", "th", "thead", "time",
  "title", "tr", "track", "tt", "u", "ul", "var", "video", "wbr", "xmp"]

/-- The names of `is_mathml_tag`. -/
def mathmlTags : List String :=
  ["abs", "and", "annotation", "annotation-xml", "apply", "approx", "arccos", "arccosh", "arccot",
  "arccoth", "arccsc", "arccsch", "arcsec", "arcsech", "arcsin", "arcsinh", "arctan", "arctanh",
  "arg", "bind", "bvar", "card", "cartesianproduct", "cbytes", "ceiling", "cerror", "ci", "cn",
  "codomain", "complexes", "compose", "condition", "conjugate", "cos", "cosh", "cot", "coth",
  "cs", "csc", "csch", "csymbol", "curl", "declare", "degree", "determinant", "diff",
  "divergence", "divide", "domain", "domainofapplication", "emptyset", "encoding", "eq",
  "equivalent", "eulergamma", "exists", "exp", "exponentiale", "factorial", "factorof", "false",
  "floor", "fn", "forall", "function", "gcd", "geq", "grad", "gt", "ident", "image", "imaginary",
  "imaginaryi", "implies", "in", "infinity", "int", "integers", "intersect", "interval",
  "inverse", "lambda", "laplacian", "lcm", "leq", "limit", "list", "ln", "log", "logbase",
  "lowlimit", "lt", "maction", "malign", "maligngroup", "malignmark", "malignscope", "math",
  "matrix", "matrixrow", "max", "mean", "median", "menclose", "merror", "mfenced", "mfrac",
  "mfraction", "mglyph", "mi", "min", "minus", "mlabeledtr", "mlongdiv", "mmultiscripts", "mn",
  "mo", "mode", "moment", "momentabout", "mover", "mpadded", "mphantom", "mprescripts", "mroot",
  "mrow", "ms", "mscarries", "mscarry", "msgroup", "msline", "mspace", "msqrt", "msrow", "mstack",
  "mstyle", "msub", "msubsup", "msup", "mtable", "mtd", "mtext", "mtr", "munder", "munderover",
  "naturalnumbers", "neq", "none", "not", "notanumber", "notin", "notprsubset", "notsubset", "or",
  "otherwise", "outerproduct", "partialdiff", "pi", "piece", "piecewice", "piecewise", "plus",
  "power", "primes", "product", "prsubset", "quotient", "rationals", "real", "reals", "reln",
  "rem", "root", "scalarproduct", "sdev", "sec", "sech", "select", "selector", "semantics", "sep",
  "set", "setdiff", "share", "sin", "sinh", "span", "subset", "sum", "tan", "tanh", "tendsto",
  "times", "transpose", "true", "union", "uplimit", "var", "variance", "vector", "vectorproduct",
  "xor"]

/-- The names of `is_svg_tag`. -/
def svgTags : List String :=
  ["a", "altGlyph", "altGlyphDef", "altGlyphItem", "animate", "animateColor", "animateMotion",
  "animateTransform", "animation", "audio", "canvas", "circle", "clipPath", "color-profile",
  "cursor", "defs", "desc", "discard", "ellipse", "feBlend", "feColorMatrix",
  "feComponentTransfer", "feComposite", "feConvolveMatrix", "feDiffuseLighting",
  "feDisplacementMap", "feDistantLight", "feDropShadow", "feFlood", "feFuncA", "feFuncB",
  "feFuncG", "feFuncR", "feGaussianBlur", "feImage", "feMerge", "feMergeNode", "feMorphology",
  "feOffset", "fePointLight", "feSpecularLighting", "feSpotLight", "feTile", "feTurbulence",
  "filter", "font", "font-face", "font-face-format", "font-face-name", "font-face-src",
  "font-face-uri", "foreignObject", "g", "glyph", "glyphRef", "handler", "hatch", "hatchpath",
  "hkern", "iframe", "image", "line", "linearGradient", "listener", "marker", "mask", "mesh",
  "meshgradient", "meshpatch", "meshrow", "metadata", "missing-glyph", "mpath", "path", "pattern",
  "polygon", "polyline", "prefetch", "radialGradient", "rect", "script", "set", "solidColor",
  "solidcolor", "stop", "style", "svg", "switch", "symbol", "tbreak", "text", "textArea",
  "textPath", "title", "tref", "tspan", "unknown", "use", "video", "view", "vkern"]

/-- The keys of `s_tokens`. `#define@@` is one entry: there is no comma between the two literals. -/
def keyTokens : List String :=
  [" ", "//", "/*", "*/", "->", "(", ")", "\x7b", "\x7d", "</", "/>", "<=", ">=", "<", ">", "#if",
  "#else", "#endif", "#define@@", "@\x7b", "@\x7d", "@**", "@*", "*@", "@namespace", "@ns",
  "@path", "@name", "@layout", "@header", "@inherits", "@include", "@region", "@endregion", "@::",
  "@:", "@if", "else", "if", "@switch", "@while", "@for", "@do", "while", "@try", "catch", "try",
  "@funi", "@func", "@<", "@await", "@body", "@this", "@type", "@shared_type", "@filename",
  "@dirname", "@scripts", "@styles", "@(", "@>", "@set", "@get", "@fmt", "@get-raw", "@fmt-raw",
  "@import", "@script", "@style", "@add-section", "@write-section", "``````````", "`````````",
  "````````", "```````", "``````", "`````", "````", "```", "``", "~~~~~~~~~~", "~~~~~~~~~",
  "~~~~~~~~", "~~~~~~~", "~~~~~~", "~~~~~", "~~~~", "~~~", "~~", "\"", "'", "`", "\\", "\n", ";",
  "::", ":", ",", ".", "==", "!=", "!", "&&", "||", "=", "++", "--", "+", "-", "*", "/", "~", "&",
  "%", "|", "^", "return", "throw", "switch", "for", "do"]

/-- `tokenizer::s_tokens`. -/
def sTokens : List Bytes :=
  (keyTokens ++ ["<!DOCTYPE html>"] ++ htmlTags ++ mathmlTags ++ svgTags).map bytes

/-- The table in a form that is quick to evaluate. -/
def asciiTokens : List Bytes :=
  (keyTokens ++ ["<!DOCTYPE html>"] ++ htmlTags ++ mathmlTags ++ svgTags).map asciiBytes

theorem sTokens_ascii : sTokens = asciiTokens := by
  have hascii : ((keyTokens ++ ["<!DOCTYPE html>"] ++ htmlTags ++ mathmlTags ++ svgTags).all fun s =>
      (asciiBytes s).all fun b => decide (b < 128)) = true := by decide +kernel
  refine List.map_congr_left fun s hs => bytes_ascii fun b hb => ?_
  exact of_decide_eq_true (List.all_eq_true.1 (List.all_eq_true.1 hascii s hs) b hb)

/-! ## The tokenizer -/

/-- `tokenizer::is_alphanum`. -/
def isAlphanum (c : UInt8) : Bool :=
  (65 ≤ c && c ≤ 90) || (97 ≤ c && c ≤ 122) || (48 ≤ c && c ≤ 57) || c == 95

/-- `tokenizer::is_token`: `tok` stands at the beginning of `rest`, with at least one character behind
    it, and is not the beginning of a longer word. -/
def isToken (tok rest : Bytes) : Bool :=
  tok.length < rest.length && tok.isPrefixOf rest &&
    (!(tok.getLast?.any isAlphanum) || !(rest[tok.length]?.any isAlphanum)) &&
    !(tok = bytes "*@" && 3 < rest.length && (bytes "*@@").isPrefixOf rest)

/-- The longer one of two entries, if it stands there. -/
def pickToken (rest tval tok : Bytes) : Bytes :=
  if tval.length < tok.length && isToken tok rest then tok else tval

/-- The longest entry of a table at the beginning of `rest`, if there is one. -/
def findToken (toks : List Bytes) (rest : Bytes) : Option Bytes :=
  let tval := toks.foldl (pickToken rest) []
  if tval = [] then none else some tval

/-- The variables of the loop: the position, line and column it is at, the text since the last entry,
    and the position this text is given. -/
structure Lexer where
  i : Nat
  l : Nat
  c : Nat
  tmpText : Bytes
  tl : Nat
  tc : Nat
  ti : Nat

/-- The text since the last entry as a token. -/
def Lexer.flush (s : Lexer) : List Token :=
  if s.tmpText = [] then [] else [⟨s.tmpText, s.tl, s.tc, s.ti⟩]

/-- Behind an entry. -/
def Lexer.skip (s : Lexer) (tok : Bytes) : Lexer :=
  let l := if tok = bytes "\n" then s.l + 1 else s.l
  let i := s.i + tok.length - 1
  { i := i + 1, l, c := if tok = bytes "\n" then 1 else s.c + tok.length, tmpText := [], tl := l,
    tc := s.tc, ti := i }

/-- The loop over the characters, with the table it looks them up in. -/
def tokenizeLoop (toks : List Bytes) : Nat → Lexer → Bytes → List Token
  | 0, s, _ => s.flush
  | _ + 1, s, [] => s.flush
  | fuel + 1, s, ch :: rest =>
    match findToken toks (ch :: rest) with
    | some tok =>
      s.flush ++ ⟨tok, s.l, s.c, s.i⟩ ::
        tokenizeLoop toks fuel (s.skip tok) ((ch :: rest).drop tok.length)
    | none =>
      tokenizeLoop toks fuel { s with i := s.i + 1, c := s.c + 1, tmpText := s.tmpText ++ [ch] } rest

/-- The token every list begins with. -/
def rootToken : Token := ⟨[], 0, 0, 0⟩

/-- `tokenizer::tokenize`. -/
def tokenize (text : Bytes) : List Token :=
  rootToken :: tokenizeLoop sTokens text.length ⟨0, 1, 1, [], 0, 0, 0⟩ text

/-! ## Nothing is lost -/

section Lossless

variable {toks : List Bytes}

theorem listText_append (ts ts' : List Token) : listText (ts ++ ts') = listText ts ++ listText ts' :=
  List.flatMap_append ..

theorem listText_cons (t : Token) (ts : List Token) : listText (t :: ts) = t.text ++ listText ts :=
  List.flatMap_cons ..

theorem isToken_prefix {tok rest : Bytes} (h : isToken tok rest = true) : tok <+: rest := by
  unfold isToken at h
  simp only [Bool.and_eq_true] at h
  exact List.isPrefixOf_iff_prefix.1 h.1.1.2

theorem isToken_shorter {tok rest : Bytes} (h : isToken tok rest = true) : tok.length < rest.length := by
  unfold isToken at h
  simp only [Bool.and_eq_true, decide_eq_true_eq] at h
  exact h.1.1.1

theorem foldl_pickToken (rest : Bytes) (toks : List Bytes) (tval : Bytes)
    (h : tval = [] ∨ isToken tval rest = true) :
    toks.foldl (pickToken rest) tval = [] ∨ isToken (toks.foldl (pickToken rest) tval) rest = true := by
  induction toks generalizing tval with
  | nil => exact h
  | cons tok toks ih =>
    apply ih
    unfold pickToken
    split
    · next hcond =>
      rw [Bool.and_eq_true] at hcond
      exact .inr hcond.2
    · exact h

/-- An entry that is found stands there, and it is not empty. -/
theorem findToken_some {rest tok : Bytes} (h : findToken toks rest = some tok) :
    tok ≠ [] ∧ isToken tok rest = true := by
  unfold findToken at h
  simp only at h
  split at h
  · cases h
  · next hne =>
    cases h
    exact ⟨hne, (foldl_pickToken rest toks [] (.inl rfl)).resolve_left hne⟩

/-- What is behind an entry that is found. -/
theorem findToken_split {rest tok : Bytes} {fuel : Nat} (h : findToken toks rest = some tok)
    (hfuel : rest.length ≤ fuel + 1) :
    ∃ r, tok ++ r = rest ∧ rest.drop tok.length = r ∧ r.length ≤ fuel := by
  obtain ⟨hne, htok⟩ := findToken_some h
  obtain ⟨r, rfl⟩ := isToken_prefix htok
  have hpos := List.length_pos_iff.2 hne
  rw [List.length_append] at hfuel
  exact ⟨r, rfl, List.drop_left, by omega⟩

/-- No entry stands at the last character. -/
theorem findToken_last (c : UInt8) : findToken toks [c] = none := by
  cases h : findToken toks [c] with
  | none => rfl
  | some tok =>
    obtain ⟨hne, htok⟩ := findToken_some h
    have hlen := isToken_shorter htok
    exact absurd (List.length_eq_zero_iff.1 (Nat.lt_one_iff.1 hlen)) hne

/-- Only the entries that begin with the next character count. -/
theorem findToken_head (c : UInt8) (rest : Bytes) :
    findToken toks (c :: rest) = findToken (toks.filter fun tok => tok.head? = some c) (c :: rest) := by
  have hskip (tval tok : Bytes) (hhead : ¬ tok.head? = some c) : pickToken (c :: rest) tval tok = tval := by
    unfold pickToken
    rw [if_neg]
    rw [Bool.and_eq_true, decide_eq_true_eq]
    rintro ⟨hlen, htok⟩
    cases tok with
    | nil => exact absurd hlen (Nat.not_lt_zero _)
    | cons d tok =>
      obtain ⟨r, hr⟩ := isToken_prefix htok
      cases hr
      exact hhead rfl
  have hfold : ∀ tval, toks.foldl (pickToken (c :: rest)) tval
      = (toks.filter fun tok => tok.head? = some c).foldl (pickToken (c :: rest)) tval := by
    induction toks with
    | nil => exact fun tval => rfl
    | cons tok toks ih =>
      intro tval
      rw [List.filter_cons, List.foldl_cons]
      split
      · rw [List.foldl_cons, ih]
      · next hno => rw [hskip tval tok (by simpa using hno), ih]
  unfold findToken
  rw [hfold]

theorem Lexer.text_flush (s : Lexer) : listText s.flush = s.tmpText := by
  unfold Lexer.flush
  split
  · next h =>
    rw [h]
    rfl
  · rw [listText_cons]
    exact List.append_nil _

theorem text_tokenizeLoop (fuel : Nat) (s : Lexer) (rest : Bytes) (hfuel : rest.length ≤ fuel) :
    listText (tokenizeLoop toks fuel s rest) = s.tmpText ++ rest := by
  induction fuel generalizing s rest with
  | zero =>
    rw [List.length_eq_zero_iff.1 (Nat.le_zero.1 hfuel), tokenizeLoop, s.text_flush, List.append_nil]
  | succ fuel ih =>
    match rest with
    | [] => rw [tokenizeLoop, s.text_flush, List.append_nil]
    | ch :: rest =>
      rw [tokenizeLoop]
      cases hfind : findToken toks (ch :: rest) with
      | none =>
        show listText (tokenizeLoop toks fuel _ rest) = _
        rw [ih _ _ (Nat.le_of_succ_le_succ hfuel), List.append_assoc]
        rfl
      | some tok =>
        obtain ⟨r, hr, hdrop, hlen⟩ := findToken_split hfind hfuel
        show listText (s.flush ++ _ :: tokenizeLoop toks fuel _ _) = _
        rw [listText_append, s.text_flush, listText_cons, hdrop, ih _ _ hlen, ← hr]
        rfl

/-- **The texts of the tokens are the template.** -/
theorem text_tokenize (text : Bytes) : listText (tokenize text) = text := by
  rw [tokenize, listText_cons, text_tokenizeLoop _ _ _ (Nat.le_refl _)]
  rfl

theorem Lexer.mem_flush {s : Lexer} {t : Token} (h : t ∈ s.flush) : t.text ≠ [] ∧ t.line = s.tl := by
  unfold Lexer.flush at h
  split at h
  · cases h
  · next hne =>
    rw [List.mem_singleton.1 h]
    exact ⟨hne, rfl⟩

/-- No token of the loop is without text. -/
theorem tokenizeLoop_ne (fuel : Nat) (s : Lexer) (rest : Bytes) :
    ∀ t ∈ tokenizeLoop toks fuel s rest, t.text ≠ [] := by
  induction fuel generalizing s rest with
  | zero => exact fun t ht => (Lexer.mem_flush ht).1
  | succ fuel ih =>
    match rest with
    | [] => exact fun t ht => (Lexer.mem_flush ht).1
    | ch :: rest =>
      intro t ht
      rw [tokenizeLoop] at ht
      cases hfind : findToken toks (ch :: rest) with
      | none =>
        rw [hfind] at ht
        exact ih _ _ t ht
      | some tok =>
        rw [hfind] at ht
        rcases List.mem_append.1 ht with hflush | htail
        · exact (Lexer.mem_flush hflush).1
        · rcases List.mem_cons.1 htail with rfl | hrest
          · exact (findToken_some hfind).1
          · exact ih _ _ t hrest

/-- **No token but the first one is without text.** -/
theorem tokenize_ne (text : Bytes) : ∀ t ∈ (tokenize text).tail, t.text ≠ [] :=
  tokenizeLoop_ne _ _ _

theorem Lexer.one_le_skip {s : Lexer} (tok : Bytes) (hl : 1 ≤ s.l) :
    1 ≤ (s.skip tok).l ∧ 1 ≤ (s.skip tok).tl := by
  show 1 ≤ (if tok = bytes "\n" then s.l + 1 else s.l) ∧ 1 ≤ (if tok = bytes "\n" then s.l + 1 else s.l)
  split <;> omega

/-- The lines count from one on. -/
theorem tokenizeLoop_line (fuel : Nat) (s : Lexer) (rest : Bytes) (hl : 1 ≤ s.l) (htl : 1 ≤ s.tl) :
    ∀ t ∈ tokenizeLoop toks fuel s rest, 1 ≤ t.line := by
  have hflush {s : Lexer} (htl : 1 ≤ s.tl) : ∀ t ∈ s.flush, 1 ≤ t.line :=
    fun t ht => (Lexer.mem_flush ht).2.symm ▸ htl
  induction fuel generalizing s rest with
  | zero => exact hflush htl
  | succ fuel ih =>
    match rest with
    | [] => exact hflush htl
    | ch :: rest =>
      intro t ht
      rw [tokenizeLoop] at ht
      cases hfind : findToken toks (ch :: rest) with
      | none =>
        rw [hfind] at ht
        refine ih _ rest ?_ ?_ t ht
        · exact hl
        · exact htl
      | some tok =>
        rw [hfind] at ht
        obtain ⟨hl', htl'⟩ := Lexer.one_le_skip tok hl
        rcases List.mem_append.1 ht with hmem | htail
        · exact hflush htl t hmem
        · rcases List.mem_cons.1 htail with rfl | hrest
          · exact hl
          · exact ih _ _ hl' htl' t hrest

theorem Lexer.flush_tail (s : Lexer) (ts : List Token) : (s.flush ++ ts).tail <:+ ts := by
  unfold Lexer.flush
  split
  · exact List.tail_suffix ts
  · exact List.suffix_refl ts

/-- Only a text before the first entry has no line. -/
theorem tokenizeLoop_tail_line (fuel : Nat) (s : Lexer) (rest : Bytes) (hl : 1 ≤ s.l) :
    ∀ t ∈ (tokenizeLoop toks fuel s rest).tail, 1 ≤ t.line := by
  have hflush (s : Lexer) : ∀ t ∈ s.flush.tail, 1 ≤ t.line := by
    intro t ht
    have hmem := (s.flush_tail []).subset (s.flush.append_nil.symm ▸ ht)
    cases hmem
  induction fuel generalizing s rest with
  | zero => exact hflush s
  | succ fuel ih =>
    match rest with
    | [] => exact hflush s
    | ch :: rest =>
      intro t ht
      rw [tokenizeLoop] at ht
      cases hfind : findToken toks (ch :: rest) with
      | none =>
        rw [hfind] at ht
        refine ih _ rest ?_ t ht
        exact hl
      | some tok =>
        rw [hfind] at ht
        obtain ⟨hl', htl'⟩ := Lexer.one_le_skip tok hl
        rcases List.mem_cons.1 ((s.flush_tail _).subset ht) with rfl | hrest
        · exact hl
        · exact tokenizeLoop_line _ _ _ hl' htl' t hrest

/-- Only the first token and a text before the first entry have no line. -/
theorem tokenize_line (text : Bytes) : ∀ t ∈ (tokenize text).drop 2, 1 ≤ t.line := by
  intro t ht
  rw [tokenize, List.drop_succ_cons, List.drop_one] at ht
  exact tokenizeLoop_tail_line _ _ _ (Nat.le_refl 1) t ht

end Lossless

end Fanjet

end LibEvmvc
