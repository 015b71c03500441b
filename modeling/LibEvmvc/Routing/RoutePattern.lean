import LibEvmvc.Foundation.Regex

set_option autoImplicit false

/-! # Route paths

`route_t` translates the path it is registered with into a regular expression, segment by segment, and
matches URLs with it. The segments of a path are texts, parameters `:name`, optional parameters
`:[name]` and the wildcards `*` and `**`. An optional parameter opens a group that holds everything
after it, so it can only be left out together with what follows; every expression ends with
`($|\/$)`, which allows a `/` at the end of the URL.

PCRE and `evhttp_uridecode` are parameters. A path or a URL is a text: with `PCRE_UTF8` a character is
a code point. -/

namespace LibEvmvc

/-! ## Building the expression -/

/-- `route_t::route_seg`. -/
structure RouteSeg where
  segPath : Text
  rePattern : Text
  optional : Bool
  isParam : Bool
  paramName : Text
  deriving DecidableEq, Repr

/-- The first loop of `_build_route_re`: the segments of a path, with the current one so far. -/
def pathSegs : Text → Text → List Text
  | _, [] => []
  | cur, c :: rest =>
    if c = '/' ∨ rest = [] then
      let cur := if c ≠ '/' ∧ rest = [] then cur ++ [c] else cur
      if cur = [] then pathSegs cur rest else cur :: pathSegs [] rest
    else pathSegs (cur ++ [c]) rest

/-- A segment as the first loop makes it. -/
def routeSeg (cur : Text) : RouteSeg :=
  if cur.head? = some ':' then
    { segPath := cur, rePattern := [], optional := cur[1]? = some '[' && cur.getLast? = some ']',
      isParam := true, paramName := [] }
  else
    { segPath := cur, rePattern := [], optional := cur.head? = some '[' && cur.getLast? = some ']',
      isParam := false, paramName := [] }

/-- One character or more of a segment. -/
def segChars : Text := "[^\\/\\n]+".toList

/-- The name of a parameter and its expression, which may be given in parentheses. -/
def paramPattern (segPath : Text) : Text × Text :=
  if segPath.contains '(' then
    let name := segPath.takeWhile (· ≠ '(')
    let own := (segPath.dropWhile (· ≠ '(')).drop 1
    let pattern :=
      -- up to the last `)`, which closes the group
      if own.contains ')' then (own.reverse.dropWhile (· ≠ ')')).reverse
      -- a `)` before the `(`: the length wraps around, and everything is taken
      else if segPath.contains ')' then own
      else segChars ++ [')']
    (name, "(?<".toList ++ name ++ ['>'] ++ pattern)
  else (segPath, "(?<".toList ++ segPath ++ ['>'] ++ segChars ++ [')'])

/-- The second loop of `_build_route_re`, on one segment. -/
def finishSeg (rs : RouteSeg) : RouteSeg :=
  let path := if rs.isParam then rs.segPath.drop 1 else rs.segPath
  let path := if rs.optional then (path.drop 1).dropLast else path
  if rs.isParam then
    { rs with
      segPath := path
      paramName := (paramPattern path).1
      rePattern := (paramPattern path).2 }
  else
    { rs with
      segPath := path
      rePattern :=
        if path = ['*'] then segChars else if path = ['*', '*'] then ['.', '+'] else path }

/-- `route_t::_build_route_re` over the segments. -/
def buildSegs : List RouteSeg → Text
  | [] => []
  | rs :: segs =>
    if rs.optional then "($|\\/$|\\/".toList ++ rs.rePattern ++ buildSegs segs ++ [')']
    else "\\/".toList ++ rs.rePattern ++ buildSegs segs

/-- `route_t::_build_route_re`: the expression for a path, none for the empty one. -/
def buildRouteRe (routePath : Text) : Text :=
  if routePath = [] then []
  else
    let segs := pathSegs [] (if routePath.head? = some '/' then routePath.drop 1 else routePath)
    ['^'] ++ buildSegs (segs.map fun cur => finishSeg (routeSeg cur)) ++ "($|\\/$)".toList

/-! ## Matching a URL -/

/-- `PCRE_CASELESS`: when two characters are the same but for their case. A letter or digit is the
    same as neither a `/` nor a line break. -/
structure Caseless where
  same : Char → Char → Bool
  slash : ∀ c, c.isAlphanum = true → same c '/' = false
  lineBreak : ∀ c, c.isAlphanum = true → same c '\n' = false
  /-- `/` has no case -/
  slash_iff : ∀ c, same '/' c = true ↔ c = '/'

/-- PCRE and `evhttp_uridecode`. `exec` compiles an expression and matches a subject: each group of
    the expression with its name and the text it has matched. -/
structure Pcre where
  caseless : Caseless
  exec : Text → Text → Option (List (Option Text × Option Text))
  uridecode : Text → Text

/-- PCRE implements an expression. -/
def Pcre.Implements (pcre : Pcre) (r : Re) : Prop :=
  ∀ s, pcre.exec r.render s = r.exec pcre.caseless.same s

inductive MatchResult where
  | noMatch
  /-- `ovector` is too small -/
  | thrown
  | found (params : List (Text × Text))
  deriving DecidableEq, Repr

/-- The number of substrings `ovector` has room for, the whole match among them. -/
def maxSubstrings : Nat := 300 / 3

/-- The number of the last group that has matched. -/
def lastGroup (caps : List (Option Text × Option Text)) : Nat :=
  (caps.reverse.dropWhile fun g => g.2.isNone).length

/-- The alphabetical order. -/
def textLe : Text → Text → Bool
  | [], _ => true
  | _ :: _, [] => false
  | c :: t, d :: u => decide (c.toNat < d.toNat) || (c == d && textLe t u)

/-- `PCRE_INFO_NAMETABLE`: the named groups in alphabetical order, with what they have matched. -/
def nameTable (caps : List (Option Text × Option Text)) : List (Text × Text) :=
  (caps.filterMap fun g => g.1.map fun name => (name, g.2.getD [])).mergeSort
    fun a b => textLe a.1 b.1

/-- `route_t::match`. -/
def routeMatch (pcre : Pcre) (routePath value : Text) : MatchResult :=
  if buildRouteRe routePath = [] then .found []
  else
    match pcre.exec (buildRouteRe routePath) value with
    | none => .noMatch
    | some caps =>
      if maxSubstrings < lastGroup caps + 1 then .thrown
      else .found (((nameTable caps).filter fun p => p.2 ≠ []).map
        fun p => (p.1, pcre.uridecode p.2))

/-! ## The language of paths -/

/-- A segment of a path. -/
inductive RoutePart where
  | lit (t : Text)
  | param (name : Text)
  | opt (name : Text)
  /-- `*` -/
  | star
  /-- `**` -/
  | stars
  deriving DecidableEq, Repr

namespace RoutePart

/-- A segment as it is written. -/
def text : RoutePart → Text
  | .lit t => t
  | .param name => ':' :: name
  | .opt name => ':' :: '[' :: (name ++ [']'])
  | .star => ['*']
  | .stars => ['*', '*']

def name? : RoutePart → Option Text
  | .param name | .opt name => some name
  | _ => none

def isOpt : RoutePart → Bool
  | .opt _ => true
  | _ => false

/-- A name that PCRE accepts for a group. -/
structure IsName (name : Text) : Prop where
  ne_nil : name ≠ []
  chars : ∀ c ∈ name, c.isAlphanum = true ∨ c = '_'
  head : ∀ c ∈ name.head?, c.isDigit = false
  length : name.length ≤ 32

/-- A literal has letters and digits only, a parameter a name. -/
def Ok : RoutePart → Prop
  | .lit t => t ≠ [] ∧ ∀ c ∈ t, c.isAlphanum = true
  | .param name | .opt name => IsName name
  | .star | .stars => True

end RoutePart

/-- Optional parameters, and at most one wildcard after them. -/
def TrailingParts : List RoutePart → Prop
  | [] | [.star] | [.stars] => True
  | .opt _ :: ps => TrailingParts ps
  | _ => False

/-- The shape of a path: literals and parameters, then what may be left out. -/
def ShapedParts : List RoutePart → Prop
  | .lit _ :: ps | .param _ :: ps => ShapedParts ps
  | ps => TrailingParts ps

/-- `routePath` is a path with the given segments. -/
structure RoutePath (ps : List RoutePart) (routePath : Text) : Prop where
  ne_nil : routePath ≠ []
  pieces : (routePath.splitOn '/').filter (· ≠ []) = ps.map RoutePart.text
  ok : ∀ p ∈ ps, p.Ok
  shaped : ShapedParts ps
  names : (ps.filterMap RoutePart.name?).Nodup

/-! ## The expression of a path -/

def litRe : Text → Re
  | [] => .empty
  | c :: t => .seq (.one (.chr c)) (litRe t)

def slashRe : Re := .one (.chr '/')

def segRe : Re := .many (.notIn ['/', '\n'])

/-- `$|\/$` -/
def endRe : Re := .alt .eol (.seq slashRe .eol)

def RoutePart.re : RoutePart → Re
  | .lit t => litRe t
  | .param name | .opt name => .group (some name) segRe
  | .star => segRe
  | .stars => .many .dot

/-- The expression of a list of segments. -/
def partsRe : List RoutePart → Re
  | [] => .empty
  | .opt name :: ps =>
    .group none (.alt .eol (.alt (.seq slashRe .eol)
      (.seq slashRe (.seq (RoutePart.opt name).re (partsRe ps)))))
  | p :: ps => .seq slashRe (.seq p.re (partsRe ps))

/-- The expression of a path. -/
def routeRe (ps : List RoutePart) : Re := .seq .bol (.seq (partsRe ps) (.group none endRe))

/-! ## The expression that is built is the one of the path -/

section Rendering

theorem render_litRe {t : Text} (h : ∀ c ∈ t, c.isAlphanum = true) : (litRe t).render = t := by
  induction t with
  | nil => rfl
  | cons c t ih =>
    have hc : escape c = [c] := if_pos (h c List.mem_cons_self)
    show escape c ++ (litRe t).render = _
    rw [hc, ih fun d hd => h d (List.mem_cons_of_mem _ hd)]
    rfl

/-- The first loop finds the pieces between the `/` that are not empty. -/
theorem pathSegs_eq (cur s : Text) (h : s ≠ [] ∨ cur = []) :
    pathSegs cur s = (List.splitOnPPrepend (· == '/') s cur.reverse).filter (· ≠ []) := by
  induction s generalizing cur with
  | nil =>
    obtain rfl : cur = [] := h.resolve_left (by simp)
    rfl
  | cons c rest ih =>
    unfold pathSegs
    by_cases hslash : c = '/'
    · subst hslash
      rw [List.splitOnPPrepend_cons_pos (by simp), List.reverse_reverse, List.filter_cons,
        if_pos (.inl rfl)]
      simp only [ne_eq, not_true_eq_false, false_and, if_false, decide_not, Bool.not_eq_true',
        decide_eq_false_iff_not]
      by_cases hcur : cur = []
      · subst hcur
        simpa using ih [] (.inr rfl)
      · simp only [hcur, if_false, not_false_eq_true, if_true]
        simpa using ih [] (.inr rfl)
    · rw [List.splitOnPPrepend_cons_neg (by simp [hslash])]
      by_cases hrest : rest = []
      · subst hrest
        simp [hslash, pathSegs]
      · rw [if_neg (by simp [hslash, hrest]), ih (cur ++ [c]) (.inl hrest)]
        simp

/-- A leading `/` does not matter. -/
theorem pathSegs_path {routePath : Text} :
    pathSegs [] (if routePath.head? = some '/' then routePath.drop 1 else routePath)
      = (routePath.splitOn '/').filter (· ≠ []) := by
  have hall : ∀ s : Text, pathSegs [] s = (s.splitOn '/').filter (· ≠ []) :=
    fun s => pathSegs_eq [] s (.inr rfl)
  rw [hall]
  cases routePath with
  | nil => rfl
  | cons c rest =>
    by_cases hc : c = '/'
    · subst hc
      rw [List.splitOn_cons_eq_if_modifyHead]
      simp
    · simp [hc]

theorem isName_chars {name : Text} (h : RoutePart.IsName name) {c : Char}
    (hc : c.isAlphanum = false) (hc' : c ≠ '_') : c ∉ name := by
  intro hmem
  rcases h.chars c hmem with halnum | hunder
  · rw [hc] at halnum
    cases halnum
  · exact hc' hunder

theorem paramPattern_name {name : Text} (h : RoutePart.IsName name) :
    (paramPattern name).2 = (Re.group (some name) segRe).render := by
  have hnot : '(' ∉ name := isName_chars h rfl (by decide)
  have hparen : name.contains '(' = false := by
    rw [List.contains_eq_mem, decide_eq_false hnot]
  have hopen : "(?<".toList = ['(', '?', '<'] := by decide
  have hseg : segRe.render = segChars := by decide
  unfold paramPattern
  rw [if_neg (by rw [hparen]; exact Bool.false_ne_true), Re.render, hopen, hseg]

/-- Each segment is taken for what it is, and gets its expression. -/
theorem finishSeg_routeSeg {p : RoutePart} (h : p.Ok) :
    (finishSeg (routeSeg p.text)).rePattern = p.re.render ∧
      (finishSeg (routeSeg p.text)).optional = p.isOpt := by
  cases p with
  | star => decide
  | stars => decide
  | lit t =>
    obtain ⟨hne, hall⟩ := h
    obtain ⟨c, t, rfl⟩ := List.exists_cons_of_ne_nil hne
    have hc : ∀ d : Char, d.isAlphanum = false → c ≠ d := by
      rintro d hd rfl
      rw [hall c List.mem_cons_self] at hd
      cases hd
    have hcolon := hc ':' rfl
    have hbracket := hc '[' rfl
    have hstar := hc '*' rfl
    have hseg : routeSeg (c :: t)
        = { segPath := c :: t, rePattern := [], optional := false, isParam := false,
            paramName := [] } := by
      simp [routeSeg, hcolon, hbracket]
    have hre : (RoutePart.lit (c :: t)).re.render = c :: t := render_litRe hall
    rw [hre, RoutePart.text, hseg]
    simp [finishSeg, hstar, RoutePart.isOpt]
  | param name =>
    have hbracket : '[' ∉ name := isName_chars h rfl (by decide)
    have hseg : routeSeg (':' :: name)
        = { segPath := ':' :: name, rePattern := [], optional := false, isParam := true,
            paramName := [] } := by
      have hnot : name[0]? ≠ some '[' := fun heq => hbracket (List.mem_of_getElem? heq)
      simp [routeSeg, hnot]
    rw [RoutePart.text, hseg]
    exact ⟨paramPattern_name h, rfl⟩
  | opt name =>
    have hseg : routeSeg (':' :: '[' :: (name ++ [']']))
        = { segPath := ':' :: '[' :: (name ++ [']']), rePattern := [], optional := true,
            isParam := true, paramName := [] } := by
      have hlast : (':' :: '[' :: (name ++ [']'])).getLast? = some ']' := by
        rw [show ':' :: '[' :: (name ++ [']']) = (':' :: '[' :: name) ++ [']'] from rfl,
          List.getLast?_concat]
      simp [routeSeg, hlast]
    rw [RoutePart.text, hseg]
    refine ⟨?_, rfl⟩
    show (paramPattern ((name ++ [']']).dropLast)).2 = _
    rw [List.dropLast_concat]
    exact paramPattern_name h

theorem buildSegs_eq {ps : List RoutePart} (h : ∀ p ∈ ps, p.Ok) :
    buildSegs (ps.map fun p => finishSeg (routeSeg p.text)) = (partsRe ps).render := by
  induction ps with
  | nil => rfl
  | cons p ps ih =>
    obtain ⟨hpattern, hoptional⟩ := finishSeg_routeSeg (h p List.mem_cons_self)
    have ih := ih fun q hq => h q (List.mem_cons_of_mem _ hq)
    have hslash : slashRe.render = ['\\', '/'] := rfl
    rw [List.map_cons, buildSegs, hpattern, hoptional, ih]
    cases p with
    | opt name => simp [RoutePart.isOpt, partsRe, Re.render, hslash]
    | lit t => simp [RoutePart.isOpt, partsRe, Re.render, hslash]
    | param name => simp [RoutePart.isOpt, partsRe, Re.render, hslash]
    | star => simp [RoutePart.isOpt, partsRe, Re.render, hslash]
    | stars => simp [RoutePart.isOpt, partsRe, Re.render, hslash]

/-- **The expression built for a path is the one its segments stand for.** -/
theorem buildRouteRe_eq {ps : List RoutePart} {routePath : Text} (h : RoutePath ps routePath) :
    buildRouteRe routePath = (routeRe ps).render := by
  have hsegs : ((ps.map RoutePart.text).map fun cur => finishSeg (routeSeg cur))
      = ps.map fun p => finishSeg (routeSeg p.text) := List.map_map
  unfold buildRouteRe
  rw [if_neg h.ne_nil]
  simp only [pathSegs_path, h.pieces]
  rw [hsegs, buildSegs_eq h.ok]
  simp [routeRe, Re.render, endRe, slashRe, CharSet.render, escape]

end Rendering

end LibEvmvc
