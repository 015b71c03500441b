import LibEvmvc.Foundation.Bytes

set_option autoImplicit false

/-! # Named characters

The table of `html_unescape`: the name of an entity and the code points it stands for. The names are
sorted without regard to case. -/

namespace LibEvmvc

set_option maxRecDepth 20000 in
/-- `html_entities`. -/
def htmlEntities : List (String × List Nat) :=
  [("Aacute", [0xc1]), ("aacute", [0xe1]), ("Abreve", [0x102]), ("abreve", [0x103]), ("ac", [0x223e]),
   ("acd", [0x223f]), ("acE", [0x223e, 0x333]), ("Acirc", [0xc2]), ("acirc", [0xe2]), ("acute", [0xb4]),
   ("Acy", [0x410]), ("acy", [0x430]), ("AElig", [0xc6]), ("aelig", [0xe6]), ("af", [0x2061]),
   ("Afr", [0x1d504]), ("afr", [0x1d51e]), ("Agrave", [0xc0]), ("agrave", [0xe0]),
   ("alefsym", [0x2135]), ("aleph", [0x2135]), ("Alpha", [0x391]), ("alpha", [0x3b1]),
   ("Amacr", [0x100]), ("amacr", [0x101]), ("amalg", [0x2a3f]), ("AMP", [0x26]), ("amp", [0x26]),
   ("And", [0x2a53]), ("and", [0x2227]), ("andand", [0x2a55]), ("andd", [0x2a5c]),
   ("andslope", [0x2a58]), ("andv", [0x2a5a]), ("ang", [0x2220]), ("ange", [0x29a4]),
   ("angle", [0x2220]), ("angmsd", [0x2221]), ("angmsdaa", [0x29a8]), ("angmsdab", [0x29a9]),
   ("angmsdac", [0x29aa]), ("angmsdad", [0x29ab]), ("angmsdae", [0x29ac]), ("angmsdaf", [0x29ad]),
   ("angmsdag", [0x29ae]), ("angmsdah", [0x29af]), ("angrt", [0x221f]), ("angrtvb", [0x22be]),
   ("angrtvbd", [0x299d]), ("angsph", [0x2222]), ("angst", [0xc5]), ("angzarr", [0x237c]),
   ("Aogon", [0x104]), ("aogon", [0x105]), ("Aopf", [0x1d538]), ("aopf", [0x1d552]), ("ap", [0x2248]),
   ("apacir", [0x2a6f]), ("apE", [0x2a70]), ("ape", [0x224a]), ("apid", [0x224b]), ("apos", [0x27]),
   ("ApplyFunction", [0x2061]), ("approx", [0x2248]), ("approxeq", [0x224a]), ("Aring", [0xc5]),
   ("aring", [0xe5]), ("Ascr", [0x1d49c]), ("ascr", [0x1d4b6]), ("Assign", [0x2254]), ("ast", [0x2a]),
   ("asymp", [0x2248]), ("asympeq", [0x224d]), ("Atilde", [0xc3]), ("atilde", [0xe3]), ("Auml", [0xc4]),
   ("auml", [0xe4]), ("awconint", [0x2233]), ("awint", [0x2a11]), ("backcong", [0x224c]),
   ("backepsilon", [0x3f6]), ("backprime", [0x2035]), ("backsim", [0x223d]), ("backsimeq", [0x22cd]),
   ("Backslash", [0x2216]), ("Barv", [0x2ae7]), ("barvee", [0x22bd]), ("Barwed", [0x2306]),
   ("barwed", [0x2305]), ("barwedge", [0x2305]), ("bbrk", [0x23b5]), ("bbrktbrk", [0x23b6]),
   ("bcong", [0x224c]), ("Bcy", [0x411]), ("bcy", [0x431]), ("bdquo", [0x201e]), ("becaus", [0x2235]),
   ("Because", [0x2235]), ("because", [0x2235]), ("bemptyv", [0x29b0]), ("bepsi", [0x3f6]),
   ("bernou", [0x212c]), ("Bernoullis", [0x212c]), ("Beta", [0x392]), ("beta", [0x3b2]),
   ("beth", [0x2136]), ("between", [0x226c]), ("Bfr", [0x1d505]), ("bfr", [0x1d51f]),
   ("bigcap", [0x22c2]), ("bigcirc", [0x25ef]), ("bigcup", [0x22c3]), ("bigodot", [0x2a00]),
   ("bigoplus", [0x2a01]), ("bigotimes", [0x2a02]), ("bigsqcup", [0x2a06]), ("bigstar", [0x2605]),
   ("bigtriangledown", [0x25bd]), ("bigtriangleup", [0x25b3]), ("biguplus", [0x2a04]),
   ("bigvee", [0x22c1]), ("bigwedge", [0x22c0]), ("bkarow", [0x290d]), ("blacklozenge", [0x29eb]),
   ("blacksquare", [0x25aa]), ("blacktriangle", [0x25b4]), ("blacktriangledown", [0x25be]),
   ("blacktriangleleft", [0x25c2]), ("blacktriangleright", [0x25b8]), ("blank", [0x2423]),
   ("blk12", [0x2592]), ("blk14", [0x2591]), ("blk34", [0x2593]), ("block", [0x2588]),
   ("bne", [0x3d, 0x20e5]), ("bnequiv", [0x2261, 0x20e5]), ("bNot", [0x2aed]), ("bnot", [0x2310]),
   ("Bopf", [0x1d539]), ("bopf", [0x1d553]), ("bot", [0x22a5]), ("bottom", [0x22a5]),
   ("bowtie", [0x22c8]), ("boxbox", [0x29c9]), ("boxDL", [0x2557]), ("boxDl", [0x2556]),
   ("boxdL", [0x2555]), ("boxdl", [0x2510]), ("boxDR", [0x2554]), ("boxDr", [0x2553]),
   ("boxdR", [0x2552]), ("boxdr", [0x250c]), ("boxH", [0x2550]), ("boxh", [0x2500]),
   ("boxHD", [0x2566]), ("boxHd", [0x2564]), ("boxhD", [0x2565]), ("boxhd", [0x252c]),
   ("boxHU", [0x2569]), ("boxHu", [0x2567]), ("boxhU", [0x2568]), ("boxhu", [0x2534]),
   ("boxminus", [0x229f]), ("boxplus", [0x229e]), ("boxtimes", [0x22a0]), ("boxUL", [0x255d]),
   ("boxUl", [0x255c]), ("boxuL", [0x255b]), ("boxul", [0x2518]), ("boxUR", [0x255a]),
   ("boxUr", [0x2559]), ("boxuR", [0x2558]), ("boxur", [0x2514]), ("boxV", [0x2551]),
   ("boxv", [0x2502]), ("boxVH", [0x256c]), ("boxVh", [0x256b]), ("boxvH", [0x256a]),
   ("boxvh", [0x253c]), ("boxVL", [0x2563]), ("boxVl", [0x2562]), ("boxvL", [0x2561]),
   ("boxvl", [0x2524]), ("boxVR", [0x2560]), ("boxVr", [0x255f]), ("boxvR", [0x255e]),
   ("boxvr", [0x251c]), ("bprime", [0x2035]), ("Breve", [0x2d8]), ("breve", [0x2d8]),
   ("brvbar", [0xa6]), ("Bscr", [0x212c]), ("bscr", [0x1d4b7]), ("bsemi", [0x204f]), ("bsim", [0x223d]),
   ("bsime", [0x22cd]), ("bsol", [0x5c]), ("bsolb", [0x29c5]), ("bsolhsub", [0x27c8]),
   ("bull", [0x2022]), ("bullet", [0x2022]), ("bump", [0x224e]), ("bumpE", [0x2aae]),
   ("bumpe", [0x224f]), ("Bumpeq", [0x224e]), ("bumpeq", [0x224f]), ("Cacute", [0x106]),
   ("cacute", [0x107]), ("Cap", [0x22d2]), ("cap", [0x2229]), ("capand", [0x2a44]),
   ("capbrcup", [0x2a49]), ("capcap", [0x2a4b]), ("capcup", [0x2a47]), ("capdot", [0x2a40]),
   ("CapitalDifferentialD", [0x2145]), ("caps", [0x2229, 0xfe00]), ("caret", [0x2041]),
   ("caron", [0x2c7]), ("Cayleys", [0x212d]), ("ccaps", [0x2a4d]), ("Ccaron", [0x10c]),
   ("ccaron", [0x10d]), ("Ccedil", [0xc7]), ("ccedil", [0xe7]), ("Ccirc", [0x108]), ("ccirc", [0x109]),
   ("Cconint", [0x2230]), ("ccups", [0x2a4c]), ("ccupssm", [0x2a50]), ("Cdot", [0x10a]),
   ("cdot", [0x10b]), ("cedil", [0xb8]), ("Cedilla", [0xb8]), ("cemptyv", [0x29b2]), ("cent", [0xa2]),
   ("CenterDot", [0xb7]), ("centerdot", [0xb7]), ("Cfr", [0x212d]), ("cfr", [0x1d520]),
   ("CHcy", [0x427]), ("chcy", [0x447]), ("check", [0x2713]), ("checkmark", [0x2713]), ("Chi", [0x3a7]),
   ("chi", [0x3c7]), ("cir", [0x25cb]), ("circ", [0x2c6]), ("circeq", [0x2257]),
   ("circlearrowleft", [0x21ba]), ("circlearrowright", [0x21bb]), ("circledast", [0x229b]),
   ("circledcirc", [0x229a]), ("circleddash", [0x229d]), ("CircleDot", [0x2299]), ("circledR", [0xae]),
   ("circledS", [0x24c8]), ("CircleMinus", [0x2296]), ("CirclePlus", [0x2295]),
   ("CircleTimes", [0x2297]), ("cirE", [0x29c3]), ("cire", [0x2257]), ("cirfnint", [0x2a10]),
   ("cirmid", [0x2aef]), ("cirscir", [0x29c2]), ("ClockwiseContourIntegral", [0x2232]),
   ("CloseCurlyDoubleQuote", [0x201d]), ("CloseCurlyQuote", [0x2019]), ("clubs", [0x2663]),
   ("clubsuit", [0x2663]), ("Colon", [0x2237]), ("colon", [0x3a]), ("Colone", [0x2a74]),
   ("colone", [0x2254]), ("coloneq", [0x2254]), ("comma", [0x2c]), ("commat", [0x40]),
   ("comp", [0x2201]), ("compfn", [0x2218]), ("complement", [0x2201]), ("complexes", [0x2102]),
   ("cong", [0x2245]), ("congdot", [0x2a6d]), ("Congruent", [0x2261]), ("Conint", [0x222f]),
   ("conint", [0x222e]), ("ContourIntegral", [0x222e]), ("Copf", [0x2102]), ("copf", [0x1d554]),
   ("coprod", [0x2210]), ("Coproduct", [0x2210]), ("COPY", [0xa9]), ("copy", [0xa9]),
   ("copysr", [0x2117]), ("CounterClockwiseContourIntegral", [0x2233]), ("crarr", [0x21b5]),
   ("Cross", [0x2a2f]), ("cross", [0x2717]), ("Cscr", [0x1d49e]), ("cscr", [0x1d4b8]),
   ("csub", [0x2acf]), ("csube", [0x2ad1]), ("csup", [0x2ad0]), ("csupe", [0x2ad2]),
   ("ctdot", [0x22ef]), ("cudarrl", [0x2938]), ("cudarrr", [0x2935]), ("cuepr", [0x22de]),
   ("cuesc", [0x22df]), ("cularr", [0x21b6]), ("cularrp", [0x293d]), ("Cup", [0x22d3]),
   ("cup", [0x222a]), ("cupbrcap", [0x2a48]), ("CupCap", [0x224d]), ("cupcap", [0x2a46]),
   ("cupcup", [0x2a4a]), ("cupdot", [0x228d]), ("cupor", [0x2a45]), ("cups", [0x222a, 0xfe00]),
   ("curarr", [0x21b7]), ("curarrm", [0x293c]), ("curlyeqprec", [0x22de]), ("curlyeqsucc", [0x22df]),
   ("curlyvee", [0x22ce]), ("curlywedge", [0x22cf]), ("curren", [0xa4]), ("curvearrowleft", [0x21b6]),
   ("curvearrowright", [0x21b7]), ("cuvee", [0x22ce]), ("cuwed", [0x22cf]), ("cwconint", [0x2232]),
   ("cwint", [0x2231]), ("cylcty", [0x232d]), ("Dagger", [0x2021]), ("dagger", [0x2020]),
   ("daleth", [0x2138]), ("Darr", [0x21a1]), ("dArr", [0x21d3]), ("darr", [0x2193]), ("dash", [0x2010]),
   ("Dashv", [0x2ae4]), ("dashv", [0x22a3]), ("dbkarow", [0x290f]), ("dblac", [0x2dd]),
   ("Dcaron", [0x10e]), ("dcaron", [0x10f]), ("Dcy", [0x414]), ("dcy", [0x434]), ("DD", [0x2145]),
   ("dd", [0x2146]), ("ddagger", [0x2021]), ("ddarr", [0x21ca]), ("DDotrahd", [0x2911]),
   ("ddotseq", [0x2a77]), ("deg", [0xb0]), ("Del", [0x2207]), ("Delta", [0x394]), ("delta", [0x3b4]),
   ("demptyv", [0x29b1]), ("dfisht", [0x297f]), ("Dfr", [0x1d507]), ("dfr", [0x1d521]),
   ("dHar", [0x2965]), ("dharl", [0x21c3]), ("dharr", [0x21c2]), ("DiacriticalAcute", [0xb4]),
   ("DiacriticalDot", [0x2d9]), ("DiacriticalDoubleAcute", [0x2dd]), ("DiacriticalGrave", [0x60]),
   ("DiacriticalTilde", [0x2dc]), ("diam", [0x22c4]), ("Diamond", [0x22c4]), ("diamond", [0x22c4]),
   ("diamondsuit", [0x2666]), ("diams", [0x2666]), ("die", [0xa8]), ("DifferentialD", [0x2146]),
   ("digamma", [0x3dd]), ("disin", [0x22f2]), ("div", [0xf7]), ("divide", [0xf7]),
   ("divideontimes", [0x22c7]), ("divonx", [0x22c7]), ("DJcy", [0x402]), ("djcy", [0x452]),
   ("dlcorn", [0x231e]), ("dlcrop", [0x230d]), ("dollar", [0x24]), ("Dopf", [0x1d53b]),
   ("dopf", [0x1d555]), ("Dot", [0xa8]), ("dot", [0x2d9]), ("DotDot", [0x20dc]), ("doteq", [0x2250]),
   ("doteqdot", [0x2251]), ("DotEqual", [0x2250]), ("dotminus", [0x2238]), ("dotplus", [0x2214]),
   ("dotsquare", [0x22a1]), ("doublebarwedge", [0x2306]), ("DoubleContourIntegral", [0x222f]),
   ("DoubleDot", [0xa8]), ("DoubleDownArrow", [0x21d3]), ("DoubleLeftArrow", [0x21d0]),
   ("DoubleLeftRightArrow", [0x21d4]), ("DoubleLeftTee", [0x2ae4]), ("DoubleLongLeftArrow", [0x27f8]),
   ("DoubleLongLeftRightArrow", [0x27fa]), ("DoubleLongRightArrow", [0x27f9]),
   ("DoubleRightArrow", [0x21d2]), ("DoubleRightTee", [0x22a8]), ("DoubleUpArrow", [0x21d1]),
   ("DoubleUpDownArrow", [0x21d5]), ("DoubleVerticalBar", [0x2225]), ("DownArrow", [0x2193]),
   ("Downarrow", [0x21d3]), ("downarrow", [0x2193]), ("DownArrowBar", [0x2913]),
   ("DownArrowUpArrow", [0x21f5]), ("DownBreve", [0x311]), ("downdownarrows", [0x21ca]),
   ("downharpoonleft", [0x21c3]), ("downharpoonright", [0x21c2]), ("DownLeftRightVector", [0x2950]),
   ("DownLeftTeeVector", [0x295e]), ("DownLeftVector", [0x21bd]), ("DownLeftVectorBar", [0x2956]),
   ("DownRightTeeVector", [0x295f]), ("DownRightVector", [0x21c1]), ("DownRightVectorBar", [0x2957]),
   ("DownTee", [0x22a4]), ("DownTeeArrow", [0x21a7]), ("drbkarow", [0x2910]), ("drcorn", [0x231f]),
   ("drcrop", [0x230c]), ("Dscr", [0x1d49f]), ("dscr", [0x1d4b9]), ("DScy", [0x405]), ("dscy", [0x455]),
   ("dsol", [0x29f6]), ("Dstrok", [0x110]), ("dstrok", [0x111]), ("dtdot", [0x22f1]),
   ("dtri", [0x25bf]), ("dtrif", [0x25be]), ("duarr", [0x21f5]), ("duhar", [0x296f]),
   ("dwangle", [0x29a6]), ("DZcy", [0x40f]), ("dzcy", [0x45f]), ("dzigrarr", [0x27ff]),
   ("Eacute", [0xc9]), ("eacute", [0xe9]), ("easter", [0x2a6e]), ("Ecaron", [0x11a]),
   ("ecaron", [0x11b]), ("ecir", [0x2256]), ("Ecirc", [0xca]), ("ecirc", [0xea]), ("ecolon", [0x2255]),
   ("Ecy", [0x42d]), ("ecy", [0x44d]), ("eDDot", [0x2a77]), ("Edot", [0x116]), ("eDot", [0x2251]),
   ("edot", [0x117]), ("ee", [0x2147]), ("efDot", [0x2252]), ("Efr", [0x1d508]), ("efr", [0x1d522]),
   ("eg", [0x2a9a]), ("Egrave", [0xc8]), ("egrave", [0xe8]), ("egs", [0x2a96]), ("egsdot", [0x2a98]),
   ("el", [0x2a99]), ("Element", [0x2208]), ("elinters", [0x23e7]), ("ell", [0x2113]),
   ("els", [0x2a95]), ("elsdot", [0x2a97]), ("Emacr", [0x112]), ("emacr", [0x113]), ("empty", [0x2205]),
   ("emptyset", [0x2205]), ("EmptySmallSquare", [0x25fb]), ("emptyv", [0x2205]),
   ("EmptyVerySmallSquare", [0x25ab]), ("emsp", [0x2003]), ("emsp13", [0x2004]), ("emsp14", [0x2005]),
   ("ENG", [0x14a]), ("eng", [0x14b]), ("ensp", [0x2002]), ("Eogon", [0x118]), ("eogon", [0x119]),
   ("Eopf", [0x1d53c]), ("eopf", [0x1d556]), ("epar", [0x22d5]), ("eparsl", [0x29e3]),
   ("eplus", [0x2a71]), ("epsi", [0x3b5]), ("Epsilon", [0x395]), ("epsilon", [0x3b5]),
   ("epsiv", [0x3f5]), ("eqcirc", [0x2256]), ("eqcolon", [0x2255]), ("eqsim", [0x2242]),
   ("eqslantgtr", [0x2a96]), ("eqslantless", [0x2a95]), ("Equal", [0x2a75]), ("equals", [0x3d]),
   ("EqualTilde", [0x2242]), ("equest", [0x225f]), ("Equilibrium", [0x21cc]), ("equiv", [0x2261]),
   ("equivDD", [0x2a78]), ("eqvparsl", [0x29e5]), ("erarr", [0x2971]), ("erDot", [0x2253]),
   ("Escr", [0x2130]), ("escr", [0x212f]), ("esdot", [0x2250]), ("Esim", [0x2a73]), ("esim", [0x2242]),
   ("Eta", [0x397]), ("eta", [0x3b7]), ("ETH", [0xd0]), ("eth", [0xf0]), ("Euml", [0xcb]),
   ("euml", [0xeb]), ("euro", [0x20ac]), ("excl", [0x21]), ("exist", [0x2203]), ("Exists", [0x2203]),
   ("expectation", [0x2130]), ("ExponentialE", [0x2147]), ("exponentiale", [0x2147]),
   ("fallingdotseq", [0x2252]), ("Fcy", [0x424]), ("fcy", [0x444]), ("female", [0x2640]),
   ("ffilig", [0xfb03]), ("fflig", [0xfb00]), ("ffllig", [0xfb04]), ("Ffr", [0x1d509]),
   ("ffr", [0x1d523]), ("filig", [0xfb01]), ("FilledSmallSquare", [0x25fc]),
   ("FilledVerySmallSquare", [0x25aa]), ("fjlig", [0x66, 0x6a]), ("flat", [0x266d]),
   ("fllig", [0xfb02]), ("fltns", [0x25b1]), ("fnof", [0x192]), ("Fopf", [0x1d53d]),
   ("fopf", [0x1d557]), ("ForAll", [0x2200]), ("forall", [0x2200]), ("fork", [0x22d4]),
   ("forkv", [0x2ad9]), ("Fouriertrf", [0x2131]), ("fpartint", [0x2a0d]), ("frac12", [0xbd]),
   ("frac13", [0x2153]), ("frac14", [0xbc]), ("frac15", [0x2155]), ("frac16", [0x2159]),
   ("frac18", [0x215b]), ("frac23", [0x2154]), ("frac25", [0x2156]), ("frac34", [0xbe]),
   ("frac35", [0x2157]), ("frac38", [0x215c]), ("frac45", [0x2158]), ("frac56", [0x215a]),
   ("frac58", [0x215d]), ("frac78", [0x215e]), ("frasl", [0x2044]), ("frown", [0x2322]),
   ("Fscr", [0x2131]), ("fscr", [0x1d4bb]), ("gacute", [0x1f5]), ("Gamma", [0x393]), ("gamma", [0x3b3]),
   ("Gammad", [0x3dc]), ("gammad", [0x3dd]), ("gap", [0x2a86]), ("Gbreve", [0x11e]),
   ("gbreve", [0x11f]), ("Gcedil", [0x122]), ("Gcirc", [0x11c]), ("gcirc", [0x11d]), ("Gcy", [0x413]),
   ("gcy", [0x433]), ("Gdot", [0x120]), ("gdot", [0x121]), ("gE", [0x2267]), ("ge", [0x2265]),
   ("gEl", [0x2a8c]), ("gel", [0x22db]), ("geq", [0x2265]), ("geqq", [0x2267]), ("geqslant", [0x2a7e]),
   ("ges", [0x2a7e]), ("gescc", [0x2aa9]), ("gesdot", [0x2a80]), ("gesdoto", [0x2a82]),
   ("gesdotol", [0x2a84]), ("gesl", [0x22db, 0xfe00]), ("gesles", [0x2a94]), ("Gfr", [0x1d50a]),
   ("gfr", [0x1d524]), ("Gg", [0x22d9]), ("gg", [0x226b]), ("ggg", [0x22d9]), ("gimel", [0x2137]),
   ("GJcy", [0x403]), ("gjcy", [0x453]), ("gl", [0x2277]), ("gla", [0x2aa5]), ("glE", [0x2a92]),
   ("glj", [0x2aa4]), ("gnap", [0x2a8a]), ("gnapprox", [0x2a8a]), ("gnE", [0x2269]), ("gne", [0x2a88]),
   ("gneq", [0x2a88]), ("gneqq", [0x2269]), ("gnsim", [0x22e7]), ("Gopf", [0x1d53e]),
   ("gopf", [0x1d558]), ("grave", [0x60]), ("GreaterEqual", [0x2265]), ("GreaterEqualLess", [0x22db]),
   ("GreaterFullEqual", [0x2267]), ("GreaterGreater", [0x2aa2]), ("GreaterLess", [0x2277]),
   ("GreaterSlantEqual", [0x2a7e]), ("GreaterTilde", [0x2273]), ("Gscr", [0x1d4a2]), ("gscr", [0x210a]),
   ("gsim", [0x2273]), ("gsime", [0x2a8e]), ("gsiml", [0x2a90]), ("GT", [0x3e]), ("Gt", [0x226b]),
   ("gt", [0x3e]), ("gtcc", [0x2aa7]), ("gtcir", [0x2a7a]), ("gtdot", [0x22d7]), ("gtlPar", [0x2995]),
   ("gtquest", [0x2a7c]), ("gtrapprox", [0x2a86]), ("gtrarr", [0x2978]), ("gtrdot", [0x22d7]),
   ("gtreqless", [0x22db]), ("gtreqqless", [0x2a8c]), ("gtrless", [0x2277]), ("gtrsim", [0x2273]),
   ("gvertneqq", [0x2269, 0xfe00]), ("gvnE", [0x2269, 0xfe00]), ("Hacek", [0x2c7]),
   ("hairsp", [0x200a]), ("half", [0xbd]), ("hamilt", [0x210b]), ("HARDcy", [0x42a]),
   ("hardcy", [0x44a]), ("hArr", [0x21d4]), ("harr", [0x2194]), ("harrcir", [0x2948]),
   ("harrw", [0x21ad]), ("Hat", [0x5e]), ("hbar", [0x210f]), ("Hcirc", [0x124]), ("hcirc", [0x125]),
   ("hearts", [0x2665]), ("heartsuit", [0x2665]), ("hellip", [0x2026]), ("hercon", [0x22b9]),
   ("Hfr", [0x210c]), ("hfr", [0x1d525]), ("HilbertSpace", [0x210b]), ("hksearow", [0x2925]),
   ("hkswarow", [0x2926]), ("hoarr", [0x21ff]), ("homtht", [0x223b]), ("hookleftarrow", [0x21a9]),
   ("hookrightarrow", [0x21aa]), ("Hopf", [0x210d]), ("hopf", [0x1d559]), ("horbar", [0x2015]),
   ("HorizontalLine", [0x2500]), ("Hscr", [0x210b]), ("hscr", [0x1d4bd]), ("hslash", [0x210f]),
   ("Hstrok", [0x126]), ("hstrok", [0x127]), ("HumpDownHump", [0x224e]), ("HumpEqual", [0x224f]),
   ("hybull", [0x2043]), ("hyphen", [0x2010]), ("Iacute", [0xcd]), ("iacute", [0xed]), ("ic", [0x2063]),
   ("Icirc", [0xce]), ("icirc", [0xee]), ("Icy", [0x418]), ("icy", [0x438]), ("Idot", [0x130]),
   ("IEcy", [0x415]), ("iecy", [0x435]), ("iexcl", [0xa1]), ("iff", [0x21d4]), ("Ifr", [0x2111]),
   ("ifr", [0x1d526]), ("Igrave", [0xcc]), ("igrave", [0xec]), ("ii", [0x2148]), ("iiiint", [0x2a0c]),
   ("iiint", [0x222d]), ("iinfin", [0x29dc]), ("iiota", [0x2129]), ("IJlig", [0x132]),
   ("ijlig", [0x133]), ("Im", [0x2111]), ("Imacr", [0x12a]), ("imacr", [0x12b]), ("image", [0x2111]),
   ("ImaginaryI", [0x2148]), ("imagline", [0x2110]), ("imagpart", [0x2111]), ("imath", [0x131]),
   ("imof", [0x22b7]), ("imped", [0x1b5]), ("Implies", [0x21d2]), ("in", [0x2208]),
   ("incare", [0x2105]), ("infin", [0x221e]), ("infintie", [0x29dd]), ("inodot", [0x131]),
   ("Int", [0x222c]), ("int", [0x222b]), ("intcal", [0x22ba]), ("integers", [0x2124]),
   ("Integral", [0x222b]), ("intercal", [0x22ba]), ("Intersection", [0x22c2]), ("intlarhk", [0x2a17]),
   ("intprod", [0x2a3c]), ("InvisibleComma", [0x2063]), ("InvisibleTimes", [0x2062]), ("IOcy", [0x401]),
   ("iocy", [0x451]), ("Iogon", [0x12e]), ("iogon", [0x12f]), ("Iopf", [0x1d540]), ("iopf", [0x1d55a]),
   ("Iota", [0x399]), ("iota", [0x3b9]), ("iprod", [0x2a3c]), ("iquest", [0xbf]), ("Iscr", [0x2110]),
   ("iscr", [0x1d4be]), ("isin", [0x2208]), ("isindot", [0x22f5]), ("isinE", [0x22f9]),
   ("isins", [0x22f4]), ("isinsv", [0x22f3]), ("isinv", [0x2208]), ("it", [0x2062]),
   ("Itilde", [0x128]), ("itilde", [0x129]), ("Iukcy", [0x406]), ("iukcy", [0x456]), ("Iuml", [0xcf]),
   ("iuml", [0xef]), ("Jcirc", [0x134]), ("jcirc", [0x135]), ("Jcy", [0x419]), ("jcy", [0x439]),
   ("Jfr", [0x1d50d]), ("jfr", [0x1d527]), ("jmath", [0x237]), ("Jopf", [0x1d541]), ("jopf", [0x1d55b]),
   ("Jscr", [0x1d4a5]), ("jscr", [0x1d4bf]), ("Jsercy", [0x408]), ("jsercy", [0x458]),
   ("Jukcy", [0x404]), ("jukcy", [0x454]), ("Kappa", [0x39a]), ("kappa", [0x3ba]), ("kappav", [0x3f0]),
   ("Kcedil", [0x136]), ("kcedil", [0x137]), ("Kcy", [0x41a]), ("kcy", [0x43a]), ("Kfr", [0x1d50e]),
   ("kfr", [0x1d528]), ("kgreen", [0x138]), ("KHcy", [0x425]), ("khcy", [0x445]), ("KJcy", [0x40c]),
   ("kjcy", [0x45c]), ("Kopf", [0x1d542]), ("kopf", [0x1d55c]), ("Kscr", [0x1d4a6]),
   ("kscr", [0x1d4c0]), ("lAarr", [0x21da]), ("Lacute", [0x139]), ("lacute", [0x13a]),
   ("laemptyv", [0x29b4]), ("lagran", [0x2112]), ("Lambda", [0x39b]), ("lambda", [0x3bb]),
   ("Lang", [0x27ea]), ("lang", [0x27e8]), ("langd", [0x2991]), ("langle", [0x27e8]), ("lap", [0x2a85]),
   ("Laplacetrf", [0x2112]), ("laquo", [0xab]), ("Larr", [0x219e]), ("lArr", [0x21d0]),
   ("larr", [0x2190]), ("larrb", [0x21e4]), ("larrbfs", [0x291f]), ("larrfs", [0x291d]),
   ("larrhk", [0x21a9]), ("larrlp", [0x21ab]), ("larrpl", [0x2939]), ("larrsim", [0x2973]),
   ("larrtl", [0x21a2]), ("lat", [0x2aab]), ("lAtail", [0x291b]), ("latail", [0x2919]),
   ("late", [0x2aad]), ("lates", [0x2aad, 0xfe00]), ("lBarr", [0x290e]), ("lbarr", [0x290c]),
   ("lbbrk", [0x2772]), ("lbrace", [0x7b]), ("lbrack", [0x5b]), ("lbrke", [0x298b]),
   ("lbrksld", [0x298f]), ("lbrkslu", [0x298d]), ("Lcaron", [0x13d]), ("lcaron", [0x13e]),
   ("Lcedil", [0x13b]), ("lcedil", [0x13c]), ("lceil", [0x2308]), ("lcub", [0x7b]), ("Lcy", [0x41b]),
   ("lcy", [0x43b]), ("ldca", [0x2936]), ("ldquo", [0x201c]), ("ldquor", [0x201e]),
   ("ldrdhar", [0x2967]), ("ldrushar", [0x294b]), ("ldsh", [0x21b2]), ("lE", [0x2266]),
   ("le", [0x2264]), ("LeftAngleBracket", [0x27e8]), ("LeftArrow", [0x2190]), ("Leftarrow", [0x21d0]),
   ("leftarrow", [0x2190]), ("LeftArrowBar", [0x21e4]), ("LeftArrowRightArrow", [0x21c6]),
   ("leftarrowtail", [0x21a2]), ("LeftCeiling", [0x2308]), ("LeftDoubleBracket", [0x27e6]),
   ("LeftDownTeeVector", [0x2961]), ("LeftDownVector", [0x21c3]), ("LeftDownVectorBar", [0x2959]),
   ("LeftFloor", [0x230a]), ("leftharpoondown", [0x21bd]), ("leftharpoonup", [0x21bc]),
   ("leftleftarrows", [0x21c7]), ("LeftRightArrow", [0x2194]), ("Leftrightarrow", [0x21d4]),
   ("leftrightarrow", [0x2194]), ("leftrightarrows", [0x21c6]), ("leftrightharpoons", [0x21cb]),
   ("leftrightsquigarrow", [0x21ad]), ("LeftRightVector", [0x294e]), ("LeftTee", [0x22a3]),
   ("LeftTeeArrow", [0x21a4]), ("LeftTeeVector", [0x295a]), ("leftthreetimes", [0x22cb]),
   ("LeftTriangle", [0x22b2]), ("LeftTriangleBar", [0x29cf]), ("LeftTriangleEqual", [0x22b4]),
   ("LeftUpDownVector", [0x2951]), ("LeftUpTeeVector", [0x2960]), ("LeftUpVector", [0x21bf]),
   ("LeftUpVectorBar", [0x2958]), ("LeftVector", [0x21bc]), ("LeftVectorBar", [0x2952]),
   ("lEg", [0x2a8b]), ("leg", [0x22da]), ("leq", [0x2264]), ("leqq", [0x2266]), ("leqslant", [0x2a7d]),
   ("les", [0x2a7d]), ("lescc", [0x2aa8]), ("lesdot", [0x2a7f]), ("lesdoto", [0x2a81]),
   ("lesdotor", [0x2a83]), ("lesg", [0x22da, 0xfe00]), ("lesges", [0x2a93]), ("lessapprox", [0x2a85]),
   ("lessdot", [0x22d6]), ("lesseqgtr", [0x22da]), ("lesseqqgtr", [0x2a8b]),
   ("LessEqualGreater", [0x22da]), ("LessFullEqual", [0x2266]), ("LessGreater", [0x2276]),
   ("lessgtr", [0x2276]), ("LessLess", [0x2aa1]), ("lesssim", [0x2272]), ("LessSlantEqual", [0x2a7d]),
   ("LessTilde", [0x2272]), ("lfisht", [0x297c]), ("lfloor", [0x230a]), ("Lfr", [0x1d50f]),
   ("lfr", [0x1d529]), ("lg", [0x2276]), ("lgE", [0x2a91]), ("lHar", [0x2962]), ("lhard", [0x21bd]),
   ("lharu", [0x21bc]), ("lharul", [0x296a]), ("lhblk", [0x2584]), ("LJcy", [0x409]), ("ljcy", [0x459]),
   ("Ll", [0x22d8]), ("ll", [0x226a]), ("llarr", [0x21c7]), ("llcorner", [0x231e]),
   ("Lleftarrow", [0x21da]), ("llhard", [0x296b]), ("lltri", [0x25fa]), ("Lmidot", [0x13f]),
   ("lmidot", [0x140]), ("lmoust", [0x23b0]), ("lmoustache", [0x23b0]), ("lnap", [0x2a89]),
   ("lnapprox", [0x2a89]), ("lnE", [0x2268]), ("lne", [0x2a87]), ("lneq", [0x2a87]),
   ("lneqq", [0x2268]), ("lnsim", [0x22e6]), ("loang", [0x27ec]), ("loarr", [0x21fd]),
   ("lobrk", [0x27e6]), ("LongLeftArrow", [0x27f5]), ("Longleftarrow", [0x27f8]),
   ("longleftarrow", [0x27f5]), ("LongLeftRightArrow", [0x27f7]), ("Longleftrightarrow", [0x27fa]),
   ("longleftrightarrow", [0x27f7]), ("longmapsto", [0x27fc]), ("LongRightArrow", [0x27f6]),
   ("Longrightarrow", [0x27f9]), ("longrightarrow", [0x27f6]), ("looparrowleft", [0x21ab]),
   ("looparrowright", [0x21ac]), ("lopar", [0x2985]), ("Lopf", [0x1d543]), ("lopf", [0x1d55d]),
   ("loplus", [0x2a2d]), ("lotimes", [0x2a34]), ("lowast", [0x2217]), ("lowbar", [0x5f]),
   ("LowerLeftArrow", [0x2199]), ("LowerRightArrow", [0x2198]), ("loz", [0x25ca]),
   ("lozenge", [0x25ca]), ("lozf", [0x29eb]), ("lpar", [0x28]), ("lparlt", [0x2993]),
   ("lrarr", [0x21c6]), ("lrcorner", [0x231f]), ("lrhar", [0x21cb]), ("lrhard", [0x296d]),
   ("lrm", [0x200e]), ("lrtri", [0x22bf]), ("lsaquo", [0x2039]), ("Lscr", [0x2112]),
   ("lscr", [0x1d4c1]), ("Lsh", [0x21b0]), ("lsh", [0x21b0]), ("lsim", [0x2272]), ("lsime", [0x2a8d]),
   ("lsimg", [0x2a8f]), ("lsqb", [0x5b]), ("lsquo", [0x2018]), ("lsquor", [0x201a]),
   ("Lstrok", [0x141]), ("lstrok", [0x142]), ("LT", [0x3c]), ("Lt", [0x226a]), ("lt", [0x3c]),
   ("ltcc", [0x2aa6]), ("ltcir", [0x2a79]), ("ltdot", [0x22d6]), ("lthree", [0x22cb]),
   ("ltimes", [0x22c9]), ("ltlarr", [0x2976]), ("ltquest", [0x2a7b]), ("ltri", [0x25c3]),
   ("ltrie", [0x22b4]), ("ltrif", [0x25c2]), ("ltrPar", [0x2996]), ("lurdshar", [0x294a]),
   ("luruhar", [0x2966]), ("lvertneqq", [0x2268, 0xfe00]), ("lvnE", [0x2268, 0xfe00]), ("macr", [0xaf]),
   ("male", [0x2642]), ("malt", [0x2720]), ("maltese", [0x2720]), ("Map", [0x2905]), ("map", [0x21a6]),
   ("mapsto", [0x21a6]), ("mapstodown", [0x21a7]), ("mapstoleft", [0x21a4]), ("mapstoup", [0x21a5]),
   ("marker", [0x25ae]), ("mcomma", [0x2a29]), ("Mcy", [0x41c]), ("mcy", [0x43c]), ("mdash", [0x2014]),
   ("mDDot", [0x223a]), ("measuredangle", [0x2221]), ("MediumSpace", [0x205f]), ("Mellintrf", [0x2133]),
   ("Mfr", [0x1d510]), ("mfr", [0x1d52a]), ("mho", [0x2127]), ("micro", [0xb5]), ("mid", [0x2223]),
   ("midast", [0x2a]), ("midcir", [0x2af0]), ("middot", [0xb7]), ("minus", [0x2212]),
   ("minusb", [0x229f]), ("minusd", [0x2238]), ("minusdu", [0x2a2a]), ("MinusPlus", [0x2213]),
   ("mlcp", [0x2adb]), ("mldr", [0x2026]), ("mnplus", [0x2213]), ("models", [0x22a7]),
   ("Mopf", [0x1d544]), ("mopf", [0x1d55e]), ("mp", [0x2213]), ("Mscr", [0x2133]), ("mscr", [0x1d4c2]),
   ("mstpos", [0x223e]), ("Mu", [0x39c]), ("mu", [0x3bc]), ("multimap", [0x22b8]), ("mumap", [0x22b8]),
   ("nabla", [0x2207]), ("Nacute", [0x143]), ("nacute", [0x144]), ("nang", [0x2220, 0x20d2]),
   ("nap", [0x2249]), ("napE", [0x2a70, 0x338]), ("napid", [0x224b, 0x338]), ("napos", [0x149]),
   ("napprox", [0x2249]), ("natur", [0x266e]), ("natural", [0x266e]), ("naturals", [0x2115]),
   ("nbsp", [0xa0]), ("nbump", [0x224e, 0x338]), ("nbumpe", [0x224f, 0x338]), ("ncap", [0x2a43]),
   ("Ncaron", [0x147]), ("ncaron", [0x148]), ("Ncedil", [0x145]), ("ncedil", [0x146]),
   ("ncong", [0x2247]), ("ncongdot", [0x2a6d, 0x338]), ("ncup", [0x2a42]), ("Ncy", [0x41d]),
   ("ncy", [0x43d]), ("ndash", [0x2013]), ("ne", [0x2260]), ("nearhk", [0x2924]), ("neArr", [0x21d7]),
   ("nearr", [0x2197]), ("nearrow", [0x2197]), ("nedot", [0x2250, 0x338]),
   ("NegativeMediumSpace", [0x200b]), ("NegativeThickSpace", [0x200b]), ("NegativeThinSpace", [0x200b]),
   ("NegativeVeryThinSpace", [0x200b]), ("nequiv", [0x2262]), ("nesear", [0x2928]),
   ("nesim", [0x2242, 0x338]), ("NestedGreaterGreater", [0x226b]), ("NestedLessLess", [0x226a]),
   ("NewLine", [0xa]), ("nexist", [0x2204]), ("nexists", [0x2204]), ("Nfr", [0x1d511]),
   ("nfr", [0x1d52b]), ("ngE", [0x2267, 0x338]), ("nge", [0x2271]), ("ngeq", [0x2271]),
   ("ngeqq", [0x2267, 0x338]), ("ngeqslant", [0x2a7e, 0x338]), ("nges", [0x2a7e, 0x338]),
   ("nGg", [0x22d9, 0x338]), ("ngsim", [0x2275]), ("nGt", [0x226b, 0x20d2]), ("ngt", [0x226f]),
   ("ngtr", [0x226f]), ("nGtv", [0x226b, 0x338]), ("nhArr", [0x21ce]), ("nharr", [0x21ae]),
   ("nhpar", [0x2af2]), ("ni", [0x220b]), ("nis", [0x22fc]), ("nisd", [0x22fa]), ("niv", [0x220b]),
   ("NJcy", [0x40a]), ("njcy", [0x45a]), ("nlArr", [0x21cd]), ("nlarr", [0x219a]), ("nldr", [0x2025]),
   ("nlE", [0x2266, 0x338]), ("nle", [0x2270]), ("nLeftarrow", [0x21cd]), ("nleftarrow", [0x219a]),
   ("nLeftrightarrow", [0x21ce]), ("nleftrightarrow", [0x21ae]), ("nleq", [0x2270]),
   ("nleqq", [0x2266, 0x338]), ("nleqslant", [0x2a7d, 0x338]), ("nles", [0x2a7d, 0x338]),
   ("nless", [0x226e]), ("nLl", [0x22d8, 0x338]), ("nlsim", [0x2274]), ("nLt", [0x226a, 0x20d2]),
   ("nlt", [0x226e]), ("nltri", [0x22ea]), ("nltrie", [0x22ec]), ("nLtv", [0x226a, 0x338]),
   ("nmid", [0x2224]), ("NoBreak", [0x2060]), ("NonBreakingSpace", [0xa0]), ("Nopf", [0x2115]),
   ("nopf", [0x1d55f]), ("Not", [0x2aec]), ("not", [0xac]), ("NotCongruent", [0x2262]),
   ("NotCupCap", [0x226d]), ("NotDoubleVerticalBar", [0x2226]), ("NotElement", [0x2209]),
   ("NotEqual", [0x2260]), ("NotEqualTilde", [0x2242, 0x338]), ("NotExists", [0x2204]),
   ("NotGreater", [0x226f]), ("NotGreaterEqual", [0x2271]), ("NotGreaterFullEqual", [0x2267, 0x338]),
   ("NotGreaterGreater", [0x226b, 0x338]), ("NotGreaterLess", [0x2279]),
   ("NotGreaterSlantEqual", [0x2a7e, 0x338]), ("NotGreaterTilde", [0x2275]),
   ("NotHumpDownHump", [0x224e, 0x338]), ("NotHumpEqual", [0x224f, 0x338]), ("notin", [0x2209]),
   ("notindot", [0x22f5, 0x338]), ("notinE", [0x22f9, 0x338]), ("notinva", [0x2209]),
   ("notinvb", [0x22f7]), ("notinvc", [0x22f6]), ("NotLeftTriangle", [0x22ea]),
   ("NotLeftTriangleBar", [0x29cf, 0x338]), ("NotLeftTriangleEqual", [0x22ec]), ("NotLess", [0x226e]),
   ("NotLessEqual", [0x2270]), ("NotLessGreater", [0x2278]), ("NotLessLess", [0x226a, 0x338]),
   ("NotLessSlantEqual", [0x2a7d, 0x338]), ("NotLessTilde", [0x2274]),
   ("NotNestedGreaterGreater", [0x2aa2, 0x338]), ("NotNestedLessLess", [0x2aa1, 0x338]),
   ("notni", [0x220c]), ("notniva", [0x220c]), ("notnivb", [0x22fe]), ("notnivc", [0x22fd]),
   ("NotPrecedes", [0x2280]), ("NotPrecedesEqual", [0x2aaf, 0x338]),
   ("NotPrecedesSlantEqual", [0x22e0]), ("NotReverseElement", [0x220c]), ("NotRightTriangle", [0x22eb]),
   ("NotRightTriangleBar", [0x29d0, 0x338]), ("NotRightTriangleEqual", [0x22ed]),
   ("NotSquareSubset", [0x228f, 0x338]), ("NotSquareSubsetEqual", [0x22e2]),
   ("NotSquareSuperset", [0x2290, 0x338]), ("NotSquareSupersetEqual", [0x22e3]),
   ("NotSubset", [0x2282, 0x20d2]), ("NotSubsetEqual", [0x2288]), ("NotSucceeds", [0x2281]),
   ("NotSucceedsEqual", [0x2ab0, 0x338]), ("NotSucceedsSlantEqual", [0x22e1]),
   ("NotSucceedsTilde", [0x227f, 0x338]), ("NotSuperset", [0x2283, 0x20d2]),
   ("NotSupersetEqual", [0x2289]), ("NotTilde", [0x2241]), ("NotTildeEqual", [0x2244]),
   ("NotTildeFullEqual", [0x2247]), ("NotTildeTilde", [0x2249]), ("NotVerticalBar", [0x2224]),
   ("npar", [0x2226]), ("nparallel", [0x2226]), ("nparsl", [0x2afd, 0x20e5]),
   ("npart", [0x2202, 0x338]), ("npolint", [0x2a14]), ("npr", [0x2280]), ("nprcue", [0x22e0]),
   ("npre", [0x2aaf, 0x338]), ("nprec", [0x2280]), ("npreceq", [0x2aaf, 0x338]), ("nrArr", [0x21cf]),
   ("nrarr", [0x219b]), ("nrarrc", [0x2933, 0x338]), ("nrarrw", [0x219d, 0x338]),
   ("nRightarrow", [0x21cf]), ("nrightarrow", [0x219b]), ("nrtri", [0x22eb]), ("nrtrie", [0x22ed]),
   ("nsc", [0x2281]), ("nsccue", [0x22e1]), ("nsce", [0x2ab0, 0x338]), ("Nscr", [0x1d4a9]),
   ("nscr", [0x1d4c3]), ("nshortmid", [0x2224]), ("nshortparallel", [0x2226]), ("nsim", [0x2241]),
   ("nsime", [0x2244]), ("nsimeq", [0x2244]), ("nsmid", [0x2224]), ("nspar", [0x2226]),
   ("nsqsube", [0x22e2]), ("nsqsupe", [0x22e3]), ("nsub", [0x2284]), ("nsubE", [0x2ac5, 0x338]),
   ("nsube", [0x2288]), ("nsubset", [0x2282, 0x20d2]), ("nsubseteq", [0x2288]),
   ("nsubseteqq", [0x2ac5, 0x338]), ("nsucc", [0x2281]), ("nsucceq", [0x2ab0, 0x338]),
   ("nsup", [0x2285]), ("nsupE", [0x2ac6, 0x338]), ("nsupe", [0x2289]), ("nsupset", [0x2283, 0x20d2]),
   ("nsupseteq", [0x2289]), ("nsupseteqq", [0x2ac6, 0x338]), ("ntgl", [0x2279]), ("Ntilde", [0xd1]),
   ("ntilde", [0xf1]), ("ntlg", [0x2278]), ("ntriangleleft", [0x22ea]), ("ntrianglelefteq", [0x22ec]),
   ("ntriangleright", [0x22eb]), ("ntrianglerighteq", [0x22ed]), ("Nu", [0x39d]), ("nu", [0x3bd]),
   ("num", [0x23]), ("numero", [0x2116]), ("numsp", [0x2007]), ("nvap", [0x224d, 0x20d2]),
   ("nVDash", [0x22af]), ("nVdash", [0x22ae]), ("nvDash", [0x22ad]), ("nvdash", [0x22ac]),
   ("nvge", [0x2265, 0x20d2]), ("nvgt", [0x3e, 0x20d2]), ("nvHarr", [0x2904]), ("nvinfin", [0x29de]),
   ("nvlArr", [0x2902]), ("nvle", [0x2264, 0x20d2]), ("nvlt", [0x3c, 0x20d2]),
   ("nvltrie", [0x22b4, 0x20d2]), ("nvrArr", [0x2903]), ("nvrtrie", [0x22b5, 0x20d2]),
   ("nvsim", [0x223c, 0x20d2]), ("nwarhk", [0x2923]), ("nwArr", [0x21d6]), ("nwarr", [0x2196]),
   ("nwarrow", [0x2196]), ("nwnear", [0x2927]), ("Oacute", [0xd3]), ("oacute", [0xf3]),
   ("oast", [0x229b]), ("ocir", [0x229a]), ("Ocirc", [0xd4]), ("ocirc", [0xf4]), ("Ocy", [0x41e]),
   ("ocy", [0x43e]), ("odash", [0x229d]), ("Odblac", [0x150]), ("odblac", [0x151]), ("odiv", [0x2a38]),
   ("odot", [0x2299]), ("odsold", [0x29bc]), ("OElig", [0x152]), ("oelig", [0x153]),
   ("ofcir", [0x29bf]), ("Ofr", [0x1d512]), ("ofr", [0x1d52c]), ("ogon", [0x2db]), ("Ograve", [0xd2]),
   ("ograve", [0xf2]), ("ogt", [0x29c1]), ("ohbar", [0x29b5]), ("ohm", [0x3a9]), ("oint", [0x222e]),
   ("olarr", [0x21ba]), ("olcir", [0x29be]), ("olcross", [0x29bb]), ("oline", [0x203e]),
   ("olt", [0x29c0]), ("Omacr", [0x14c]), ("omacr", [0x14d]), ("Omega", [0x3a9]), ("omega", [0x3c9]),
   ("Omicron", [0x39f]), ("omicron", [0x3bf]), ("omid", [0x29b6]), ("ominus", [0x2296]),
   ("Oopf", [0x1d546]), ("oopf", [0x1d560]), ("opar", [0x29b7]), ("OpenCurlyDoubleQuote", [0x201c]),
   ("OpenCurlyQuote", [0x2018]), ("operp", [0x29b9]), ("oplus", [0x2295]), ("Or", [0x2a54]),
   ("or", [0x2228]), ("orarr", [0x21bb]), ("ord", [0x2a5d]), ("order", [0x2134]), ("orderof", [0x2134]),
   ("ordf", [0xaa]), ("ordm", [0xba]), ("origof", [0x22b6]), ("oror", [0x2a56]), ("orslope", [0x2a57]),
   ("orv", [0x2a5b]), ("oS", [0x24c8]), ("Oscr", [0x1d4aa]), ("oscr", [0x2134]), ("Oslash", [0xd8]),
   ("oslash", [0xf8]), ("osol", [0x2298]), ("Otilde", [0xd5]), ("otilde", [0xf5]), ("Otimes", [0x2a37]),
   ("otimes", [0x2297]), ("otimesas", [0x2a36]), ("Ouml", [0xd6]), ("ouml", [0xf6]),
   ("ovbar", [0x233d]), ("OverBar", [0x203e]), ("OverBrace", [0x23de]), ("OverBracket", [0x23b4]),
   ("OverParenthesis", [0x23dc]), ("par", [0x2225]), ("para", [0xb6]), ("parallel", [0x2225]),
   ("parsim", [0x2af3]), ("parsl", [0x2afd]), ("part", [0x2202]), ("PartialD", [0x2202]),
   ("Pcy", [0x41f]), ("pcy", [0x43f]), ("percnt", [0x25]), ("period", [0x2e]), ("permil", [0x2030]),
   ("perp", [0x22a5]), ("pertenk", [0x2031]), ("Pfr", [0x1d513]), ("pfr", [0x1d52d]), ("Phi", [0x3a6]),
   ("phi", [0x3c6]), ("phiv", [0x3d5]), ("phmmat", [0x2133]), ("phone", [0x260e]), ("Pi", [0x3a0]),
   ("pi", [0x3c0]), ("pitchfork", [0x22d4]), ("piv", [0x3d6]), ("planck", [0x210f]),
   ("planckh", [0x210e]), ("plankv", [0x210f]), ("plus", [0x2b]), ("plusacir", [0x2a23]),
   ("plusb", [0x229e]), ("pluscir", [0x2a22]), ("plusdo", [0x2214]), ("plusdu", [0x2a25]),
   ("pluse", [0x2a72]), ("PlusMinus", [0xb1]), ("plusmn", [0xb1]), ("plussim", [0x2a26]),
   ("plustwo", [0x2a27]), ("pm", [0xb1]), ("Poincareplane", [0x210c]), ("pointint", [0x2a15]),
   ("Popf", [0x2119]), ("popf", [0x1d561]), ("pound", [0xa3]), ("Pr", [0x2abb]), ("pr", [0x227a]),
   ("prap", [0x2ab7]), ("prcue", [0x227c]), ("prE", [0x2ab3]), ("pre", [0x2aaf]), ("prec", [0x227a]),
   ("precapprox", [0x2ab7]), ("preccurlyeq", [0x227c]), ("Precedes", [0x227a]),
   ("PrecedesEqual", [0x2aaf]), ("PrecedesSlantEqual", [0x227c]), ("PrecedesTilde", [0x227e]),
   ("preceq", [0x2aaf]), ("precnapprox", [0x2ab9]), ("precneqq", [0x2ab5]), ("precnsim", [0x22e8]),
   ("precsim", [0x227e]), ("Prime", [0x2033]), ("prime", [0x2032]), ("primes", [0x2119]),
   ("prnap", [0x2ab9]), ("prnE", [0x2ab5]), ("prnsim", [0x22e8]), ("prod", [0x220f]),
   ("Product", [0x220f]), ("profalar", [0x232e]), ("profline", [0x2312]), ("profsurf", [0x2313]),
   ("prop", [0x221d]), ("Proportion", [0x2237]), ("Proportional", [0x221d]), ("propto", [0x221d]),
   ("prsim", [0x227e]), ("prurel", [0x22b0]), ("Pscr", [0x1d4ab]), ("pscr", [0x1d4c5]),
   ("Psi", [0x3a8]), ("psi", [0x3c8]), ("puncsp", [0x2008]), ("Qfr", [0x1d514]), ("qfr", [0x1d52e]),
   ("qint", [0x2a0c]), ("Qopf", [0x211a]), ("qopf", [0x1d562]), ("qprime", [0x2057]),
   ("Qscr", [0x1d4ac]), ("qscr", [0x1d4c6]), ("quaternions", [0x210d]), ("quatint", [0x2a16]),
   ("quest", [0x3f]), ("questeq", [0x225f]), ("QUOT", [0x22]), ("quot", [0x22]), ("rAarr", [0x21db]),
   ("race", [0x223d, 0x331]), ("Racute", [0x154]), ("racute", [0x155]), ("radic", [0x221a]),
   ("raemptyv", [0x29b3]), ("Rang", [0x27eb]), ("rang", [0x27e9]), ("rangd", [0x2992]),
   ("range", [0x29a5]), ("rangle", [0x27e9]), ("raquo", [0xbb]), ("Rarr", [0x21a0]), ("rArr", [0x21d2]),
   ("rarr", [0x2192]), ("rarrap", [0x2975]), ("rarrb", [0x21e5]), ("rarrbfs", [0x2920]),
   ("rarrc", [0x2933]), ("rarrfs", [0x291e]), ("rarrhk", [0x21aa]), ("rarrlp", [0x21ac]),
   ("rarrpl", [0x2945]), ("rarrsim", [0x2974]), ("Rarrtl", [0x2916]), ("rarrtl", [0x21a3]),
   ("rarrw", [0x219d]), ("rAtail", [0x291c]), ("ratail", [0x291a]), ("ratio", [0x2236]),
   ("rationals", [0x211a]), ("RBarr", [0x2910]), ("rBarr", [0x290f]), ("rbarr", [0x290d]),
   ("rbbrk", [0x2773]), ("rbrace", [0x7d]), ("rbrack", [0x5d]), ("rbrke", [0x298c]),
   ("rbrksld", [0x298e]), ("rbrkslu", [0x2990]), ("Rcaron", [0x158]), ("rcaron", [0x159]),
   ("Rcedil", [0x156]), ("rcedil", [0x157]), ("rceil", [0x2309]), ("rcub", [0x7d]), ("Rcy", [0x420]),
   ("rcy", [0x440]), ("rdca", [0x2937]), ("rdldhar", [0x2969]), ("rdquo", [0x201d]),
   ("rdquor", [0x201d]), ("rdsh", [0x21b3]), ("Re", [0x211c]), ("real", [0x211c]),
   ("realine", [0x211b]), ("realpart", [0x211c]), ("reals", [0x211d]), ("rect", [0x25ad]),
   ("REG", [0xae]), ("reg", [0xae]), ("ReverseElement", [0x220b]), ("ReverseEquilibrium", [0x21cb]),
   ("ReverseUpEquilibrium", [0x296f]), ("rfisht", [0x297d]), ("rfloor", [0x230b]), ("Rfr", [0x211c]),
   ("rfr", [0x1d52f]), ("rHar", [0x2964]), ("rhard", [0x21c1]), ("rharu", [0x21c0]),
   ("rharul", [0x296c]), ("Rho", [0x3a1]), ("rho", [0x3c1]), ("rhov", [0x3f1]),
   ("RightAngleBracket", [0x27e9]), ("RightArrow", [0x2192]), ("Rightarrow", [0x21d2]),
   ("rightarrow", [0x2192]), ("RightArrowBar", [0x21e5]), ("RightArrowLeftArrow", [0x21c4]),
   ("rightarrowtail", [0x21a3]), ("RightCeiling", [0x2309]), ("RightDoubleBracket", [0x27e7]),
   ("RightDownTeeVector", [0x295d]), ("RightDownVector", [0x21c2]), ("RightDownVectorBar", [0x2955]),
   ("RightFloor", [0x230b]), ("rightharpoondown", [0x21c1]), ("rightharpoonup", [0x21c0]),
   ("rightleftarrows", [0x21c4]), ("rightleftharpoons", [0x21cc]), ("rightrightarrows", [0x21c9]),
   ("rightsquigarrow", [0x219d]), ("RightTee", [0x22a2]), ("RightTeeArrow", [0x21a6]),
   ("RightTeeVector", [0x295b]), ("rightthreetimes", [0x22cc]), ("RightTriangle", [0x22b3]),
   ("RightTriangleBar", [0x29d0]), ("RightTriangleEqual", [0x22b5]), ("RightUpDownVector", [0x294f]),
   ("RightUpTeeVector", [0x295c]), ("RightUpVector", [0x21be]), ("RightUpVectorBar", [0x2954]),
   ("RightVector", [0x21c0]), ("RightVectorBar", [0x2953]), ("ring", [0x2da]),
   ("risingdotseq", [0x2253]), ("rlarr", [0x21c4]), ("rlhar", [0x21cc]), ("rlm", [0x200f]),
   ("rmoust", [0x23b1]), ("rmoustache", [0x23b1]), ("rnmid", [0x2aee]), ("roang", [0x27ed]),
   ("roarr", [0x21fe]), ("robrk", [0x27e7]), ("ropar", [0x2986]), ("Ropf", [0x211d]),
   ("ropf", [0x1d563]), ("roplus", [0x2a2e]), ("rotimes", [0x2a35]), ("RoundImplies", [0x2970]),
   ("rpar", [0x29]), ("rpargt", [0x2994]), ("rppolint", [0x2a12]), ("rrarr", [0x21c9]),
   ("Rrightarrow", [0x21db]), ("rsaquo", [0x203a]), ("Rscr", [0x211b]), ("rscr", [0x1d4c7]),
   ("Rsh", [0x21b1]), ("rsh", [0x21b1]), ("rsqb", [0x5d]), ("rsquo", [0x2019]), ("rsquor", [0x2019]),
   ("rthree", [0x22cc]), ("rtimes", [0x22ca]), ("rtri", [0x25b9]), ("rtrie", [0x22b5]),
   ("rtrif", [0x25b8]), ("rtriltri", [0x29ce]), ("RuleDelayed", [0x29f4]), ("ruluhar", [0x2968]),
   ("rx", [0x211e]), ("Sacute", [0x15a]), ("sacute", [0x15b]), ("sbquo", [0x201a]), ("Sc", [0x2abc]),
   ("sc", [0x227b]), ("scap", [0x2ab8]), ("Scaron", [0x160]), ("scaron", [0x161]), ("sccue", [0x227d]),
   ("scE", [0x2ab4]), ("sce", [0x2ab0]), ("Scedil", [0x15e]), ("scedil", [0x15f]), ("Scirc", [0x15c]),
   ("scirc", [0x15d]), ("scnap", [0x2aba]), ("scnE", [0x2ab6]), ("scnsim", [0x22e9]),
   ("scpolint", [0x2a13]), ("scsim", [0x227f]), ("Scy", [0x421]), ("scy", [0x441]), ("sdot", [0x22c5]),
   ("sdotb", [0x22a1]), ("sdote", [0x2a66]), ("searhk", [0x2925]), ("seArr", [0x21d8]),
   ("searr", [0x2198]), ("searrow", [0x2198]), ("sect", [0xa7]), ("semi", [0x3b]), ("seswar", [0x2929]),
   ("setminus", [0x2216]), ("setmn", [0x2216]), ("sext", [0x2736]), ("Sfr", [0x1d516]),
   ("sfr", [0x1d530]), ("sfrown", [0x2322]), ("sharp", [0x266f]), ("SHCHcy", [0x429]),
   ("shchcy", [0x449]), ("SHcy", [0x428]), ("shcy", [0x448]), ("ShortDownArrow", [0x2193]),
   ("ShortLeftArrow", [0x2190]), ("shortmid", [0x2223]), ("shortparallel", [0x2225]),
   ("ShortRightArrow", [0x2192]), ("ShortUpArrow", [0x2191]), ("shy", [0xad]), ("Sigma", [0x3a3]),
   ("sigma", [0x3c3]), ("sigmaf", [0x3c2]), ("sigmav", [0x3c2]), ("sim", [0x223c]),
   ("simdot", [0x2a6a]), ("sime", [0x2243]), ("simeq", [0x2243]), ("simg", [0x2a9e]),
   ("simgE", [0x2aa0]), ("siml", [0x2a9d]), ("simlE", [0x2a9f]), ("simne", [0x2246]),
   ("simplus", [0x2a24]), ("simrarr", [0x2972]), ("slarr", [0x2190]), ("SmallCircle", [0x2218]),
   ("smallsetminus", [0x2216]), ("smashp", [0x2a33]), ("smeparsl", [0x29e4]), ("smid", [0x2223]),
   ("smile", [0x2323]), ("smt", [0x2aaa]), ("smte", [0x2aac]), ("smtes", [0x2aac, 0xfe00]),
   ("SOFTcy", [0x42c]), ("softcy", [0x44c]), ("sol", [0x2f]), ("solb", [0x29c4]), ("solbar", [0x233f]),
   ("Sopf", [0x1d54a]), ("sopf", [0x1d564]), ("spades", [0x2660]), ("spadesuit", [0x2660]),
   ("spar", [0x2225]), ("sqcap", [0x2293]), ("sqcaps", [0x2293, 0xfe00]), ("sqcup", [0x2294]),
   ("sqcups", [0x2294, 0xfe00]), ("Sqrt", [0x221a]), ("sqsub", [0x228f]), ("sqsube", [0x2291]),
   ("sqsubset", [0x228f]), ("sqsubseteq", [0x2291]), ("sqsup", [0x2290]), ("sqsupe", [0x2292]),
   ("sqsupset", [0x2290]), ("sqsupseteq", [0x2292]), ("squ", [0x25a1]), ("Square", [0x25a1]),
   ("square", [0x25a1]), ("SquareIntersection", [0x2293]), ("SquareSubset", [0x228f]),
   ("SquareSubsetEqual", [0x2291]), ("SquareSuperset", [0x2290]), ("SquareSupersetEqual", [0x2292]),
   ("SquareUnion", [0x2294]), ("squarf", [0x25aa]), ("squf", [0x25aa]), ("srarr", [0x2192]),
   ("Sscr", [0x1d4ae]), ("sscr", [0x1d4c8]), ("ssetmn", [0x2216]), ("ssmile", [0x2323]),
   ("sstarf", [0x22c6]), ("Star", [0x22c6]), ("star", [0x2606]), ("starf", [0x2605]),
   ("straightepsilon", [0x3f5]), ("straightphi", [0x3d5]), ("strns", [0xaf]), ("Sub", [0x22d0]),
   ("sub", [0x2282]), ("subdot", [0x2abd]), ("subE", [0x2ac5]), ("sube", [0x2286]),
   ("subedot", [0x2ac3]), ("submult", [0x2ac1]), ("subnE", [0x2acb]), ("subne", [0x228a]),
   ("subplus", [0x2abf]), ("subrarr", [0x2979]), ("Subset", [0x22d0]), ("subset", [0x2282]),
   ("subseteq", [0x2286]), ("subseteqq", [0x2ac5]), ("SubsetEqual", [0x2286]), ("subsetneq", [0x228a]),
   ("subsetneqq", [0x2acb]), ("subsim", [0x2ac7]), ("subsub", [0x2ad5]), ("subsup", [0x2ad3]),
   ("succ", [0x227b]), ("succapprox", [0x2ab8]), ("succcurlyeq", [0x227d]), ("Succeeds", [0x227b]),
   ("SucceedsEqual", [0x2ab0]), ("SucceedsSlantEqual", [0x227d]), ("SucceedsTilde", [0x227f]),
   ("succeq", [0x2ab0]), ("succnapprox", [0x2aba]), ("succneqq", [0x2ab6]), ("succnsim", [0x22e9]),
   ("succsim", [0x227f]), ("SuchThat", [0x220b]), ("Sum", [0x2211]), ("sum", [0x2211]),
   ("sung", [0x266a]), ("Sup", [0x22d1]), ("sup", [0x2283]), ("sup1", [0xb9]), ("sup2", [0xb2]),
   ("sup3", [0xb3]), ("supdot", [0x2abe]), ("supdsub", [0x2ad8]), ("supE", [0x2ac6]),
   ("supe", [0x2287]), ("supedot", [0x2ac4]), ("Superset", [0x2283]), ("SupersetEqual", [0x2287]),
   ("suphsol", [0x27c9]), ("suphsub", [0x2ad7]), ("suplarr", [0x297b]), ("supmult", [0x2ac2]),
   ("supnE", [0x2acc]), ("supne", [0x228b]), ("supplus", [0x2ac0]), ("Supset", [0x22d1]),
   ("supset", [0x2283]), ("supseteq", [0x2287]), ("supseteqq", [0x2ac6]), ("supsetneq", [0x228b]),
   ("supsetneqq", [0x2acc]), ("supsim", [0x2ac8]), ("supsub", [0x2ad4]), ("supsup", [0x2ad6]),
   ("swarhk", [0x2926]), ("swArr", [0x21d9]), ("swarr", [0x2199]), ("swarrow", [0x2199]),
   ("swnwar", [0x292a]), ("szlig", [0xdf]), ("Tab", [0x9]), ("target", [0x2316]), ("Tau", [0x3a4]),
   ("tau", [0x3c4]), ("tbrk", [0x23b4]), ("Tcaron", [0x164]), ("tcaron", [0x165]), ("Tcedil", [0x162]),
   ("tcedil", [0x163]), ("Tcy", [0x422]), ("tcy", [0x442]), ("tdot", [0x20db]), ("telrec", [0x2315]),
   ("Tfr", [0x1d517]), ("tfr", [0x1d531]), ("there4", [0x2234]), ("Therefore", [0x2234]),
   ("therefore", [0x2234]), ("Theta", [0x398]), ("theta", [0x3b8]), ("thetasym", [0x3d1]),
   ("thetav", [0x3d1]), ("thickapprox", [0x2248]), ("thicksim", [0x223c]),
   ("ThickSpace", [0x205f, 0x200a]), ("thinsp", [0x2009]), ("ThinSpace", [0x2009]), ("thkap", [0x2248]),
   ("thksim", [0x223c]), ("THORN", [0xde]), ("thorn", [0xfe]), ("Tilde", [0x223c]), ("tilde", [0x2dc]),
   ("TildeEqual", [0x2243]), ("TildeFullEqual", [0x2245]), ("TildeTilde", [0x2248]), ("times", [0xd7]),
   ("timesb", [0x22a0]), ("timesbar", [0x2a31]), ("timesd", [0x2a30]), ("tint", [0x222d]),
   ("toea", [0x2928]), ("top", [0x22a4]), ("topbot", [0x2336]), ("topcir", [0x2af1]),
   ("Topf", [0x1d54b]), ("topf", [0x1d565]), ("topfork", [0x2ada]), ("tosa", [0x2929]),
   ("tprime", [0x2034]), ("TRADE", [0x2122]), ("trade", [0x2122]), ("triangle", [0x25b5]),
   ("triangledown", [0x25bf]), ("triangleleft", [0x25c3]), ("trianglelefteq", [0x22b4]),
   ("triangleq", [0x225c]), ("triangleright", [0x25b9]), ("trianglerighteq", [0x22b5]),
   ("tridot", [0x25ec]), ("trie", [0x225c]), ("triminus", [0x2a3a]), ("TripleDot", [0x20db]),
   ("triplus", [0x2a39]), ("trisb", [0x29cd]), ("tritime", [0x2a3b]), ("trpezium", [0x23e2]),
   ("Tscr", [0x1d4af]), ("tscr", [0x1d4c9]), ("TScy", [0x426]), ("tscy", [0x446]), ("TSHcy", [0x40b]),
   ("tshcy", [0x45b]), ("Tstrok", [0x166]), ("tstrok", [0x167]), ("twixt", [0x226c]),
   ("twoheadleftarrow", [0x219e]), ("twoheadrightarrow", [0x21a0]), ("Uacute", [0xda]),
   ("uacute", [0xfa]), ("Uarr", [0x219f]), ("uArr", [0x21d1]), ("uarr", [0x2191]),
   ("Uarrocir", [0x2949]), ("Ubrcy", [0x40e]), ("ubrcy", [0x45e]), ("Ubreve", [0x16c]),
   ("ubreve", [0x16d]), ("Ucirc", [0xdb]), ("ucirc", [0xfb]), ("Ucy", [0x423]), ("ucy", [0x443]),
   ("udarr", [0x21c5]), ("Udblac", [0x170]), ("udblac", [0x171]), ("udhar", [0x296e]),
   ("ufisht", [0x297e]), ("Ufr", [0x1d518]), ("ufr", [0x1d532]), ("Ugrave", [0xd9]), ("ugrave", [0xf9]),
   ("uHar", [0x2963]), ("uharl", [0x21bf]), ("uharr", [0x21be]), ("uhblk", [0x2580]),
   ("ulcorn", [0x231c]), ("ulcorner", [0x231c]), ("ulcrop", [0x230f]), ("ultri", [0x25f8]),
   ("Umacr", [0x16a]), ("umacr", [0x16b]), ("uml", [0xa8]), ("UnderBar", [0x5f]),
   ("UnderBrace", [0x23df]), ("UnderBracket", [0x23b5]), ("UnderParenthesis", [0x23dd]),
   ("Union", [0x22c3]), ("UnionPlus", [0x228e]), ("Uogon", [0x172]), ("uogon", [0x173]),
   ("Uopf", [0x1d54c]), ("uopf", [0x1d566]), ("UpArrow", [0x2191]), ("Uparrow", [0x21d1]),
   ("uparrow", [0x2191]), ("UpArrowBar", [0x2912]), ("UpArrowDownArrow", [0x21c5]),
   ("UpDownArrow", [0x2195]), ("Updownarrow", [0x21d5]), ("updownarrow", [0x2195]),
   ("UpEquilibrium", [0x296e]), ("upharpoonleft", [0x21bf]), ("upharpoonright", [0x21be]),
   ("uplus", [0x228e]), ("UpperLeftArrow", [0x2196]), ("UpperRightArrow", [0x2197]), ("Upsi", [0x3d2]),
   ("upsi", [0x3c5]), ("upsih", [0x3d2]), ("Upsilon", [0x3a5]), ("upsilon", [0x3c5]),
   ("UpTee", [0x22a5]), ("UpTeeArrow", [0x21a5]), ("upuparrows", [0x21c8]), ("urcorn", [0x231d]),
   ("urcorner", [0x231d]), ("urcrop", [0x230e]), ("Uring", [0x16e]), ("uring", [0x16f]),
   ("urtri", [0x25f9]), ("Uscr", [0x1d4b0]), ("uscr", [0x1d4ca]), ("utdot", [0x22f0]),
   ("Utilde", [0x168]), ("utilde", [0x169]), ("utri", [0x25b5]), ("utrif", [0x25b4]),
   ("uuarr", [0x21c8]), ("Uuml", [0xdc]), ("uuml", [0xfc]), ("uwangle", [0x29a7]), ("vangrt", [0x299c]),
   ("varepsilon", [0x3f5]), ("varkappa", [0x3f0]), ("varnothing", [0x2205]), ("varphi", [0x3d5]),
   ("varpi", [0x3d6]), ("varpropto", [0x221d]), ("vArr", [0x21d5]), ("varr", [0x2195]),
   ("varrho", [0x3f1]), ("varsigma", [0x3c2]), ("varsubsetneq", [0x228a, 0xfe00]),
   ("varsubsetneqq", [0x2acb, 0xfe00]), ("varsupsetneq", [0x228b, 0xfe00]),
   ("varsupsetneqq", [0x2acc, 0xfe00]), ("vartheta", [0x3d1]), ("vartriangleleft", [0x22b2]),
   ("vartriangleright", [0x22b3]), ("Vbar", [0x2aeb]), ("vBar", [0x2ae8]), ("vBarv", [0x2ae9]),
   ("Vcy", [0x412]), ("vcy", [0x432]), ("VDash", [0x22ab]), ("Vdash", [0x22a9]), ("vDash", [0x22a8]),
   ("vdash", [0x22a2]), ("Vdashl", [0x2ae6]), ("Vee", [0x22c1]), ("vee", [0x2228]),
   ("veebar", [0x22bb]), ("veeeq", [0x225a]), ("vellip", [0x22ee]), ("Verbar", [0x2016]),
   ("verbar", [0x7c]), ("Vert", [0x2016]), ("vert", [0x7c]), ("VerticalBar", [0x2223]),
   ("VerticalLine", [0x7c]), ("VerticalSeparator", [0x2758]), ("VerticalTilde", [0x2240]),
   ("VeryThinSpace", [0x200a]), ("Vfr", [0x1d519]), ("vfr", [0x1d533]), ("vltri", [0x22b2]),
   ("vnsub", [0x2282, 0x20d2]), ("vnsup", [0x2283, 0x20d2]), ("Vopf", [0x1d54d]), ("vopf", [0x1d567]),
   ("vprop", [0x221d]), ("vrtri", [0x22b3]), ("Vscr", [0x1d4b1]), ("vscr", [0x1d4cb]),
   ("vsubnE", [0x2acb, 0xfe00]), ("vsubne", [0x228a, 0xfe00]), ("vsupnE", [0x2acc, 0xfe00]),
   ("vsupne", [0x228b, 0xfe00]), ("Vvdash", [0x22aa]), ("vzigzag", [0x299a]), ("Wcirc", [0x174]),
   ("wcirc", [0x175]), ("wedbar", [0x2a5f]), ("Wedge", [0x22c0]), ("wedge", [0x2227]),
   ("wedgeq", [0x2259]), ("weierp", [0x2118]), ("Wfr", [0x1d51a]), ("wfr", [0x1d534]),
   ("Wopf", [0x1d54e]), ("wopf", [0x1d568]), ("wp", [0x2118]), ("wr", [0x2240]), ("wreath", [0x2240]),
   ("Wscr", [0x1d4b2]), ("wscr", [0x1d4cc]), ("xcap", [0x22c2]), ("xcirc", [0x25ef]),
   ("xcup", [0x22c3]), ("xdtri", [0x25bd]), ("Xfr", [0x1d51b]), ("xfr", [0x1d535]), ("xhArr", [0x27fa]),
   ("xharr", [0x27f7]), ("Xi", [0x39e]), ("xi", [0x3be]), ("xlArr", [0x27f8]), ("xlarr", [0x27f5]),
   ("xmap", [0x27fc]), ("xnis", [0x22fb]), ("xodot", [0x2a00]), ("Xopf", [0x1d54f]),
   ("xopf", [0x1d569]), ("xoplus", [0x2a01]), ("xotime", [0x2a02]), ("xrArr", [0x27f9]),
   ("xrarr", [0x27f6]), ("Xscr", [0x1d4b3]), ("xscr", [0x1d4cd]), ("xsqcup", [0x2a06]),
   ("xuplus", [0x2a04]), ("xutri", [0x25b3]), ("xvee", [0x22c1]), ("xwedge", [0x22c0]),
   ("Yacute", [0xdd]), ("yacute", [0xfd]), ("YAcy", [0x42f]), ("yacy", [0x44f]), ("Ycirc", [0x176]),
   ("ycirc", [0x177]), ("Ycy", [0x42b]), ("ycy", [0x44b]), ("yen", [0xa5]), ("Yfr", [0x1d51c]),
   ("yfr", [0x1d536]), ("YIcy", [0x407]), ("yicy", [0x457]), ("Yopf", [0x1d550]), ("yopf", [0x1d56a]),
   ("Yscr", [0x1d4b4]), ("yscr", [0x1d4ce]), ("YUcy", [0x42e]), ("yucy", [0x44e]), ("Yuml", [0x178]),
   ("yuml", [0xff]), ("Zacute", [0x179]), ("zacute", [0x17a]), ("Zcaron", [0x17d]), ("zcaron", [0x17e]),
   ("Zcy", [0x417]), ("zcy", [0x437]), ("Zdot", [0x17b]), ("zdot", [0x17c]), ("zeetrf", [0x2128]),
   ("ZeroWidthSpace", [0x200b]), ("Zeta", [0x396]), ("zeta", [0x3b6]), ("Zfr", [0x2128]),
   ("zfr", [0x1d537]), ("ZHcy", [0x416]), ("zhcy", [0x436]), ("zigrarr", [0x21dd]), ("Zopf", [0x2124]),
   ("zopf", [0x1d56b]), ("Zscr", [0x1d4b5]), ("zscr", [0x1d4cf]), ("zwj", [0x200d]), ("zwnj", [0x200c])]

end LibEvmvc
