import LibEvmvc.Http.CookieHeader
import LibEvmvc.Jwt.Verifier

set_option autoImplicit false

/-! # The rule that asks for a token

`jwt_filter_rule_t` takes a token from the `authorization` header, from the cookie `token` or from the
query, decodes and verifies it, and calls back; it keeps the token in the request when it is accepted. A
response that is 404 already passes.

The callback for an accepted token is called inside of the `try`, so when what comes after the rule throws,
the rule calls back again, with what was thrown. -/

namespace LibEvmvc

/-- What the rule reads of a request, and the token it keeps there. -/
structure JwtRequest where
  headers : HeaderMap
  cookies : HttpCookies
  qryParams : List (Bytes × Bytes)
  token : DecodedJwt

/-- `jwt_filter_rule_t`; `jwcb` says whether the program gave a callback of its own. -/
structure JwtFilterRule where
  verifier : JwtVerifier
  jwcb : Bool

/-- A call of the program's callback or of the one that goes on, with an error or without. -/
inductive GateCall where
  | jwcb (err : Option Bytes)
  | cb (err : Option Bytes)
  deriving DecidableEq, Repr

namespace GateCall

def err : GateCall → Option Bytes
  | .jwcb err => err
  | .cb err => err

end GateCall

/-- `boost::algorithm::split` at every space. -/
def splitSpaces (s : Bytes) : List Bytes := s.splitOn 32

/-- `http_params_t::get` and the text of what it finds. -/
def queryParam (ps : List (Bytes × Bytes)) (name defVal : Bytes) : Bytes :=
  match ps.find? fun p => lower (cstr p.1) = lower (cstr name) with
  | some p => cstr p.2
  | none => defVal

/-- `_get_jwt`. The cookie is there when it is asked for its value. -/
def getJwt (req : JwtRequest) : Bytes :=
  let other :=
    match req.cookies.getRaw id (bytes "token") .clear with
    | .ok v => v
    | .error _ => queryParam req.qryParams (bytes "token") []
  match req.headers.getFirst (bytes "authorization") with
  | none => other
  | some value =>
    match splitSpaces (cstr value) with
    | [scheme, tok] => if scheme = bytes "bearer" then tok else other
    | _ => other

namespace JwtFilterRule

/-- Whom the rule calls. -/
def call (r : JwtFilterRule) (err : Option Bytes) : GateCall :=
  if r.jwcb then .jwcb err else .cb err

def noToken : Bytes := bytes "Unable to find a valid JSON Web Token!"

/-- `jwt::decode` and `verify`. -/
def accept (o : IterOrder Bytes Json) (lib : JsonLib) (r : JwtFilterRule) (now : Int) (tok : Bytes) :
    Except Bytes DecodedJwt := do
  let decoded ← DecodedJwt.ofToken lib tok
  r.verifier.verify o now decoded
  return decoded

/-- `validate`: the calls that are made, and the request after it. `throws` says what a call throws; what
    the last one throws leaves the rule. -/
def validate (o : IterOrder Bytes Json) (lib : JsonLib) (r : JwtFilterRule) (now : Int) (status : Nat)
    (throws : GateCall → Option Bytes) (req : JwtRequest) : List GateCall × JwtRequest :=
  if status = 404 then ([.cb none], req)
  else
    let tok := getJwt req
    if tok = [] then ([r.call (some noToken)], req)
    else
      match r.accept o lib now tok with
      | .error err => ([r.call (some err)], req)
      | .ok decoded =>
        let req := { req with token := decoded }
        match throws (r.call none) with
        | none => ([r.call none], req)
        | some err => ([r.call none, r.call (some err)], req)

end JwtFilterRule

/-! ## Tokens and their text -/

theorem splitDot_eq_some {s pre post : Bytes} (h : splitDot s = some (pre, post)) :
    s = pre ++ bytes "." ++ post ∧ (46 : UInt8) ∉ pre := by
  rw [splitDot, List.span_eq_takeWhile_dropWhile] at h
  cases hrest : s.dropWhile (· != 46) with
  | nil => simp [hrest] at h
  | cons c rest =>
    simp only [hrest, Option.some.injEq, Prod.mk.injEq] at h
    obtain ⟨rfl, rfl⟩ := h
    have hc : c = 46 := by
      have hhead := List.head?_dropWhile_not (· != 46) s
      rw [hrest] at hhead
      simpa using hhead
    refine ⟨?_, fun hmem => ?_⟩
    · calc s = s.takeWhile (· != 46) ++ s.dropWhile (· != 46) := List.takeWhile_append_dropWhile.symm
        _ = s.takeWhile (· != 46) ++ bytes "." ++ rest := by
          rw [hrest, hc, List.append_assoc]
          rfl
    · have hdot := List.mem_takeWhile_imp hmem
      simp at hdot

/-- The parts of a token that was decoded are what stands between its dots. -/
theorem ofToken_eq_ok {lib : JsonLib} {token : Bytes} {d : DecodedJwt}
    (h : DecodedJwt.ofToken lib token = .ok d) :
    token = JwtVerifier.signedText d ++ bytes "." ++ d.signatureBase64 ∧
      (46 : UInt8) ∉ d.headerBase64 ∧ (46 : UInt8) ∉ d.payloadBase64 ∧ d.empty = false ∧
      d.token = token ∧ base64url.decode (fixPadding d.signatureBase64) = .ok d.signature := by
  unfold DecodedJwt.ofToken at h
  split at h
  · exact absurd h (by simp)
  · next headerBase64 rest hfirst =>
    split at h
    · exact absurd h (by simp)
    · next payloadBase64 signatureBase64 hsecond =>
      obtain ⟨htext, hheader⟩ := splitDot_eq_some hfirst
      obtain ⟨hrest, hpayload⟩ := splitDot_eq_some hsecond
      obtain ⟨header, -, h⟩ := bind_eq_ok.1 h
      obtain ⟨payload, -, h⟩ := bind_eq_ok.1 h
      obtain ⟨signature, hsignature, h⟩ := bind_eq_ok.1 h
      obtain ⟨headerClaims, -, h⟩ := bind_eq_ok.1 h
      obtain ⟨payloadClaims, -, h⟩ := bind_eq_ok.1 h
      obtain rfl := Except.ok.inj h
      refine ⟨?_, hheader, hpayload, rfl, rfl, hsignature⟩
      rw [htext, hrest, JwtVerifier.signedText]
      simp only [List.append_assoc]

namespace JwtFilterRule

theorem accept_eq_ok {o : IterOrder Bytes Json} {lib : JsonLib} {r : JwtFilterRule} {now : Int}
    {tok : Bytes} {d : DecodedJwt} :
    r.accept o lib now tok = .ok d ↔
      DecodedJwt.ofToken lib tok = .ok d ∧ r.verifier.Accepts now d := by
  rw [accept, bind_eq_ok]
  simp only [seq_eq_ok, JwtVerifier.verify_iff, pure, Except.pure, Except.ok.injEq]
  constructor
  · rintro ⟨d', hd, haccepts, rfl⟩
    exact ⟨hd, haccepts⟩
  · rintro ⟨hd, haccepts⟩
    exact ⟨d, hd, haccepts, rfl⟩

theorem call_err (r : JwtFilterRule) (err : Option Bytes) : (r.call err).err = err := by
  unfold call
  split <;> rfl

/-- **The rule calls back once**, and a second time only with what its call for an accepted token has
    thrown. The first call is without an error exactly if the response is 404 already or the token of the
    request is accepted; in the latter case, and only then, the request has the token, whose signature an
    allowed algorithm has accepted for the text in front of the second dot. -/
theorem validate_cases (o : IterOrder Bytes Json) (lib : JsonLib) (r : JwtFilterRule) (now : Int)
    (status : Nat) (throws : GateCall → Option Bytes) (req : JwtRequest) :
    ∃ first again, (r.validate o lib now status throws req).1 = first :: again ∧
      (again = [] ∨ first.err = none ∧ status ≠ 404 ∧
        ∃ err, throws first = some err ∧ again.map GateCall.err = [some err]) ∧
      (first.err = none ↔ status = 404 ∨ getJwt req ≠ [] ∧
        ∃ d, DecodedJwt.ofToken lib (getJwt req) = .ok d ∧ r.verifier.Accepts now d) ∧
      ((r.validate o lib now status throws req).2 = req ∨ status ≠ 404 ∧ first.err = none ∧
        ∃ d sig, (r.validate o lib now status throws req).2 = { req with token := d } ∧
          DecodedJwt.ofToken lib (getJwt req) = .ok d ∧
          getJwt req = JwtVerifier.signedText d ++ bytes "." ++ sig ∧
          r.verifier.SignatureOk d ∧ r.verifier.PayloadOk now d.payloadClaims) := by
  unfold validate
  split
  · next hstatus =>
    exact ⟨.cb none, [], rfl, .inl rfl, iff_of_true rfl (.inl hstatus), .inl rfl⟩
  · next hstatus =>
    simp only
    split
    · next htok =>
      refine ⟨r.call (some noToken), [], rfl, .inl rfl, ?_, .inl rfl⟩
      rw [call_err]
      simp [hstatus, htok]
    · next htok =>
      cases haccept : r.accept o lib now (getJwt req) with
      | error err =>
        refine ⟨r.call (some err), [], rfl, .inl rfl, ?_, .inl rfl⟩
        rw [call_err]
        refine iff_of_false (Option.some_ne_none err) ?_
        rintro (h404 | ⟨-, d, hd⟩)
        · exact hstatus h404
        · rw [accept_eq_ok.2 hd] at haccept
          cases haccept
      | ok d =>
        have hd := accept_eq_ok.1 haccept
        have hfirst : (r.call none).err = none ↔ status = 404 ∨ getJwt req ≠ [] ∧
            ∃ d, DecodedJwt.ofToken lib (getJwt req) = .ok d ∧ r.verifier.Accepts now d := by
          rw [call_err]
          exact iff_of_true rfl (.inr ⟨htok, d, hd⟩)
        have hkept : status ≠ 404 ∧ (r.call none).err = none ∧
            ∃ d' sig, ({ req with token := d } : JwtRequest) = { req with token := d' } ∧
              DecodedJwt.ofToken lib (getJwt req) = .ok d' ∧
              getJwt req = JwtVerifier.signedText d' ++ bytes "." ++ sig ∧
              r.verifier.SignatureOk d' ∧ r.verifier.PayloadOk now d'.payloadClaims :=
          ⟨hstatus, call_err r none, d, d.signatureBase64, rfl, hd.1, (ofToken_eq_ok hd.1).1, hd.2⟩
        cases hthrows : throws (r.call none) with
        | none => exact ⟨r.call none, [], by simp, .inl rfl, hfirst, .inr (by simpa using hkept)⟩
        | some err =>
          refine ⟨r.call none, [r.call (some err)], by simp, .inr ?_, hfirst, .inr (by simpa using hkept)⟩
          exact ⟨call_err r none, hstatus, err, hthrows, by simp [call_err]⟩

end JwtFilterRule

end LibEvmvc
