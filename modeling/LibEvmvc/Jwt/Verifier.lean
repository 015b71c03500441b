import LibEvmvc.Jwt.Token

set_option autoImplicit false

/-! # Verifying tokens

A verifier has claims it requires, a leeway for the three dates, and the algorithms it allows by name. It
takes the algorithm that the header of the token names to check the signature of what stands in front of
the second dot; then it compares the dates with the clock and the claims with those it requires.

`Accepts` says what a token needs for that. Integers, strings and arrays can be required, but an array only
if it is empty, and so a verifier that asks for an audience accepts no token. -/

namespace LibEvmvc

/-- `claim::type`. -/
inductive ClaimType where
  | null
  | boolean
  | number
  | string
  | array
  | object
  | int64
  deriving DecidableEq, Repr

/-- `claim::get_type`. -/
def Json.getType : Json → ClaimType
  | .null => .null
  | .bool _ => .boolean
  | .int _ => .int64
  | .float _ => .number
  | .str _ => .string
  | .arr _ => .array
  | .obj _ => .object

/-- `jwt::verifier`. -/
structure JwtVerifier where
  claims : Claims
  defaultLeeway : Nat
  algs : UMap (id : Bytes → Bytes) JwtAlgorithm

/-- What a `token_verification_exception` says. -/
def verificationError (msg : Bytes) : Bytes := bytes "token verification failed: " ++ msg

def expName : Bytes := bytes "exp"
def iatName : Bytes := bytes "iat"
def nbfName : Bytes := bytes "nbf"
def audName : Bytes := bytes "aud"

/-- A date and a number of seconds later. -/
def addSeconds (d s : Int) : Int := wrap64 (d + wrap64 (s * 1000000000))

/-- A date and a number of seconds earlier. -/
def subSeconds (d s : Int) : Int := wrap64 (d - wrap64 (s * 1000000000))

/-- `assert_claim_eq`. -/
def assertClaimEq (d : DecodedJwt) (key : Bytes) (c : Json) : Except Bytes Unit := do
  match d.payloadClaims.get? key with
  | none => .error (verificationError (bytes "decoded_jwt is missing " ++ key ++ bytes " claim"))
  | some jc =>
    let differs := verificationError (bytes "claim " ++ key ++ bytes " does not match expected")
    if jc.getType ≠ c.getType then
      .error (verificationError (bytes "claim " ++ key ++ bytes " type mismatch"))
    else if c.getType = .int64 then
      if (← c.asDate) ≠ (← jc.asDate) then .error differs else .ok ()
    else if c.getType = .array then
      let s1 ← c.asSet
      let s2 ← jc.asSet
      if s1.length ≠ s2.length ∨ (s1.zip s2).any (fun p => p.1 != p.2) then .error differs else .ok ()
    else if c.getType = .string then
      if (← c.asString) ≠ (← jc.asString) then .error differs else .ok ()
    else .error (verificationError (bytes "internal error"))

namespace JwtVerifier

/-! ## Making a verifier -/

/-- `jwt::verify`. -/
def create : JwtVerifier := ⟨UMap.empty _ _, 0, UMap.empty _ _⟩

def leeway (v : JwtVerifier) (leeway : Nat) : JwtVerifier := { v with defaultLeeway := leeway }

def withClaim (v : JwtVerifier) (name : Bytes) (c : Json) : JwtVerifier :=
  { v with claims := v.claims.assign name c }

/-- What the leeways of single dates are kept as: a claim with a date. -/
def leewayClaim (leeway : Nat) : Json := .int (toTimeT (fromTimeT leeway))

def expiresAtLeeway (v : JwtVerifier) (leeway : Nat) : JwtVerifier :=
  v.withClaim expName (leewayClaim leeway)

def notBeforeLeeway (v : JwtVerifier) (leeway : Nat) : JwtVerifier :=
  v.withClaim nbfName (leewayClaim leeway)

def issuedAtLeeway (v : JwtVerifier) (leeway : Nat) : JwtVerifier :=
  v.withClaim iatName (leewayClaim leeway)

def withIssuer (v : JwtVerifier) (iss : Bytes) : JwtVerifier := v.withClaim (bytes "iss") (.str iss)

def withSubject (v : JwtVerifier) (sub : Bytes) : JwtVerifier := v.withClaim (bytes "sub") (.str sub)

/-- The strings of a set, in their order. -/
def withAudience (v : JwtVerifier) (aud : List Bytes) : JwtVerifier :=
  v.withClaim audName (.arr (aud.map .str))

def withId (v : JwtVerifier) (id : Bytes) : JwtVerifier := v.withClaim (bytes "jti") (.str id)

def allowAlgorithm (v : JwtVerifier) (alg : JwtAlgorithm) : JwtVerifier :=
  { v with algs := v.algs.assign alg.name alg }

/-! ## Verifying -/

/-- The leeway of a date in seconds: its own one, or the default one. -/
def leewayOf (v : JwtVerifier) (name : Bytes) : Except Bytes Int :=
  match v.claims.get? name with
  | some c => c.asDate.map toTimeT
  | none => .ok (wrap64 v.defaultLeeway)

def expired : Bytes := verificationError (bytes "token expired")

/-- What the checks of the three dates share: there is nothing to check if the token does not have it. -/
def checkDate (v : JwtVerifier) (d : DecodedJwt) (name : Bytes) (late : Int → Int → Bool) :
    Except Bytes Unit :=
  match d.payloadClaims.get? name with
  | none => .ok ()
  | some c => do
    let leeway ← v.leewayOf name
    let date ← c.asDate
    if late date leeway then .error expired else .ok ()

/-- The check of `exp`. -/
def checkExpiresAt (v : JwtVerifier) (now : Int) (d : DecodedJwt) : Except Bytes Unit :=
  v.checkDate d expName fun exp leeway => addSeconds exp leeway < now

/-- The check of `iat`. -/
def checkIssuedAt (v : JwtVerifier) (now : Int) (d : DecodedJwt) : Except Bytes Unit :=
  v.checkDate d iatName fun iat leeway => now < subSeconds iat leeway

/-- The check of `nbf`. -/
def checkNotBefore (v : JwtVerifier) (now : Int) (d : DecodedJwt) : Except Bytes Unit :=
  v.checkDate d nbfName fun nbf leeway => now < subSeconds nbf leeway

def noAudience : Bytes :=
  verificationError (bytes "token doesn't contain the required audience")

/-- One claim that is required. -/
def checkClaim (d : DecodedJwt) (key : Bytes) (c : Json) : Except Bytes Unit :=
  if key = expName ∨ key = iatName ∨ key = nbfName then .ok ()
  else if key = audName then
    match d.payloadClaims.get? audName with
    | none => .error noAudience
    | some jc => do
      let aud ← jc.asSet
      let expected ← c.asSet
      if expected.all (aud.contains ·) then .ok () else .error noAudience
  else assertClaimEq d key c

/-- All claims that are required, in the order of the map. -/
def checkClaims (d : DecodedJwt) : List (Bytes × Json) → Except Bytes Unit
  | [] => .ok ()
  | c :: rest => do
    checkClaim d c.1 c.2
    checkClaims d rest

/-- What is signed. -/
def signedText (d : DecodedJwt) : Bytes := d.headerBase64 ++ bytes "." ++ d.payloadBase64

/-- `verifier::verify`, at the time `now`. -/
def verify (o : IterOrder Bytes Json) (v : JwtVerifier) (now : Int) (d : DecodedJwt) :
    Except Bytes Unit := do
  let algo ← d.getAlgorithm
  match v.algs.get? algo with
  | none => .error (verificationError (bytes "wrong algorithm"))
  | some alg => do
    alg.verify (signedText d) d.signature
    v.checkExpiresAt now d
    v.checkIssuedAt now d
    v.checkNotBefore now d
    checkClaims d (v.claims.iterate o)

/-! ## What is accepted -/

/-- The signature is one that an allowed algorithm accepts, the one the header names. -/
def SignatureOk (v : JwtVerifier) (d : DecodedJwt) : Prop :=
  ∃ name alg, d.headerClaims.get? (bytes "alg") = some (.str name) ∧ v.algs.get? name = some alg ∧
    alg.verify (signedText d) d.signature = .ok ()

/-- A date of the token is an integer, and so is the leeway if it has one of its own. -/
def DateOk (v : JwtVerifier) (payload : Claims) (name : Bytes) (late : Int → Int → Bool) : Prop :=
  ∀ c, payload.get? name = some c →
    ∃ n leeway, c = .int n ∧ v.leewayOf name = .ok leeway ∧ late (fromTimeT (wrap64 n)) leeway = false

/-- The value a claim is required to have. -/
def Meets (key : Bytes) (c jc : Json) : Prop :=
  if key = audName then c = .arr [] ∧ jc = .arr []
  else
    (∃ m n, c = .int m ∧ jc = .int n ∧ fromTimeT (wrap64 m) = fromTimeT (wrap64 n)) ∨
      (∃ s, c = .str s ∧ jc = .str s) ∨ (c = .arr [] ∧ jc = .arr [])

/-- The claims that are required are there, the three dates apart. -/
def ClaimsOk (v : JwtVerifier) (payload : Claims) : Prop :=
  ∀ key c, v.claims.get? key = some c → ¬ (key = expName ∨ key = iatName ∨ key = nbfName) →
    ∃ jc, payload.get? key = some jc ∧ Meets key c jc

/-- What a payload needs to be accepted. -/
structure PayloadOk (v : JwtVerifier) (now : Int) (payload : Claims) : Prop where
  expiresAt : v.DateOk payload expName fun exp leeway => addSeconds exp leeway < now
  issuedAt : v.DateOk payload iatName fun iat leeway => now < subSeconds iat leeway
  notBefore : v.DateOk payload nbfName fun nbf leeway => now < subSeconds nbf leeway
  claims : v.ClaimsOk payload

/-- What a token needs to be accepted. -/
def Accepts (v : JwtVerifier) (now : Int) (d : DecodedJwt) : Prop :=
  v.SignatureOk d ∧ v.PayloadOk now d.payloadClaims

end JwtVerifier

/-! ## Claims -/

theorem asDate_eq_ok {j : Json} {t : Int} :
    j.asDate = .ok t ↔ ∃ n, j = .int n ∧ t = fromTimeT (wrap64 n) := by
  cases j with
  | int n => simp [Json.asDate, Json.asInt, Except.map, eq_comm]
  | _ => simp [Json.asDate, Json.asInt, Except.map]

theorem asString_eq_ok {j : Json} {s : Bytes} : j.asString = .ok s ↔ j = .str s := by
  cases j <;> simp [Json.asString]

/-- Only an empty array is a set. -/
theorem asSet_eq_ok {j : Json} {l : List Bytes} : j.asSet = .ok l ↔ j = .arr [] ∧ l = [] := by
  cases j with
  | arr elems =>
    cases elems with
    | nil => simp [Json.asSet, eq_comm]
    | cons e elems => simp [Json.asSet]
  | _ => simp [Json.asSet]

theorem checkDate_eq_ok (v : JwtVerifier) (d : DecodedJwt) (name : Bytes) (late : Int → Int → Bool) :
    v.checkDate d name late = .ok () ↔ v.DateOk d.payloadClaims name late := by
  unfold JwtVerifier.checkDate JwtVerifier.DateOk
  cases hget : d.payloadClaims.get? name with
  | none => simp
  | some c =>
    simp only [bind_eq_ok, asDate_eq_ok, Option.some.injEq, forall_eq']
    constructor
    · rintro ⟨leeway, hleeway, date, ⟨n, rfl, rfl⟩, hlate⟩
      split at hlate
      · exact absurd hlate (by simp)
      · next hnot => exact ⟨n, leeway, rfl, hleeway, by simpa using hnot⟩
    · rintro ⟨n, leeway, rfl, hleeway, hlate⟩
      exact ⟨leeway, hleeway, _, ⟨n, rfl, rfl⟩, by rw [hlate]; rfl⟩

theorem assertClaimEq_eq_ok (d : DecodedJwt) {key : Bytes} (hkey : key ≠ audName) (c : Json) :
    assertClaimEq d key c = .ok () ↔
      ∃ jc, d.payloadClaims.get? key = some jc ∧ JwtVerifier.Meets key c jc := by
  unfold assertClaimEq JwtVerifier.Meets
  cases hget : d.payloadClaims.get? key with
  | none => simp
  | some jc =>
    simp only [Option.some.injEq, exists_eq_left', if_neg hkey]
    -- one case for each pair of types; only values of one type can agree
    cases c <;> cases jc <;>
      simp [Json.getType, bind_eq_ok, asDate_eq_ok, asString_eq_ok, asSet_eq_ok]
    exact eq_comm

theorem checkClaim_eq_ok (d : DecodedJwt) (key : Bytes) (c : Json) :
    JwtVerifier.checkClaim d key c = .ok () ↔
      (¬ (key = expName ∨ key = iatName ∨ key = nbfName) →
        ∃ jc, d.payloadClaims.get? key = some jc ∧ JwtVerifier.Meets key c jc) := by
  unfold JwtVerifier.checkClaim
  split
  · next hdate => simp [hdate]
  · next hdate =>
    rw [forall_prop_of_true hdate]
    split
    · next haud =>
      subst haud
      cases hget : d.payloadClaims.get? audName with
      | none => simp
      | some jc =>
        simp only [bind_eq_ok, asSet_eq_ok, Option.some.injEq, exists_eq_left', JwtVerifier.Meets]
        constructor
        · rintro ⟨aud, ⟨rfl, rfl⟩, expected, ⟨rfl, rfl⟩, -⟩
          exact ⟨rfl, rfl⟩
        · rintro ⟨rfl, rfl⟩
          exact ⟨[], ⟨rfl, rfl⟩, [], ⟨rfl, rfl⟩, rfl⟩
    · next haud => exact assertClaimEq_eq_ok d haud c

theorem checkClaims_eq_ok (d : DecodedJwt) (cs : List (Bytes × Json)) :
    JwtVerifier.checkClaims d cs = .ok () ↔ ∀ c ∈ cs, JwtVerifier.checkClaim d c.1 c.2 = .ok () := by
  induction cs with
  | nil => simp [JwtVerifier.checkClaims]
  | cons c cs ih =>
    rw [JwtVerifier.checkClaims, seq_eq_ok, List.forall_mem_cons, ih]

theorem getAlgorithm_eq_ok {d : DecodedJwt} {name : Bytes} :
    d.getAlgorithm = .ok name ↔ d.headerClaims.get? (bytes "alg") = some (.str name) := by
  unfold DecodedJwt.getAlgorithm DecodedJwt.getHeaderClaim
  rw [bind_eq_ok]
  cases d.headerClaims.get? (bytes "alg") with
  | none => simp
  | some c => simp [asString_eq_ok]

namespace JwtVerifier

/-- **A token is accepted exactly if** an allowed algorithm accepts its signature, its dates are in time,
    and it has the claims that are required; the order of the map of claims does not matter. -/
theorem verify_iff (o : IterOrder Bytes Json) (v : JwtVerifier) (now : Int) (d : DecodedJwt) :
    v.verify o now d = .ok () ↔ v.Accepts now d := by
  have hclaims : checkClaims d (v.claims.iterate o) = .ok () ↔ v.ClaimsOk d.payloadClaims := by
    rw [checkClaims_eq_ok]
    constructor
    · intro h key c hget
      obtain ⟨e, he, rfl, rfl⟩ := UMap.mem_of_get? hget
      exact (checkClaim_eq_ok d e.1 e.2).1 (h e ((UMap.mem_iterate _ o e).2 he))
    · intro h e he
      rw [checkClaim_eq_ok]
      exact h e.1 e.2 (UMap.get?_of_mem ((UMap.mem_iterate _ o e).1 he))
  rw [verify, bind_eq_ok]
  constructor
  · rintro ⟨name, halg, h⟩
    cases hget : v.algs.get? name with
    | none => simp [hget] at h
    | some alg =>
      simp only [hget, seq_eq_ok, checkExpiresAt, checkIssuedAt, checkNotBefore, checkDate_eq_ok] at h
      obtain ⟨hverify, hexp, hiat, hnbf, hrest⟩ := h
      exact ⟨⟨name, alg, getAlgorithm_eq_ok.1 halg, hget, hverify⟩, ⟨hexp, hiat, hnbf, hclaims.1 hrest⟩⟩
  · rintro ⟨⟨name, alg, halg, hget, hverify⟩, ⟨hexp, hiat, hnbf, hrest⟩⟩
    refine ⟨name, getAlgorithm_eq_ok.2 halg, ?_⟩
    simp only [hget, seq_eq_ok, checkExpiresAt, checkIssuedAt, checkNotBefore, checkDate_eq_ok]
    exact ⟨hverify, hexp, hiat, hnbf, hclaims.2 hrest⟩

/-! ## Dates -/

theorem wrap64_eq {n : Int} (h : -2 ^ 63 ≤ n) (h' : n < 2 ^ 63) : wrap64 n = n := by
  rw [wrap64, Int.bmod_def]
  split <;> omega

/-- With dates and leeways that 64 bits of nanoseconds can hold, a token has expired exactly if the clock
    is past its date and the leeway. -/
theorem expired_iff {n leeway now : Int} (hn : n.natAbs ≤ 4000000000) (hl : leeway.natAbs ≤ 4000000000) :
    addSeconds (fromTimeT (wrap64 n)) leeway < now ↔ (n + leeway) * 1000000000 < now := by
  rw [addSeconds, fromTimeT, wrap64_eq (n := n) (by omega) (by omega),
    wrap64_eq (n := n * 1000000000) (by omega) (by omega),
    wrap64_eq (n := leeway * 1000000000) (by omega) (by omega), wrap64_eq (by omega) (by omega)]
  omega

theorem early_iff {n leeway now : Int} (hn : n.natAbs ≤ 4000000000) (hl : leeway.natAbs ≤ 4000000000) :
    now < subSeconds (fromTimeT (wrap64 n)) leeway ↔ now < (n - leeway) * 1000000000 := by
  rw [subSeconds, fromTimeT, wrap64_eq (n := n) (by omega) (by omega),
    wrap64_eq (n := n * 1000000000) (by omega) (by omega),
    wrap64_eq (n := leeway * 1000000000) (by omega) (by omega), wrap64_eq (by omega) (by omega)]
  omega

/-! ## Signing and verifying -/

theorem DateOk.congr {v : JwtVerifier} {m m' : Claims} (h : ∀ k, m.get? k = m'.get? k) {name : Bytes}
    {late : Int → Int → Bool} (hdate : v.DateOk m' name late) : v.DateOk m name late :=
  fun c hc => hdate c (by rw [← h, hc])

theorem PayloadOk.congr {v : JwtVerifier} {now : Int} {m m' : Claims} (h : ∀ k, m.get? k = m'.get? k)
    (hpayload : v.PayloadOk now m') : v.PayloadOk now m where
  expiresAt := hpayload.expiresAt.congr h
  issuedAt := hpayload.issuedAt.congr h
  notBefore := hpayload.notBefore.congr h
  claims key c hget hdate := by
    obtain ⟨jc, hjc, hmeets⟩ := hpayload.claims key c hget hdate
    exact ⟨jc, by rw [h, hjc], hmeets⟩

/-- **What was signed comes back, and is verified.** The token that `sign` returns is decoded to the claims
    of the builder, with the name of the algorithm in the header, and to the signature of the text in front
    of its second dot. A verifier that allows the algorithm accepts it exactly if the claims of the builder
    are in time and those that are required. -/
theorem verify_sign (lib : JsonLib) (hlib : ∀ j s, j.Valid → lib.dump j = .ok s → lib.parse s = .ok j)
    (o o' : IterOrder Bytes Json) (b : JwtBuilder) (hheader : ValidClaims b.headerClaims)
    (hpayload : ValidClaims b.payloadClaims) (algo alg : JwtAlgorithm) (token : Bytes)
    (hsign : b.sign o lib algo = .ok token) (v : JwtVerifier)
    (hallowed : v.algs.get? algo.name = some alg)
    (haccepts : ∀ data sig, algo.sign data = .ok sig → alg.verify data sig = .ok ()) (now : Int) :
    ∃ d, DecodedJwt.ofToken lib token = .ok d ∧ d.empty = false ∧ d.token = token ∧
      algo.sign (signedText d) = .ok d.signature ∧
      (∀ k, d.headerClaims.get? k =
        if k = bytes "alg" then some (.str algo.name) else b.headerClaims.get? k) ∧
      (∀ k, d.payloadClaims.get? k = b.payloadClaims.get? k) ∧
      (v.verify o' now d = .ok () ↔ v.PayloadOk now b.payloadClaims) := by
  obtain ⟨d, hdecode, hempty, htoken, hsignature, halg, hclaims⟩ :=
    decode_signed lib hlib o b hheader hpayload algo token hsign
  refine ⟨d, hdecode, hempty, htoken, hsignature, halg, hclaims, ?_⟩
  rw [verify_iff]
  constructor
  · exact fun h => h.2.congr fun k => (hclaims k).symm
  · intro h
    refine ⟨⟨algo.name, alg, ?_, hallowed, haccepts _ _ hsignature⟩, h.congr hclaims⟩
    rw [halg, if_pos rfl]

theorem verify_sign_issuer :
    ∃ token d, (JwtBuilder.create.setIssuer (bytes "me")).sign (IterOrder.insertion _ _) plainJson
        JwtAlgorithm.none = .ok token ∧
      DecodedJwt.ofToken plainJson token = .ok d ∧ d.empty = false ∧ d.token = token ∧
      JwtAlgorithm.none.sign (signedText d) = .ok d.signature ∧
      (∀ k, d.headerClaims.get? k =
        if k = bytes "alg" then some (.str JwtAlgorithm.none.name)
        else JwtBuilder.create.headerClaims.get? k) ∧
      (∀ k, d.payloadClaims.get? k =
        (JwtBuilder.create.setIssuer (bytes "me")).payloadClaims.get? k) ∧
      ((create.allowAlgorithm JwtAlgorithm.none).verify (IterOrder.insertion _ _) 0 d = .ok () ↔
        (create.allowAlgorithm JwtAlgorithm.none).PayloadOk 0
          (JwtBuilder.create.setIssuer (bytes "me")).payloadClaims) := by
  have hnone : ValidClaims (UMap.empty _ _) := fun k v h => absurd h (by simp)
  have hsign : (JwtBuilder.create.setIssuer (bytes "me")).sign (IterOrder.insertion _ _) plainJson
      JwtAlgorithm.none = .ok (bytes "eyJhbGciOiJub25lIn0.eyJpc3MiOiJtZSJ9.") := by
    decide +kernel
  obtain ⟨d, hd⟩ := verify_sign plainJson (fun j s _ => plainJson_reads j s) (IterOrder.insertion _ _)
    (IterOrder.insertion _ _) (JwtBuilder.create.setIssuer (bytes "me")) hnone (hnone.assign _ (.str _))
    JwtAlgorithm.none JwtAlgorithm.none _ hsign (create.allowAlgorithm JwtAlgorithm.none) rfl
    (fun data sig h => by
      obtain rfl := Except.ok.inj h
      rfl) 0
  exact ⟨_, d, hsign, hd⟩

/-- **A verifier that asks for an audience accepts no token.** -/
theorem withAudience_rejects (o : IterOrder Bytes Json) (v : JwtVerifier) (aud : List Bytes)
    (haud : aud ≠ []) (now : Int) (d : DecodedJwt) : (v.withAudience aud).verify o now d ≠ .ok () := by
  rw [Ne, verify_iff]
  rintro ⟨-, hpayload⟩
  have hget : (v.withAudience aud).claims.get? audName = some (.arr (aud.map .str)) := by
    rw [withAudience, withClaim, UMap.get?_assign, if_pos rfl]
  obtain ⟨jc, -, hmeets⟩ := hpayload.claims audName _ hget (by decide)
  rw [Meets, if_pos rfl] at hmeets
  have hnil : aud.map Json.str = [] := Json.arr.inj hmeets.1
  exact haud (List.map_eq_nil_iff.1 hnil)

theorem withAudience_rejects_empty :
    (create.withAudience [bytes "me"]).verify (IterOrder.insertion _ _) 0
      ⟨UMap.empty _ _, UMap.empty _ _, true, [], [], [], [], [], [], []⟩ ≠ .ok () :=
  withAudience_rejects _ _ [bytes "me"] (by decide) _ _

/-- **An accepted token is in time**: with dates and leeways of at most 4000000000 seconds, the clock is
    not past `exp` and its leeway, and not before `iat` and `nbf` less theirs. -/
theorem accepted_in_time (o : IterOrder Bytes Json) (v : JwtVerifier) (now : Int) (d : DecodedJwt)
    (h : v.verify o now d = .ok ()) (name : Bytes) (n leeway : Int)
    (hname : name = expName ∨ name = iatName ∨ name = nbfName)
    (hget : d.payloadClaims.get? name = some (.int n)) (hleeway : v.leewayOf name = .ok leeway)
    (hn : n.natAbs ≤ 4000000000) (hl : leeway.natAbs ≤ 4000000000) :
    if name = expName then now ≤ (n + leeway) * 1000000000 else (n - leeway) * 1000000000 ≤ now := by
  obtain ⟨-, hexp, hiat, hnbf, -⟩ := (verify_iff o v now d).1 h
  have hdate {late : Int → Int → Bool} (hok : v.DateOk d.payloadClaims name late) :
      late (fromTimeT (wrap64 n)) leeway = false := by
    obtain ⟨m, l, hm, hleeway', hlate⟩ := hok _ hget
    obtain rfl := Json.int.inj hm
    obtain rfl : leeway = l := Except.ok.inj (hleeway.symm.trans hleeway')
    exact hlate
  obtain rfl | rfl | rfl := hname
  · rw [if_pos rfl]
    have hlate := hdate hexp
    rw [decide_eq_false_iff_not, expired_iff hn hl] at hlate
    exact Int.not_lt.1 hlate
  · rw [if_neg (by decide)]
    have hlate := hdate hiat
    rw [decide_eq_false_iff_not, early_iff hn hl] at hlate
    exact Int.not_lt.1 hlate
  · rw [if_neg (by decide)]
    have hlate := hdate hnbf
    rw [decide_eq_false_iff_not, early_iff hn hl] at hlate
    exact Int.not_lt.1 hlate

theorem accepted_before_five :
    if expName = expName then (3000000000 : Int) ≤ (5 + 0) * 1000000000
    else (5 - 0) * 1000000000 ≤ (3000000000 : Int) :=
  accepted_in_time (IterOrder.insertion _ _) (create.allowAlgorithm JwtAlgorithm.none) 3000000000
    ⟨(UMap.empty _ _).assign (bytes "alg") (.str (bytes "none")),
      (UMap.empty _ _).assign expName (.int 5), false, [], [], [], [], [], [], []⟩
    (by decide +kernel) expName 5 0 (.inl rfl) rfl (by decide +kernel) (by decide) (by decide)

end JwtVerifier

end LibEvmvc
