import Mathlib.Algebra.Order.Ring.Int
import LibEvmvc.Foundation.UMap
import LibEvmvc.Jwt.Base64

set_option autoImplicit false

/-! # JSON Web Tokens

A token is a header, a payload and a signature, each in base 64 for URLs without its fillings, with
dots between them. `sign` writes one from the claims of a builder; the constructor of `decoded_jwt`
puts the fillings back, decodes the three parts and reads the claims of the first two. What a builder
has signed comes back, claim for claim, and the text that was signed is what stands in front of the
second dot. -/

namespace LibEvmvc

/-! ## JSON values -/

/-- A JSON value. A floating point number is the text it is written as. -/
inductive Json where
  | null
  | bool (b : Bool)
  | int (n : Int)
  | float (text : Bytes)
  | str (s : Bytes)
  | arr (elems : List Json)
  | obj (fields : List (Bytes × Json))

/-- What the JSON library does: it writes a value, unless a string is not UTF-8, and reads one. -/
structure JsonLib where
  dump : Json → Except Bytes Bytes
  parse : Bytes → Except Bytes Json

namespace Json

/-- The values there are: an object has its fields in the order of their keys, and a number fits a
    machine integer. -/
inductive Valid : Json → Prop where
  | null : Valid .null
  | bool (b : Bool) : Valid (.bool b)
  | int {n : Int} : -2 ^ 63 ≤ n → n < 2 ^ 64 → Valid (.int n)
  | float (text : Bytes) : Valid (.float text)
  | str (s : Bytes) : Valid (.str s)
  | arr {elems : List Json} : (∀ e ∈ elems, Valid e) → Valid (.arr elems)
  | obj {fields : List (Bytes × Json)} : (fields.map Prod.fst).Pairwise (· < ·) →
      (∀ f ∈ fields, Valid f.2) → Valid (.obj fields)

/-- An assignment to a field of an object, whose fields are in the order of their keys. -/
def setKey (fields : List (Bytes × Json)) (k : Bytes) (v : Json) : List (Bytes × Json) :=
  match fields with
  | [] => [(k, v)]
  | f :: rest =>
    if k < f.1 then (k, v) :: f :: rest
    else if k = f.1 then (k, v) :: rest
    else f :: setKey rest k v

/-- A value that begins as null and is assigned fields. -/
def ofFields (fields : List (Bytes × Json)) : Json :=
  if fields = [] then .null else .obj (fields.foldl (fun o f => setKey o f.1 f.2) [])

/-- `items()`: the fields of an object; an array has its places as keys, and any other value but null
    is one item without a key. -/
def items : Json → List (Bytes × Json)
  | .obj fields => fields
  | .arr elems => elems.zipIdx.map fun e => (numToStr e.2, e.1)
  | .null => []
  | v => [([], v)]

end Json

/-- The value that is found first under a key. -/
def field (fields : List (Bytes × Json)) (k : Bytes) : Option Json :=
  (fields.find? fun f => f.1 = k).map Prod.snd

/-! ## Claims -/

/-- Header or payload claims. -/
abbrev Claims := UMap (id : Bytes → Bytes) Json

/-- A date is nanoseconds, in 64 bits. -/
def wrap64 (n : Int) : Int := Int.bmod n (2 ^ 64)

/-- `system_clock::from_time_t`. -/
def fromTimeT (t : Int) : Int := wrap64 (t * 1000000000)

/-- `system_clock::to_time_t`. -/
def toTimeT (d : Int) : Int := d.tdiv 1000000000

/-- `std::bad_cast`. -/
def badCast : Bytes := bytes "std::bad_cast"

namespace Json

/-- `claim::as_string`. -/
def asString : Json → Except Bytes Bytes
  | .str s => .ok s
  | _ => .error badCast

/-- `claim::as_int`. -/
def asInt : Json → Except Bytes Int
  | .int n => .ok (wrap64 n)
  | _ => .error badCast

/-- `claim::as_date`. -/
def asDate (j : Json) : Except Bytes Int := j.asInt.map fromTimeT

/-- `claim::as_set`. The loop throws at the first element, whether it is a string or not: the throw is
    not the other branch of the test. -/
def asSet : Json → Except Bytes (List Bytes)
  | .arr [] => .ok []
  | .arr (_ :: _) => .error badCast
  | _ => .error badCast

end Json

/-! ## Building and signing -/

/-- What signs and verifies: its name, the signature of a text, and the check of one. -/
structure JwtAlgorithm where
  name : Bytes
  sign : Bytes → Except Bytes Bytes
  verify : Bytes → Bytes → Except Bytes Unit

/-- `algorithm::none`: the signature is empty. -/
def JwtAlgorithm.none : JwtAlgorithm where
  name := bytes "none"
  sign := fun _ => .ok []
  verify := fun _ signature =>
    if signature ≠ [] then .error (bytes "signature verification failed") else .ok ()

/-- `jwt::builder`. -/
structure JwtBuilder where
  headerClaims : Claims
  payloadClaims : Claims

namespace JwtBuilder

/-- `jwt::create`. -/
def create : JwtBuilder := ⟨UMap.empty _ _, UMap.empty _ _⟩

def setHeaderClaim (b : JwtBuilder) (k : Bytes) (c : Json) : JwtBuilder :=
  { b with headerClaims := b.headerClaims.assign k c }

def setPayloadClaim (b : JwtBuilder) (k : Bytes) (c : Json) : JwtBuilder :=
  { b with payloadClaims := b.payloadClaims.assign k c }

def setAlgorithm (b : JwtBuilder) (s : Bytes) : JwtBuilder := b.setHeaderClaim (bytes "alg") (.str s)

def setType (b : JwtBuilder) (s : Bytes) : JwtBuilder := b.setHeaderClaim (bytes "typ") (.str s)

def setIssuer (b : JwtBuilder) (s : Bytes) : JwtBuilder := b.setPayloadClaim (bytes "iss") (.str s)

def setSubject (b : JwtBuilder) (s : Bytes) : JwtBuilder := b.setPayloadClaim (bytes "sub") (.str s)

/-- The strings of a set, in their order. -/
def setAudience (b : JwtBuilder) (l : List Bytes) : JwtBuilder :=
  b.setPayloadClaim (bytes "aud") (.arr (l.map .str))

def setExpiresAt (b : JwtBuilder) (d : Int) : JwtBuilder :=
  b.setPayloadClaim (bytes "exp") (.int (toTimeT d))

def setNotBefore (b : JwtBuilder) (d : Int) : JwtBuilder :=
  b.setPayloadClaim (bytes "nbf") (.int (toTimeT d))

def setIssuedAt (b : JwtBuilder) (d : Int) : JwtBuilder :=
  b.setPayloadClaim (bytes "iat") (.int (toTimeT d))

def setId (b : JwtBuilder) (s : Bytes) : JwtBuilder := b.setPayloadClaim (bytes "jti") (.str s)

end JwtBuilder

/-- What stands in front of the first `pat`: all of it if there is none. -/
def beforeFirst (pat : Bytes) : Bytes → Bytes
  | [] => []
  | c :: s => if pat <+: c :: s then [] else c :: beforeFirst pat s

/-- The parts of a token have no fillings. -/
def encodePart (data : Bytes) : Bytes := beforeFirst base64url.fill (base64url.encode data)

/-- `builder::sign`. The claims are visited in the order of their maps. -/
def JwtBuilder.sign (o : IterOrder Bytes Json) (lib : JsonLib) (b : JwtBuilder) (algo : JwtAlgorithm) :
    Except Bytes Bytes := do
  let b := b.setAlgorithm algo.name
  let objHeader := Json.ofFields (b.headerClaims.iterate o)
  let objPayload := Json.ofFields (b.payloadClaims.iterate o)
  let header ← lib.dump objHeader
  let payload ← lib.dump objPayload
  let token := encodePart header ++ bytes "." ++ encodePart payload
  let signature ← algo.sign token
  return token ++ bytes "." ++ encodePart signature

/-! ## Decoding -/

/-- `jwt::decoded_jwt`. -/
structure DecodedJwt where
  headerClaims : Claims
  payloadClaims : Claims
  empty : Bool
  token : Bytes
  header : Bytes
  headerBase64 : Bytes
  payload : Bytes
  payloadBase64 : Bytes
  signature : Bytes
  signatureBase64 : Bytes

/-- What stands before and behind the first dot. -/
def splitDot (s : Bytes) : Option (Bytes × Bytes) :=
  match s.span (· != 46) with
  | (_, []) => none
  | (pre, _ :: post) => some (pre, post)

/-- `fix_padding`: a token does not have its fillings. -/
def fixPadding (s : Bytes) : Bytes :=
  match s.length % 4 with
  | 1 => s ++ base64url.fill ++ base64url.fill ++ base64url.fill
  | 2 => s ++ base64url.fill ++ base64url.fill
  | 3 => s ++ base64url.fill
  | _ => s

/-- `parse_claims`. -/
def parseClaims (lib : JsonLib) (s : Bytes) : Except Bytes Claims := do
  let val ← lib.parse s
  return val.items.foldl (fun m e => m.emplace e.1 e.2) (UMap.empty _ _)

def invalidToken : Bytes := bytes "invalid token supplied"

namespace DecodedJwt

/-- The constructor that parses a token. -/
def ofToken (lib : JsonLib) (token : Bytes) : Except Bytes DecodedJwt :=
  match splitDot token with
  | none => .error invalidToken
  | some (headerBase64, rest) =>
    match splitDot rest with
    | none => .error invalidToken
    | some (payloadBase64, signatureBase64) => do
      let header ← base64url.decode (fixPadding headerBase64)
      let payload ← base64url.decode (fixPadding payloadBase64)
      let signature ← base64url.decode (fixPadding signatureBase64)
      let headerClaims ← parseClaims lib header
      let payloadClaims ← parseClaims lib payload
      return ⟨headerClaims, payloadClaims, false, token, header, headerBase64, payload, payloadBase64,
        signature, signatureBase64⟩

/-- `has_payload_claim`. -/
def hasPayloadClaim (d : DecodedJwt) (name : Bytes) : Bool := (d.payloadClaims.get? name).isSome

def claimNotFound : Bytes := bytes "claim not found"

/-- `get_payload_claim`. -/
def getPayloadClaim (d : DecodedJwt) (name : Bytes) : Except Bytes Json :=
  match d.payloadClaims.get? name with
  | some c => .ok c
  | none => .error claimNotFound

/-- `get_header_claim`. -/
def getHeaderClaim (d : DecodedJwt) (name : Bytes) : Except Bytes Json :=
  match d.headerClaims.get? name with
  | some c => .ok c
  | none => .error claimNotFound

/-- `get_algorithm`. -/
def getAlgorithm (d : DecodedJwt) : Except Bytes Bytes := do (← d.getHeaderClaim (bytes "alg")).asString

end DecodedJwt

/-! ## Parts of a token -/

theorem beforeFirst_digits {vs : List Nat} (hvs : ∀ v ∈ vs, v < 64) (k : Nat) :
    beforeFirst base64url.fill (base64url.spell vs ++ base64url.fills k) = base64url.spell vs := by
  obtain ⟨c, rest, hfill, hc⟩ := base64url.fill_clear
  induction vs with
  | nil =>
    cases k with
    | zero => rfl
    | succ k =>
      have hpos : base64url.fills (k + 1) = base64url.fill ++ base64url.fills k := by
        simp [Alphabet.fills, List.replicate_succ]
      show beforeFirst base64url.fill (base64url.fills (k + 1)) = []
      rw [hpos, hfill]
      rw [List.cons_append, beforeFirst, if_pos]
      exact ⟨base64url.fills k, by rw [List.cons_append]⟩
  | cons v vs ih =>
    rw [List.forall_mem_cons] at hvs
    show beforeFirst base64url.fill (base64url.digit v :: (base64url.spell vs ++ base64url.fills k)) = _
    rw [beforeFirst, if_neg, ih hvs.2]
    · rfl
    · rw [hfill]
      intro h
      have hhead : c = base64url.digit v := (List.cons_prefix_cons.1 h).1
      exact hc (hhead ▸ Alphabet.digit_mem hvs.1)

theorem encodePart_eq (data : Bytes) : encodePart data = base64url.spell (sextets data) := by
  rw [encodePart, Alphabet.encode_eq, beforeFirst_digits (sextets_lt data)]

/-- The fillings that were cut off are put back. -/
theorem decode_fixPadding (data : Bytes) :
    base64url.decode (fixPadding (encodePart data)) = .ok data := by
  have hlen : (encodePart data).length = (sextets data).length := by
    rw [encodePart_eq, Alphabet.spell, List.length_map]
  have hfix : fixPadding (encodePart data) = base64url.encode data := by
    rw [Alphabet.encode_eq, ← encodePart_eq, fixPadding, hlen, length_sextets]
    obtain hr | hr | hr : data.length % 3 = 0 ∨ data.length % 3 = 1 ∨ data.length % 3 = 2 := by omega
    · simp [hr, Alphabet.fills]
    · simp [hr, Alphabet.fills]
    · simp [hr, Alphabet.fills]
  rw [hfix, Alphabet.decode_encode]

theorem not_dot_encodePart (data : Bytes) : (46 : UInt8) ∉ encodePart data := by
  rw [encodePart_eq]
  intro h
  exact absurd (Alphabet.spell_digits (sextets_lt data) _ h) (by decide)

theorem splitDot_append {pre : Bytes} (h : (46 : UInt8) ∉ pre) (post : Bytes) :
    splitDot (pre ++ bytes "." ++ post) = some (pre, post) := by
  have hspan : (pre ++ 46 :: post).span (· != 46) = (pre, 46 :: post) := by
    rw [List.span_eq_takeWhile_dropWhile]
    have hall : ∀ c ∈ pre, (c != 46) = true := by
      intro c hc
      rw [bne_iff_ne]
      rintro rfl
      exact h hc
    simp [List.takeWhile_append_of_pos hall, List.dropWhile_append_of_pos hall]
  have htext : pre ++ bytes "." ++ post = pre ++ 46 :: post := by
    rw [List.append_assoc]
    rfl
  rw [htext, splitDot, hspan]

/-! ## Fields -/

theorem field_cons (f : Bytes × Json) (fields : List (Bytes × Json)) (k : Bytes) :
    field (f :: fields) k = if f.1 = k then some f.2 else field fields k := by
  simp only [field, List.find?_cons]
  by_cases h : f.1 = k <;> simp [h]

theorem field_setKey (fields : List (Bytes × Json)) (k k' : Bytes) (v : Json) :
    field (Json.setKey fields k v) k' = if k = k' then some v else field fields k' := by
  induction fields with
  | nil => simp [Json.setKey, field]
  | cons f fields ih =>
    rw [Json.setKey]
    split
    · rw [field_cons]
    · split
      · next hk =>
        rw [field_cons, field_cons, hk]
        split <;> rfl
      · next hk =>
        rw [field_cons, field_cons, ih]
        split
        · next hf =>
          rw [if_neg]
          rintro rfl
          exact hk hf.symm
        · rfl

/-- The keys stay in order. -/
theorem setKey_sorted {fields : List (Bytes × Json)} (h : (fields.map Prod.fst).Pairwise (· < ·))
    (k : Bytes) (v : Json) :
    ((Json.setKey fields k v).map Prod.fst).Pairwise (· < ·) ∧
      ∀ k' ∈ (Json.setKey fields k v).map Prod.fst, k' = k ∨ k' ∈ fields.map Prod.fst := by
  induction fields with
  | nil => simp [Json.setKey]
  | cons f fields ih =>
    rw [List.map_cons, List.pairwise_cons] at h
    obtain ⟨hhead, htail⟩ := h
    rw [Json.setKey]
    split
    · next hlt =>
      refine ⟨?_, by simp⟩
      simp only [List.map_cons, List.pairwise_cons, List.mem_cons]
      refine ⟨?_, hhead, htail⟩
      rintro k' (rfl | hk')
      · exact hlt
      · exact Std.lt_trans hlt (hhead k' hk')
    · next hlt =>
      split
      · next heq =>
        refine ⟨?_, by simp +contextual⟩
        simp only [List.map_cons, List.pairwise_cons]
        exact ⟨by rw [heq]; exact hhead, htail⟩
      · next hne =>
        obtain ⟨hsorted, hkeys⟩ := ih htail
        simp only [List.map_cons, List.pairwise_cons, List.mem_cons]
        refine ⟨⟨fun k' hk' => ?_, hsorted⟩, ?_⟩
        · rcases hkeys k' hk' with rfl | hk'
          · exact Std.lt_of_le_of_ne (Std.not_lt.1 hlt) (Ne.symm hne)
          · exact hhead k' hk'
        · rintro k' (rfl | hk')
          · exact .inr (.inl rfl)
          · exact (hkeys k' hk').imp_right .inr

theorem mem_setKey {fields : List (Bytes × Json)} {k : Bytes} {v : Json} {f : Bytes × Json}
    (h : f ∈ Json.setKey fields k v) : f = (k, v) ∨ f ∈ fields := by
  induction fields with
  | nil => simpa [Json.setKey] using h
  | cons g fields ih =>
    rw [Json.setKey] at h
    split at h
    · simpa using h
    · split at h
      · rcases List.mem_cons.1 h with rfl | h
        · exact .inl rfl
        · exact .inr (List.mem_cons_of_mem _ h)
      · rcases List.mem_cons.1 h with rfl | h
        · exact .inr List.mem_cons_self
        · exact (ih h).imp_right (List.mem_cons_of_mem _)

/-- With one value for each key, it does not matter where a field stands. -/
theorem field_eq_some_iff {fields : List (Bytes × Json)} (h : (fields.map Prod.fst).Nodup) {k : Bytes}
    {v : Json} : field fields k = some v ↔ (k, v) ∈ fields := by
  induction fields with
  | nil => simp [field]
  | cons f fields ih =>
    rw [List.map_cons, List.nodup_cons] at h
    rw [field_cons, List.mem_cons]
    split
    · next hk =>
      rw [Option.some.injEq]
      constructor
      · rintro rfl
        exact .inl (by rw [← hk])
      · rintro (hf | hmem)
        · rw [← hf]
        · exact absurd (List.mem_map.2 ⟨_, hmem, hk.symm⟩) h.1
    · next hk =>
      rw [ih h.2]
      refine (or_iff_right ?_).symm
      rintro rfl
      exact hk rfl

theorem field_perm {fields fields' : List (Bytes × Json)} (hp : fields'.Perm fields)
    (h : (fields.map Prod.fst).Nodup) (k : Bytes) : field fields' k = field fields k := by
  refine Option.ext fun v => ?_
  rw [field_eq_some_iff h, field_eq_some_iff ((hp.map _).nodup_iff.2 h), hp.mem_iff]

theorem field_iterate (o : IterOrder Bytes Json) (m : Claims) (k : Bytes) :
    field (m.iterate o) k = m.get? k :=
  field_perm (o.perm m.entries) m.nodup k

theorem nodup_iterate (o : IterOrder Bytes Json) (m : Claims) :
    ((m.iterate o).map Prod.fst).Nodup :=
  ((o.perm m.entries).map Prod.fst).nodup_iff.2 m.nodup

/-! ## Objects -/

theorem foldl_setKey {fields : List (Bytes × Json)} (h : (fields.map Prod.fst).Nodup)
    (acc : List (Bytes × Json)) (hacc : (acc.map Prod.fst).Pairwise (· < ·)) :
    ((fields.foldl (fun o f => Json.setKey o f.1 f.2) acc).map Prod.fst).Pairwise (· < ·) ∧
      (∀ f ∈ fields.foldl (fun o f => Json.setKey o f.1 f.2) acc, f ∈ fields ∨ f ∈ acc) ∧
      ∀ k, field (fields.foldl (fun o f => Json.setKey o f.1 f.2) acc) k =
        (field fields k).or (field acc k) := by
  induction fields generalizing acc with
  | nil => exact ⟨hacc, fun f hf => .inr hf, fun k => rfl⟩
  | cons g fields ih =>
    rw [List.map_cons, List.nodup_cons] at h
    obtain ⟨hsorted, hmem, hfield⟩ := ih h.2 _ (setKey_sorted hacc g.1 g.2).1
    rw [List.foldl_cons]
    refine ⟨hsorted, fun f hf => ?_, fun k => ?_⟩
    · rcases hmem f hf with hf | hf
      · exact .inl (List.mem_cons_of_mem _ hf)
      · rcases mem_setKey hf with rfl | hf
        · exact .inl List.mem_cons_self
        · exact .inr hf
    · rw [hfield, field_setKey, field_cons]
      split
      · next hk =>
        have hnone : field fields k = none := by
          rw [Option.eq_none_iff_forall_ne_some]
          intro v hv
          rw [field_eq_some_iff h.2] at hv
          exact h.1 (List.mem_map.2 ⟨_, hv, hk.symm⟩)
        rw [hnone]
        rfl
      · rfl

theorem valid_ofFields {fields : List (Bytes × Json)} (h : (fields.map Prod.fst).Nodup)
    (hvalid : ∀ f ∈ fields, f.2.Valid) : (Json.ofFields fields).Valid := by
  rw [Json.ofFields]
  split
  · exact .null
  · obtain ⟨hsorted, hmem, -⟩ := foldl_setKey h [] List.Pairwise.nil
    exact .obj hsorted fun f hf => hvalid f ((hmem f hf).resolve_right List.not_mem_nil)

theorem field_items_ofFields {fields : List (Bytes × Json)} (h : (fields.map Prod.fst).Nodup)
    (k : Bytes) : field (Json.ofFields fields).items k = field fields k := by
  rw [Json.ofFields]
  split
  · next hnil => rw [hnil]; rfl
  · show field (fields.foldl (fun o f => Json.setKey o f.1 f.2) []) k = _
    rw [(foldl_setKey h [] List.Pairwise.nil).2.2 k]
    exact Option.or_none

theorem get?_foldl_emplace (items : List (Bytes × Json)) (m : Claims) (k : Bytes) :
    (items.foldl (fun m e => m.emplace e.1 e.2) m).get? k = (m.get? k).or (field items k) := by
  induction items generalizing m with
  | nil => simp [field]
  | cons e items ih =>
    rw [List.foldl_cons, ih, UMap.get?_emplace, field_cons]
    by_cases hk : e.1 = k
    · subst hk
      cases m.get? e.1 <;> simp
    · have hk' : ¬ k = e.1 := fun h => hk h.symm
      simp [hk, hk']

/-- What was written from claims is read back as them. -/
theorem parseClaims_ofFields {lib : JsonLib} {m : Claims} {o : IterOrder Bytes Json} {s : Bytes}
    (h : lib.parse s = .ok (Json.ofFields (m.iterate o))) :
    ∃ m', parseClaims lib s = .ok m' ∧ ∀ k, m'.get? k = m.get? k := by
  refine ⟨_, by rw [parseClaims, h]; rfl, fun k => ?_⟩
  rw [get?_foldl_emplace, field_items_ofFields (nodup_iterate o m), field_iterate, UMap.get?_empty,
    Option.none_or]

/-! ## Signing and decoding -/

/-- The claims of a map are values that can be written. -/
def ValidClaims (m : Claims) : Prop := ∀ k v, m.get? k = some v → v.Valid

theorem ValidClaims.assign {m : Claims} (h : ValidClaims m) (k : Bytes) {v : Json} (hv : v.Valid) :
    ValidClaims (m.assign k v) := by
  intro k' v' hk'
  rw [UMap.get?_assign] at hk'
  split at hk'
  · obtain rfl := Option.some.inj hk'
    exact hv
  · exact h k' v' hk'

theorem ValidClaims.iterate {m : Claims} (h : ValidClaims m) (o : IterOrder Bytes Json) :
    ∀ f ∈ m.iterate o, f.2.Valid :=
  fun f hf => h f.1 f.2 (UMap.get?_of_mem ((UMap.mem_iterate m o f).1 hf))

/-- The token that `sign` returns is decoded to what it was made of. -/
theorem decode_signed (lib : JsonLib) (hlib : ∀ j s, j.Valid → lib.dump j = .ok s → lib.parse s = .ok j)
    (o : IterOrder Bytes Json) (b : JwtBuilder) (hheader : ValidClaims b.headerClaims)
    (hpayload : ValidClaims b.payloadClaims) (algo : JwtAlgorithm) (token : Bytes)
    (hsign : b.sign o lib algo = .ok token) :
    ∃ d, DecodedJwt.ofToken lib token = .ok d ∧ d.empty = false ∧ d.token = token ∧
      algo.sign (d.headerBase64 ++ bytes "." ++ d.payloadBase64) = .ok d.signature ∧
      (∀ k, d.headerClaims.get? k =
        if k = bytes "alg" then some (.str algo.name) else b.headerClaims.get? k) ∧
      ∀ k, d.payloadClaims.get? k = b.payloadClaims.get? k := by
  have hheader' : ValidClaims (b.setAlgorithm algo.name).headerClaims := hheader.assign _ (.str _)
  rw [JwtBuilder.sign, bind_eq_ok] at hsign
  obtain ⟨header, hdumpHeader, hsign⟩ := hsign
  obtain ⟨payload, hdumpPayload, hsign⟩ := bind_eq_ok.1 hsign
  obtain ⟨signature, hsignature, hsign⟩ := bind_eq_ok.1 hsign
  obtain rfl : encodePart header ++ bytes "." ++ encodePart payload ++ bytes "." ++ encodePart signature =
      token := Except.ok.inj hsign
  have hparseHeader := hlib _ _ (valid_ofFields (nodup_iterate o _) (hheader'.iterate o)) hdumpHeader
  have hparsePayload := hlib _ _ (valid_ofFields (nodup_iterate o _) (hpayload.iterate o)) hdumpPayload
  obtain ⟨headerClaims, hclaims, hget⟩ := parseClaims_ofFields hparseHeader
  obtain ⟨payloadClaims, hclaims', hget'⟩ := parseClaims_ofFields hparsePayload
  have hfirst : splitDot (encodePart header ++ bytes "." ++ encodePart payload ++ bytes "." ++
      encodePart signature) =
      some (encodePart header, encodePart payload ++ bytes "." ++ encodePart signature) := by
    have h := splitDot_append (not_dot_encodePart header)
      (encodePart payload ++ bytes "." ++ encodePart signature)
    simpa only [List.append_assoc] using h
  have hsecond := splitDot_append (not_dot_encodePart payload) (encodePart signature)
  refine ⟨⟨headerClaims, payloadClaims, false, _, header, encodePart header, payload,
    encodePart payload, signature, encodePart signature⟩, ?_, rfl, rfl, hsignature, fun k => ?_, hget'⟩
  · simp only [DecodedJwt.ofToken, hfirst, hsecond, decode_fixPadding, bind, Except.bind, hclaims,
      hclaims']
    rfl
  · rw [hget, JwtBuilder.setAlgorithm, JwtBuilder.setHeaderClaim, UMap.get?_assign]
    rfl

/-! ## A library that knows a few values -/

/-- Objects with one field, which holds a string without anything to escape, and null. -/
def plainJson : JsonLib where
  dump
    | .null => .ok (bytes "null")
    | .obj [(k, .str s)] =>
      if 34 ∈ k ∨ 34 ∈ s ∨ 92 ∈ k ∨ 92 ∈ s then .error (bytes "not plain")
      else .ok (bytes "\x7b\"" ++ k ++ bytes "\":\"" ++ s ++ bytes "\"\x7d")
    | _ => .error (bytes "not plain")
  parse s :=
    if s = bytes "null" then .ok .null
    else
      match s with
      | 123 :: 34 :: rest =>
        let k := rest.takeWhile (· != 34)
        match rest.drop k.length with
        | 34 :: 58 :: 34 :: rest =>
          let v := rest.takeWhile (· != 34)
          if rest.drop v.length = bytes "\"\x7d" then .ok (.obj [(k, .str v)])
          else .error (bytes "not plain")
        | _ => .error (bytes "not plain")
      | _ => .error (bytes "not plain")

theorem takeWhile_quote {s : Bytes} (h : (34 : UInt8) ∉ s) (rest : Bytes) :
    (s ++ 34 :: rest).takeWhile (· != 34) = s := by
  have hall : ∀ c ∈ s, (c != 34) = true := by
    intro c hc
    rw [bne_iff_ne]
    rintro rfl
    exact h hc
  rw [List.takeWhile_append_of_pos hall]
  simp

theorem plainJson_reads (j : Json) (s : Bytes) (h : plainJson.dump j = .ok s) :
    plainJson.parse s = .ok j := by
  match j, h with
  | .null, h =>
    obtain rfl := Except.ok.inj h
    rfl
  | .obj [(k, .str v)], h =>
    simp only [plainJson] at h
    split at h
    · exact absurd h (by simp)
    · next hplain =>
      obtain rfl := Except.ok.inj h
      simp only [not_or] at hplain
      have htext : bytes "\x7b\"" ++ k ++ bytes "\":\"" ++ v ++ bytes "\"\x7d" =
          123 :: 34 :: (k ++ 34 :: 58 :: 34 :: (v ++ [34, 125])) := by
        simp [bytes, List.append_assoc]
      rw [htext]
      simp only [plainJson, takeWhile_quote hplain.1, List.drop_left, takeWhile_quote hplain.2.1]
      rfl

end LibEvmvc
