import LibEvmvc.Connection.BodyFraming
import Mathlib.Algebra.Order.Ring.Nat

set_option autoImplicit false

/-! # Reading a body in chunks

`read_body` takes what is missing of the body and no more, so what it has buffered is the beginning of
all it was given, and `parse_body` makes the same parameter of a body however it is cut
(`readChunks_initBody`).

The sum that `read_body` compares with the body size counts bytes that are in memory together, those of
the buffer and those of the chunk; it does not wrap around. -/

namespace LibEvmvc

namespace BodyParser

/-- `read_body` called with one chunk after the other, and the counts it returns. -/
def readChunks (p : BodyParser) : List Bytes → BodyParser × List Nat
  | [] => (p, [])
  | d :: ds => ((readChunks (readBody p d).1 ds).1, (readBody p d).2 :: (readChunks (readBody p d).1 ds).2)

/-- `parse_body` called with one chunk after the other. -/
def parseChunks (p : BodyParser) (ds : List Bytes) : BodyParser := ds.foldl (fun p d => (parseRaw p d).1) p

/-- Of a body of `n` bytes, what has been seen of it is in the buffer. -/
structure Buffered (n : Nat) (seen : Bytes) (p : BodyParser) : Prop where
  state : p.mpState ≠ .failed
  size : p.bodySize = n
  buffer : p.mpBuf = some (seen.take n)
  uploaded : p.uploaded = min n seen.length
  completed : p.mpCompleted = decide (n ≤ seen.length)

/-- `in_len` after `read_body` has looked at it, in the numbers of the machine. -/
def takenCount (bodySize uploaded inLen : UInt64) : UInt64 :=
  if bodySize < uploaded + inLen then bodySize - uploaded else inLen

/-- The buffer and the chunk are in memory together, so the numbers are those of `readBody`. -/
theorem takenCount_toNat {bodySize uploaded inLen : UInt64} (hle : uploaded ≤ bodySize)
    (hmem : uploaded.toNat + inLen.toNat < 2 ^ 64) :
    (takenCount bodySize uploaded inLen).toNat =
      if bodySize.toNat < uploaded.toNat + inLen.toNat then bodySize.toNat - uploaded.toNat
      else inLen.toNat := by
  have hsum : (uploaded + inLen).toNat = uploaded.toNat + inLen.toNat := by
    rw [UInt64.toNat_add, Nat.mod_eq_of_lt hmem]
  unfold takenCount
  simp only [UInt64.lt_iff_toNat_lt, hsum]
  split
  · exact UInt64.toNat_sub_of_le _ _ hle
  · rfl

/-- What `read_body` leaves alone. -/
structure SameRequest (p q : BodyParser) : Prop where
  res : q.res = p.res
  params : q.params = p.params
  fault : q.fault = p.fault

section Chunks

variable {n : Nat} {seen : Bytes} {p : BodyParser}

/-- `init_body` starts with nothing. -/
theorem buffered_initBody (hstate : p.mpState ≠ .failed) : Buffered p.bodySize [] (initBody p) := by
  have hzero : (decide (p.bodySize = 0)) = decide (p.bodySize ≤ ([] : Bytes).length) :=
    decide_eq_decide.2 Nat.le_zero.symm
  unfold initBody
  simp only
  split
  · split
    · exact ⟨hstate, rfl, by rw [List.take_nil]; rfl, (Nat.min_zero _).symm, hzero⟩
    · exact ⟨hstate, rfl, by rw [List.take_nil]; rfl, (Nat.min_zero _).symm, hzero⟩
  · exact ⟨hstate, rfl, by rw [List.take_nil], (Nat.min_zero _).symm, hzero⟩

theorem sameRequest_initBody (hpos : 0 < p.bodySize) : SameRequest p (initBody p) := by
  unfold initBody
  simp only
  rw [if_neg (Nat.ne_of_gt hpos)]
  exact ⟨rfl, rfl, rfl⟩

/-- One chunk. -/
theorem Buffered.read (h : Buffered n seen p) (d : Bytes) :
    Buffered n (seen ++ d) (readBody p d).1 ∧ SameRequest p (readBody p d).1 ∧
      min n seen.length + (readBody p d).2 = min n (seen ++ d).length := by
  have hlen : (seen ++ d).length = seen.length + d.length := List.length_append
  have htake : (seen ++ d).take n = seen.take n ++ d.take (n - seen.length) := List.take_append
  unfold readBody
  rw [if_neg h.state, h.buffer]
  simp only [h.size, h.uploaded, h.completed]
  split
  · next hmore =>
    have hcount : n - min n seen.length = n - seen.length := by omega
    refine ⟨⟨h.state, rfl, ?_, ?_, ?_⟩, ⟨rfl, rfl, rfl⟩, ?_⟩
    · simp only [hcount, htake]
    · simp only [hlen]
      omega
    · simp only [hlen, ← Bool.decide_or, decide_eq_decide]
      omega
    · simp only [hlen]
      omega
  · next hfits =>
    have hall : d.take d.length = d.take (n - seen.length) := by
      rw [List.take_length, List.take_of_length_le (by omega)]
    refine ⟨⟨h.state, rfl, ?_, ?_, ?_⟩, ⟨rfl, rfl, rfl⟩, ?_⟩
    · simp only [hall, htake]
    · simp only [hlen]
      omega
    · simp only [hlen, ← Bool.decide_or, decide_eq_decide]
      omega
    · simp only [hlen]
      omega

/-- What is buffered is the beginning of what came, and the counts say how much that is. -/
theorem readChunks_spec (h : Buffered n seen p) (ds : List Bytes) :
    Buffered n (seen ++ ds.flatten) (readChunks p ds).1 ∧
      min n seen.length + (readChunks p ds).2.sum = min n (seen ++ ds.flatten).length := by
  induction ds generalizing seen p with
  | nil =>
    rw [List.flatten_nil, List.append_nil]
    exact ⟨h, rfl⟩
  | cons d ds ih =>
    obtain ⟨hread, -, hcount⟩ := h.read d
    obtain ⟨hrest, hsum⟩ := ih hread
    rw [List.flatten_cons, ← List.append_assoc]
    refine ⟨hrest, ?_⟩
    rw [readChunks, List.sum_cons, ← Nat.add_assoc, hcount, hsum]

theorem parseRaw_eq (p : BodyParser) (d : Bytes) :
    (parseRaw p d).1 =
      if (readBody p d).1.fault = none ∧ (readBody p d).1.mpCompleted = true then
        takeBody (readBody p d).1 fun body => ⟨[([], body)], []⟩
      else (readBody p d).1 := by
  unfold parseRaw
  simp only
  split
  · rfl
  · rfl

/-- While the body is not complete, `parse_body` only reads. -/
theorem parseRaw_of_incomplete {d : Bytes} (h : Buffered n (seen ++ d) (readBody p d).1)
    (hlt : (seen ++ d).length < n) : (parseRaw p d).1 = (readBody p d).1 := by
  have hopen : (readBody p d).1.mpCompleted = false := by
    rw [h.completed]
    exact decide_eq_false (Nat.not_le.2 hlt)
  rw [parseRaw_eq, if_neg fun hdone => Bool.false_ne_true (hopen.symm.trans hdone.2)]

/-- Chunks that do not complete the body, and one that does. -/
theorem parseChunks_spec (h : Buffered n seen p) (hres : p.res.isSome) (hfault : p.fault = none)
    (ds : List Bytes) (d : Bytes) (hlt : (seen ++ ds.flatten).length < n)
    (hge : n ≤ (seen ++ ds.flatten ++ d).length) :
    (parseChunks p (ds ++ [d])).params.bodyParams
        = p.params.bodyParams ++ [([], (seen ++ ds.flatten ++ d).take n)] ∧
      (parseChunks p (ds ++ [d])).status = .readyToExec ∧ (parseChunks p (ds ++ [d])).fault = none := by
  induction ds generalizing seen p with
  | nil =>
    rw [List.flatten_nil, List.append_nil] at hge ⊢
    obtain ⟨hread, hsame, -⟩ := h.read d
    have hdone : (readBody p d).1.mpCompleted = true := by
      rw [hread.completed]
      exact decide_eq_true hge
    obtain ⟨paused, hpaused⟩ := Option.isSome_iff_exists.1 (hsame.res ▸ hres)
    have hnofault : (readBody p d).1.fault = none := hsame.fault.trans hfault
    have htake : ((seen ++ d).take n).take (readBody p d).1.bodySize = (seen ++ d).take n := by
      rw [hread.size, List.take_take, Nat.min_self]
    have hparse : parseChunks p ([] ++ [d])
        = takeBody (readBody p d).1 fun body => ⟨[([], body)], []⟩ := by
      show (parseRaw p d).1 = _
      rw [parseRaw_eq, if_pos ⟨hnofault, hdone⟩]
    rw [hparse]
    unfold takeBody
    rw [hread.buffer, hpaused]
    simp only [htake]
    exact ⟨congrArg (· ++ [([], (seen ++ d).take n)]) (congrArg MpParams.bodyParams hsame.params), rfl,
      hnofault⟩
  | cons e ds ih =>
    rw [List.flatten_cons, ← List.append_assoc] at hlt hge ⊢
    obtain ⟨hread, hsame, -⟩ := h.read e
    have hshort : (seen ++ e).length < n := by
      refine Nat.lt_of_le_of_lt ?_ hlt
      rw [@List.length_append _ (seen ++ e)]
      exact Nat.le_add_right _ _
    have hstep : parseChunks p (e :: ds ++ [d]) = parseChunks (readBody p e).1 (ds ++ [d]) := by
      rw [← parseRaw_of_incomplete hread hshort]
      rfl
    obtain ⟨hparams, hrest⟩ := ih hread (hsame.res ▸ hres) (hsame.fault.trans hfault) hlt hge
    rw [hstep]
    refine ⟨?_, hrest⟩
    rw [hparams, hsame.params]

/-- **Of a body of `n` bytes the first `n` bytes that come are buffered, however they are cut, and no
    others are taken; and `parse_body` makes a parameter of just these.** -/
theorem body_of_chunks (hstate : p.mpState ≠ .failed) (hpos : 0 < p.bodySize) :
    (∀ ds : List Bytes,
      (readChunks (initBody p) ds).2.sum = min p.bodySize ds.flatten.length ∧
        (readChunks (initBody p) ds).1.mpBuf = some (ds.flatten.take p.bodySize) ∧
        (readChunks (initBody p) ds).1.bodySize = p.bodySize ∧
        (readChunks (initBody p) ds).1.uploaded ≤ p.bodySize ∧
        ((readChunks (initBody p) ds).1.mpCompleted = true ↔
          (ds.flatten.take p.bodySize).length = p.bodySize)) ∧
      (p.res.isSome → p.fault = none → ∀ (ds : List Bytes) (d : Bytes), ds.flatten.length < p.bodySize →
        p.bodySize ≤ (ds.flatten ++ d).length →
        (parseChunks (initBody p) (ds ++ [d])).params.bodyParams
            = p.params.bodyParams ++ [([], (ds.flatten ++ d).take p.bodySize)] ∧
          (parseChunks (initBody p) (ds ++ [d])).status = .readyToExec) := by
  have hinit := buffered_initBody hstate
  have hsame := sameRequest_initBody hpos
  constructor
  · intro ds
    obtain ⟨hread, hsum⟩ := readChunks_spec hinit ds
    rw [List.nil_append] at hread hsum
    rw [List.length_nil, Nat.min_zero, Nat.zero_add] at hsum
    refine ⟨hsum, hread.buffer, hread.size, ?_, ?_⟩
    · rw [hread.uploaded]
      exact Nat.min_le_left _ _
    · rw [hread.completed, decide_eq_true_eq, List.length_take]
      exact ⟨fun h => Nat.min_eq_left h, fun h => by omega⟩
  · intro hres hfault ds d hlt hge
    obtain ⟨hparams, hstatus, -⟩ :=
      parseChunks_spec hinit (hsame.res ▸ hres) (hsame.fault.trans hfault) ds d hlt hge
    rw [List.nil_append, hsame.params] at hparams
    exact ⟨hparams, hstatus⟩

end Chunks

/-- A request with a body of two bytes. -/
def twoBytes : BodyParser := { fresh with bodySize := 2, res := some false }

theorem twoBytes_of_chunks :
    (readChunks (initBody twoBytes) [bytes "a", bytes "bc"]).2.sum = 2 ∧
      (parseChunks (initBody twoBytes) ([bytes "a"] ++ [bytes "bc"])).params.bodyParams
        = [([], bytes "ab")] := by
  have hspec := body_of_chunks (p := twoBytes) (by decide) (by decide)
  exact ⟨(hspec.1 _).1, (hspec.2 rfl rfl [bytes "a"] (bytes "bc") (by decide) (by decide)).1⟩

/-! ## The parser that is asked to read -/

section Start

variable {env : BodyEnv} {p : BodyParser}

theorem mpState_validateHeaders (env : BodyEnv) (p : BodyParser) :
    (validateHeaders env p).1.mpState = p.mpState := by
  unfold validateHeaders
  split
  · rfl
  · simp only
    split
    · rfl
    · split
      · split
        · rfl
        · rfl
      · rfl

theorem mpState_contentType (env : BodyEnv) (p : BodyParser) (ct : Bytes) (segs : List Bytes) :
    (contentType env p ct segs).mpState = p.mpState := by
  induction segs with
  | nil => rfl
  | cons seg segs ih =>
    unfold contentType
    split
    · rfl
    · split
      · unfold initMultip
        simp only
        split
        · rfl
        · rfl
      · split
        · rfl
        · exact ih

/-- **At the end of its headers a request has not failed as a multipart body**: the parser `init_body` is
    called on is one that has not read a body since it was reset. -/
theorem mpState_of_idleHead (env : BodyEnv) (hidle : IdleHead p) (hstatus : p.status = .parseHeader)
    (n : Nat) (ct : Bytes) (segs : List Bytes) :
    (contentType env ({ (validateHeaders env p).1 with bodySize := n }.setStatus .parseBody) ct segs).mpState
      ≠ .failed := by
  have hstate : p.mpState = .init := by
    refine (hidle ?_).state
    rw [hstatus]
    trivial
  rw [mpState_contentType]
  show (validateHeaders env p).1.mpState ≠ .failed
  rw [mpState_validateHeaders, hstate]
  nofun

end Start

end BodyParser

end LibEvmvc
