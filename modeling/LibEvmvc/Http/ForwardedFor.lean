import LibEvmvc.Http.ContentType
import LibEvmvc.Http.Url

set_option autoImplicit false

/-! # The address of the client

Behind a proxy, `request_t` takes the address of the client from `X-Forwarded-For`: `ip` the first one
of the header, `ips` all of them. The loop of `ips` adds what is in front of a comma and ends when there
is no further one, so what is behind the last comma is not added; and where `substr` wants a length it is
given the index of the comma. -/

namespace LibEvmvc

def forwardedForName : Bytes := bytes "X-Forwarded-For"

section Request

variable (trim : Bytes → Bytes) (connectionIp : Bytes)

/-- `request_t::ip`. -/
def requestIp (hdrs : HeaderMap) : Bytes :=
  match hdrs.getFirst forwardedForName with
  | none => connectionIp
  | some v =>
    let ips := trim (cstr v)
    match findCh ips 44 0 with
    | none => ips
    | some cp => substr ips 0 cp

/-- The loop of `ips`, from where the next comma has been looked for; `none` if the rounds do not
    suffice. -/
def ipsLoop (ips : Bytes) : Nat → Nat → Option Nat → Option (List Bytes)
  | _, _, none => some []
  | 0, _, some _ => none
  | rounds + 1, start, some cp =>
    (ipsLoop ips rounds (cp + 1) (findCh ips 44 (cp + 1))).map (substr ips start cp :: ·)

/-- `request_t::ips`; there are no more rounds than characters. -/
def requestIps (hdrs : HeaderMap) : Option (List Bytes) :=
  match hdrs.getFirst forwardedForName with
  | none => some [connectionIp]
  | some v =>
    let ips := trim (cstr v)
    match findCh ips 44 0 with
    | none => some [ips]
    | some cp => ipsLoop ips ips.length 0 (some cp)

end Request

/-! ## How many addresses there are -/

section Count

theorem findCh_drop_none {s : Bytes} {ch : UInt8} {start : Nat} (h : findCh s ch start = none) :
    (s.drop start).count ch = 0 := by
  refine List.count_eq_zero.2 fun hmem => ?_
  have hnone := List.findIdx?_eq_none_iff.1 (Option.map_eq_none_iff.1 h) ch hmem
  simp at hnone

/-- A comma that is found, and those behind it. -/
theorem findCh_drop_some {s : Bytes} {ch : UInt8} {start i : Nat} (h : findCh s ch start = some i) :
    i < s.length ∧ (s.drop start).count ch = (s.drop (i + 1)).count ch + 1 := by
  obtain ⟨j, hj, rfl⟩ := Option.map_eq_some_iff.1 h
  obtain ⟨hlt, hat, hbefore⟩ := List.findIdx?_eq_some_iff_getElem.1 hj
  have hfront : ((s.drop start).take j).count ch = 0 := by
    refine List.count_eq_zero.2 fun hmem => ?_
    obtain ⟨k, hk, heq⟩ := List.mem_iff_getElem.1 hmem
    rw [List.length_take] at hk
    rw [List.getElem_take] at heq
    exact hbefore k (by omega) (by simpa using heq)
  have hback : (s.drop start).drop j = ch :: s.drop (start + j + 1) := by
    rw [List.drop_eq_getElem_cons hlt, List.drop_drop, ← Nat.add_assoc]
    congr 1
    simpa using hat
  rw [List.length_drop] at hlt
  refine ⟨by omega, ?_⟩
  conv_lhs => rw [← List.take_append_drop j (s.drop start)]
  rw [List.count_append, hfront, hback, List.count_cons_self, Nat.zero_add]

/-- The loop ends, with one element for each comma. -/
theorem ipsLoop_length (ips : Bytes) {rounds start cp : Nat} (hcp : cp < ips.length)
    (hrounds : ips.length ≤ cp + rounds) :
    ∃ vals, ipsLoop ips rounds start (some cp) = some vals ∧
      vals.length = (ips.drop (cp + 1)).count 44 + 1 := by
  induction rounds generalizing start cp with
  | zero => omega
  | succ rounds ih =>
    rw [ipsLoop]
    cases hfind : findCh ips 44 (cp + 1) with
    | none =>
      have hnone : ipsLoop ips rounds (cp + 1) none = some [] := by
        cases rounds <;> rfl
      rw [hnone, findCh_drop_none hfind]
      exact ⟨_, rfl, rfl⟩
    | some i =>
      obtain ⟨hlt, hcount⟩ := findCh_drop_some hfind
      have hle := le_of_findCh hfind
      obtain ⟨vals, hvals, hlen⟩ := @ih (cp + 1) i hlt (by omega)
      rw [hvals, hcount]
      exact ⟨_, rfl, congrArg Nat.succ hlen⟩

/-- `ips` of a header that is there returns as many addresses as there are commas, and one where there
    is none. -/
theorem requestIps_length (trim : Bytes → Bytes) (connectionIp : Bytes) {hdrs : HeaderMap} {v : Bytes}
    (hget : hdrs.getFirst forwardedForName = some v) :
    ∃ vals, requestIps trim connectionIp hdrs = some vals ∧
      vals.length = if (trim (cstr v)).count 44 = 0 then 1 else (trim (cstr v)).count 44 := by
  rw [requestIps, hget]
  cases hfind : findCh (trim (cstr v)) 44 0 with
  | none =>
    have hcount := findCh_drop_none hfind
    rw [List.drop_zero] at hcount
    rw [if_pos hcount]
    simp only [hfind]
    exact ⟨[_], rfl, rfl⟩
  | some cp =>
    obtain ⟨hlt, hcount⟩ := findCh_drop_some hfind
    rw [List.drop_zero] at hcount
    obtain ⟨vals, hvals, hlen⟩ := @ipsLoop_length _ _ 0 cp hlt (Nat.le_add_left _ _)
    rw [if_neg (by omega), hcount]
    simp only [hfind]
    exact ⟨vals, hvals, hlen⟩

end Count

/-! ## Addresses that are joined -/

/-- Addresses, joined by commas. -/
def joinAddresses (addrs : List Bytes) : Bytes := [44].intercalate addrs

/-- No comma, and no blank at either end. -/
structure PlainAddress (a : Bytes) : Prop where
  noComma : 44 ∉ a
  head : a.head?.any isspace = false
  last : a.getLast?.any isspace = false

/-- A text without blanks at its ends is not trimmed. -/
theorem trim_eq_self {trim : Bytes → Bytes} (htrim : TrimsBlanks trim) {s : Bytes}
    (hhead : s.head?.any isspace = false) (hlast : s.getLast?.any isspace = false) :
    trim s = s := by
  obtain ⟨l, r, heq, hl, hr⟩ := htrim s
  have hleft : l = [] := by
    rcases l with - | ⟨c, l⟩
    · rfl
    · rw [heq] at hhead
      have hc : isspace c = false := hhead
      rw [hl c List.mem_cons_self] at hc
      cases hc
  have hright : r = [] := by
    rcases List.eq_nil_or_concat r with rfl | ⟨r, c, rfl⟩
    · rfl
    · rw [heq, List.concat_eq_append, ← List.append_assoc, List.getLast?_concat] at hlast
      have hc : isspace c = false := hlast
      rw [hr c (by simp)] at hc
      cases hc
  rw [hleft, hright, List.nil_append, List.append_nil] at heq
  exact heq.symm

theorem count_joinAddresses {addrs : List Bytes} (hne : addrs ≠ []) (h : ∀ a ∈ addrs, 44 ∉ a) :
    (joinAddresses addrs).count 44 + 1 = addrs.length := by
  unfold joinAddresses
  induction addrs with
  | nil => exact absurd rfl hne
  | cons a addrs ih =>
    rw [List.forall_mem_cons] at h
    have ha : a.count 44 = 0 := List.count_eq_zero.2 h.1
    rcases addrs with - | ⟨b, addrs⟩
    · rw [List.intercalate_singleton, ha]
      rfl
    · have hrest := ih (List.cons_ne_nil b addrs) h.2
      rw [List.intercalate_cons_cons, List.count_append, List.count_append, ha,
        List.count_singleton_self, List.length_cons]
      omega

theorem count_trim_le {trim : Bytes → Bytes} (htrim : TrimsBlanks trim) (s : Bytes) (c : UInt8) :
    (trim (cstr s)).count c ≤ s.count c := by
  obtain ⟨l, r, heq, -⟩ := htrim (cstr s)
  have hinner : (trim (cstr s)).count c ≤ (cstr s).count c := by
    conv_rhs => rw [heq]
    rw [List.count_append, List.count_append]
    omega
  exact hinner.trans ((List.takeWhile_prefix _).sublist.count_le c)

/-- `ips` and `ip` return the addresses that have been joined exactly when there is one, without a
    NUL. -/
theorem forwarded_addresses_iff {trim : Bytes → Bytes} (htrim : TrimsBlanks trim) (connectionIp : Bytes)
    {hdrs : HeaderMap} {addrs : List Bytes} (hne : addrs ≠ []) (h : ∀ a ∈ addrs, PlainAddress a)
    (hget : hdrs.getFirst forwardedForName = some (joinAddresses addrs)) :
    (requestIps trim connectionIp hdrs = some addrs ∧
        some (requestIp trim connectionIp hdrs) = addrs.head?) ↔
      addrs.length = 1 ∧ ∀ a ∈ addrs, 0 ∉ a := by
  have hcount := count_joinAddresses hne fun a ha => (h a ha).noComma
  obtain ⟨vals, hvals, hlen⟩ := requestIps_length trim connectionIp hget
  have hle := count_trim_le htrim (joinAddresses addrs) 44
  constructor
  · rintro ⟨hips, -⟩
    obtain rfl : vals = addrs := Option.some.inj (hvals.symm.trans hips)
    have hone : vals.length = 1 := by
      split at hlen <;> omega
    refine ⟨hone, ?_⟩
    obtain ⟨a, rfl⟩ := List.length_eq_one_iff.1 hone
    rw [List.forall_mem_singleton]
    intro hnul
    have hzero : (trim (cstr (joinAddresses [a]))).count 44 = 0 := by omega
    have hfind : findCh (trim (cstr (joinAddresses [a]))) 44 0 = none :=
      @findCh_none [] _ 44 (List.count_eq_zero.1 hzero)
    rw [requestIps, hget] at hips
    simp only [hfind] at hips
    have htext : trim (cstr a) = a := by
      have hsame := List.cons.inj (Option.some.inj hips)
      rw [joinAddresses, List.intercalate_singleton] at hsame
      exact hsame.1
    obtain ⟨l, r, heq, -⟩ := htrim (cstr a)
    rw [htext] at heq
    exact not_mem_cstr a (heq ▸ by simp [hnul])
  · rintro ⟨hone, hnul⟩
    obtain ⟨a, rfl⟩ := List.length_eq_one_iff.1 hone
    rw [List.forall_mem_singleton] at h hnul
    have htext : trim (cstr (joinAddresses [a])) = a := by
      rw [joinAddresses, List.intercalate_singleton, cstr_of_noNul hnul]
      exact trim_eq_self htrim h.head h.last
    have hfind : findCh a 44 0 = none := @findCh_none [] a 44 h.noComma
    rw [requestIps, requestIp, hget]
    simp only [htext, hfind, List.head?_cons, and_self]

/-- A request with the header. -/
def forwardedHeaders (v : Bytes) : HeaderMap :=
  HeaderMap.set (UMap.empty lower (List Bytes)) forwardedForName v true

theorem forwarded_one_address :
    (requestIps strip [] (forwardedHeaders (bytes "10.0.0.1")) = some [bytes "10.0.0.1"] ∧
        some (requestIp strip [] (forwardedHeaders (bytes "10.0.0.1"))) = some (bytes "10.0.0.1")) ↔
      [bytes "10.0.0.1"].length = 1 ∧ ∀ a ∈ [bytes "10.0.0.1"], 0 ∉ a :=
  forwarded_addresses_iff trimsBlanks_strip [] (List.cons_ne_nil _ _)
    (List.forall_mem_singleton.2 ⟨by decide, by decide, by decide⟩) rfl

/-- Of two addresses the second is lost. -/
theorem forwarded_second_lost :
    (∀ a ∈ [bytes "10.0.0.1", bytes "10.0.0.2"], PlainAddress a) ∧
      (forwardedHeaders (bytes "10.0.0.1,10.0.0.2")).getFirst forwardedForName
        = some (joinAddresses [bytes "10.0.0.1", bytes "10.0.0.2"]) ∧
      requestIps strip [] (forwardedHeaders (bytes "10.0.0.1,10.0.0.2"))
        ≠ some [bytes "10.0.0.1", bytes "10.0.0.2"] := by
  refine ⟨?_, rfl, by decide⟩
  simp only [List.forall_mem_cons]
  exact ⟨⟨by decide, by decide, by decide⟩, ⟨by decide, by decide, by decide⟩,
    fun _ h => absurd h List.not_mem_nil⟩

end LibEvmvc
