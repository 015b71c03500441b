import LibEvmvc.Http.Cookies

set_option autoImplicit false

/-! # Cookies of a request

`http_cookies_t::_init_get_data` reads the `Cookie` header in one scan. A key is known at its `=`, a
value at its `;`, and a cookie is stored only when the *next* `=` is met or when the text is over. So
the scan runs one cookie behind: `initScan_cookie` says what it holds after each of them, and every
place where a cookie is lost is a place where the scan is left before it catches up. -/

namespace LibEvmvc

/-- `cookie_map`. -/
abbrev CookieMap := UMap (id : Bytes → Bytes) Bytes

/-- The variables of the scan: the last key and value cut out, and where the next key and the
    current value begin. -/
structure CookieScan where
  svk : Bytes := []
  svv : Bytes := []
  ks : Nat := 0
  vs : Nat := 0
  cookies : CookieMap := UMap.empty id Bytes

/-- Store the cookie cut out last, if there is one. -/
def CookieScan.record (s : CookieScan) : CookieMap :=
  if s.svk.length > 0 then s.cookies.emplace s.svk s.svv else s.cookies

/-- Where the key that ends at `i` begins once its leading spaces are skipped. -/
def trimKeyStart (hv : Bytes) (i ks : Nat) : Nat :=
  ks + ((substr hv ks (i + 1 - ks)).takeWhile (· = 32)).length

/-- The loop of `_init_get_data` from index `i` on, where the second argument is what is left of
    `hv` there, and the cookies stored when it is over. -/
def initScan (hv : Bytes) : Bytes → Nat → CookieScan → CookieMap
  | [], _, s =>
    if s.svk.length > 0 then s.cookies.emplace s.svk (substr hv s.vs (hv.length - s.vs))
    else s.cookies
  | c :: rest, i, s =>
    if c = 61 then -- '='
      let ks := trimKeyStart hv i s.ks
      if ks = i then s.record
      else if i = hv.length - 1 then s.record
      else
        initScan hv rest (i + 1)
          { s with svk := substr hv ks (i - ks), ks := ks, vs := i + 1, cookies := s.record }
    else if c = 59 then -- ';'
      -- at the very end `ks` becomes -1, and what was cut out is not stored after the loop
      if i = hv.length - 1 then s.cookies
      else initScan hv rest (i + 1) { s with svv := substr hv s.vs (i - s.vs), ks := i + 1 }
    else initScan hv rest (i + 1) s

/-- `http_cookies_t`, the part that is about the request. -/
structure HttpCookies where
  inHdrs : HeaderMap
  init : Bool := false
  cookies : CookieMap := UMap.empty id Bytes

def cookieName : Bytes := bytes "Cookie"

namespace HttpCookies

/-- `http_cookies_t::_init_get_data`. -/
def initGetData (self : HttpCookies) : HttpCookies :=
  if self.init then self
  else match self.inHdrs.getFirst cookieName with
    | none => { self with init := true }
    | some hv => { self with init := true, cookies := initScan hv hv 0 { cookies := self.cookies } }

/-- `http_cookies_t::exists`. -/
def cookieExists (self : HttpCookies) (name : Bytes) : Bool :=
  (self.initGetData.cookies.get? name).isSome

/-- `http_cookies_t::_get_raw`; the error is the name that was not found. -/
def getRaw (base64Decode : Bytes → Bytes) (self : HttpCookies) (name : Bytes)
    (enc : CookieEncoding) : Except Bytes Bytes :=
  match self.initGetData.cookies.get? name with
  | none => .error name
  | some v => match enc with
    | .base64 => .ok (base64Decode v)
    | .clear => .ok v

end HttpCookies

/-! ## A Cookie header -/

/-- `n1=v1; n2=v2; ...`, with or without a `;` after the last value. -/
def cookieHeader (trailing : Bool) : List (Bytes × Bytes) → Bytes
  | [] => []
  | [(n, v)] => n ++ 61 :: v ++ (if trailing then [59] else [])
  | (n, v) :: c :: cs => n ++ 61 :: v ++ 59 :: 32 :: cookieHeader trailing (c :: cs)

/-- A cookie as a browser sends it: the name has no `=`, `;` or space, the value no `;`. -/
structure PlainCookie (c : Bytes × Bytes) : Prop where
  name_eq : (61 : UInt8) ∉ c.1
  name_semi : (59 : UInt8) ∉ c.1
  name_space : (32 : UInt8) ∉ c.1
  value_semi : (59 : UInt8) ∉ c.2

/-- The object holds exactly the given cookies, with their values in the clear. -/
def HoldsCookies (base64Decode : Bytes → Bytes) (self : HttpCookies)
    (cs : List (Bytes × Bytes)) : Prop :=
  (∀ c ∈ cs, self.cookieExists c.1 ∧ self.getRaw base64Decode c.1 .clear = .ok c.2) ∧
    ∀ name, self.cookieExists name → name ∈ cs.map Prod.fst

/-! ## The scan, piece by piece -/

theorem substr_end (pre x : Bytes) : substr (pre ++ x) pre.length ((pre ++ x).length - pre.length)
    = x := by
  simp [substr]

/-- Skipping the spaces in front of a key that has none. -/
theorem trimKeyStart_blanks (pre sp n rest : Bytes) (hsp : ∀ c ∈ sp, c = 32) (hn : 32 ∉ n) :
    trimKeyStart (pre ++ (sp ++ (n ++ 61 :: rest))) (pre ++ sp ++ n).length pre.length
      = (pre ++ sp).length := by
  have hlen : (pre ++ sp ++ n).length + 1 - pre.length = (sp ++ (n ++ [61])).length := by
    simp only [List.length_append, List.length_cons, List.length_nil]
    omega
  have htext : pre ++ (sp ++ (n ++ 61 :: rest)) = pre ++ ((sp ++ (n ++ [61])) ++ rest) := by simp
  have hstop : (n ++ [61]).takeWhile (fun c : UInt8 => decide (c = 32)) = [] := by
    cases n with
    | nil => rfl
    | cons a n =>
      have ha : a ≠ 32 := fun h => hn (h ▸ List.mem_cons_self)
      simp [ha]
  have hblank : ∀ c ∈ sp, decide (c = 32) = true := fun c hc => decide_eq_true (hsp c hc)
  unfold trimKeyStart
  rw [hlen, htext, substr_mid, List.takeWhile_append_of_pos hblank, hstop, List.append_nil,
    List.length_append]

/-- Characters that separate nothing are passed over. -/
theorem initScan_skip (hv x rest : Bytes) (i : Nat) (s : CookieScan) (heq : 61 ∉ x)
    (hsemi : 59 ∉ x) : initScan hv (x ++ rest) i s = initScan hv rest (i + x.length) s := by
  induction x generalizing i with
  | nil => rfl
  | cons c x ih =>
    simp only [List.mem_cons, not_or] at heq hsemi
    rw [List.cons_append, initScan, if_neg (Ne.symm heq.1), if_neg (Ne.symm hsemi.1),
      ih (i + 1) heq.2 hsemi.2]
    congr 1
    simp only [List.length_cons]
    omega

/-- At the `=` of a key the cookie before it is stored. Without a key, and at the end of the text,
    that is all. -/
theorem initScan_key (pre sp n rest : Bytes) (s : CookieScan) (hsp : ∀ c ∈ sp, c = 32)
    (hn : 61 ∉ n ∧ 59 ∉ n ∧ 32 ∉ n) (hks : s.ks = pre.length) :
    initScan (pre ++ (sp ++ (n ++ 61 :: rest))) (sp ++ (n ++ 61 :: rest)) pre.length s
      = if n = [] ∨ rest = [] then s.record
        else initScan (pre ++ (sp ++ (n ++ 61 :: rest))) rest (pre ++ sp ++ n ++ [61]).length
          { s with svk := n, ks := (pre ++ sp).length, vs := (pre ++ sp ++ n ++ [61]).length,
                   cookies := s.record } := by
  have hblank : ∀ c : UInt8, c ≠ 32 → c ∉ sp := fun c hc hmem => hc (hsp c hmem)
  have hi : pre.length + sp.length + n.length = (pre ++ sp ++ n).length := by
    simp only [List.length_append]
  have htrim := trimKeyStart_blanks pre sp n rest hsp hn.2.2
  have hkey : substr (pre ++ (sp ++ (n ++ 61 :: rest))) (pre ++ sp).length
      ((pre ++ sp ++ n).length - (pre ++ sp).length) = n := by
    have hcut := substr_mid (pre ++ sp) n (61 :: rest)
    have hlen : (pre ++ sp ++ n).length - (pre ++ sp).length = n.length := by
      rw [List.length_append, Nat.add_sub_cancel_left]
    rw [List.append_assoc] at hcut
    rw [hlen, hcut]
  rw [initScan_skip _ sp _ _ _ (hblank 61 (by decide)) (hblank 59 (by decide)),
    initScan_skip _ n _ _ _ hn.1 hn.2.1, hi, initScan, if_pos rfl]
  simp only [hks, htrim, hkey]
  by_cases hempty : n = []
  · subst hempty
    simp
  · have hpos : 0 < n.length := List.length_pos_iff.2 hempty
    have hne : ¬ (pre ++ sp).length = (pre ++ sp ++ n).length := by
      simp only [List.length_append]
      omega
    rw [if_neg hne]
    by_cases hrest : rest = []
    · subst hrest
      have hlast : (pre ++ sp ++ n).length = (pre ++ (sp ++ (n ++ [61]))).length - 1 := by
        simp only [List.length_append, List.length_cons, List.length_nil]
        omega
      rw [if_pos hlast, if_pos (Or.inr rfl)]
    · have hpos : 0 < rest.length := List.length_pos_iff.2 hrest
      have hlast : ¬ (pre ++ sp ++ n).length
          = (pre ++ (sp ++ (n ++ 61 :: rest))).length - 1 := by
        simp only [List.length_append, List.length_cons]
        omega
      have hnext : (pre ++ sp ++ n).length + 1 = (pre ++ sp ++ n ++ [61]).length := by
        simp only [List.length_append, List.length_singleton]
      rw [if_neg hlast, if_neg (by simp [hempty, hrest]), hnext]

/-- At a `;` the value before it is cut out. At the end of the text the scan is left there. -/
theorem initScan_value (pre v rest : Bytes) (s : CookieScan) (hv : 61 ∉ v ∧ 59 ∉ v)
    (hvs : s.vs = pre.length) :
    initScan (pre ++ (v ++ 59 :: rest)) (v ++ 59 :: rest) pre.length s
      = if rest = [] then s.cookies
        else initScan (pre ++ (v ++ 59 :: rest)) rest (pre ++ v ++ [59]).length
          { s with svv := v, ks := (pre ++ v ++ [59]).length } := by
  have hcut : substr (pre ++ (v ++ 59 :: rest)) pre.length (pre.length + v.length - pre.length)
      = v := by
    have hmid := substr_mid pre v (59 :: rest)
    simpa using hmid
  rw [initScan_skip _ v _ _ _ hv.1 hv.2, initScan, if_neg (by decide), if_pos rfl]
  simp only [hvs, hcut]
  by_cases hrest : rest = []
  · subst hrest
    simp
  · have hpos : 0 < rest.length := List.length_pos_iff.2 hrest
    have hlast : ¬ pre.length + v.length = (pre ++ (v ++ 59 :: rest)).length - 1 := by
      simp only [List.length_append, List.length_cons]
      omega
    rw [if_neg hlast, if_neg hrest]
    congr 1 <;> simp [Nat.add_assoc]

/-- The text is over in the middle of a value. -/
theorem initScan_over (pre v : Bytes) (s : CookieScan) (hv : 61 ∉ v ∧ 59 ∉ v)
    (hvs : s.vs = pre.length) (hsvk : s.svk ≠ []) :
    initScan (pre ++ v) v pre.length s = s.cookies.emplace s.svk v := by
  have hskip := initScan_skip (pre ++ v) v [] pre.length s hv.1 hv.2
  have hpos : s.svk.length > 0 := List.length_pos_iff.2 hsvk
  rw [List.append_nil] at hskip
  rw [hskip, initScan, if_pos hpos, hvs, substr_end]

/-! ## What the scan never does -/

theorem record_keeps {s : CookieScan} {k v : Bytes} (h : s.cookies.get? k = some v) :
    s.record.get? k = some v := by
  unfold CookieScan.record
  split
  · rw [UMap.get?_emplace]
    split
    · next hk => rw [← UMap.get?_congr _ hk, h]; rfl
    · exact h
  · exact h

/-- A cookie that is stored keeps its value. -/
theorem initScan_keeps (hv rest : Bytes) (i : Nat) (s : CookieScan) (k v : Bytes)
    (h : s.cookies.get? k = some v) : (initScan hv rest i s).get? k = some v := by
  induction rest generalizing i s with
  | nil =>
    rw [initScan]
    split
    · rw [UMap.get?_emplace]
      split
      · next hk => rw [← UMap.get?_congr _ hk, h]; rfl
      · exact h
    · exact h
  | cons c rest ih =>
    rw [initScan]
    split
    · simp only
      split
      · exact record_keeps h
      · split
        · exact record_keeps h
        · exact ih _ _ (record_keeps h)
    · split
      · split
        · exact h
        · exact ih _ _ h
      · exact ih _ _ h

/-- At an `=` the cookie cut out last is stored for good. -/
theorem initScan_at_eq (hv rest : Bytes) (i : Nat) (s : CookieScan) (k v : Bytes)
    (h : s.record.get? k = some v) : (initScan hv (61 :: rest) i s).get? k = some v := by
  rw [initScan, if_pos rfl]
  simp only
  split
  · exact h
  · split
    · exact h
    · exact initScan_keeps hv rest _ _ k v h

theorem record_nil {s : CookieScan} (h : s.cookies.get? [] = none) : s.record.get? [] = none := by
  unfold CookieScan.record
  split
  · next hpos =>
    have hne : ¬ (id [] : Bytes) = id s.svk := fun he => List.length_pos_iff.1 hpos he.symm
    rw [UMap.get?_emplace, if_neg hne, h]
  · exact h

/-- No cookie without a name is ever stored. -/
theorem initScan_nil (hv rest : Bytes) (i : Nat) (s : CookieScan)
    (h : s.cookies.get? [] = none) : (initScan hv rest i s).get? [] = none := by
  induction rest generalizing i s with
  | nil =>
    rw [initScan]
    split
    · next hpos =>
      have hne : ¬ (id [] : Bytes) = id s.svk := fun he => List.length_pos_iff.1 hpos he.symm
      rw [UMap.get?_emplace, if_neg hne, h]
    · exact h
  | cons c rest ih =>
    rw [initScan]
    split
    · simp only
      split
      · exact record_nil h
      · split
        · exact record_nil h
        · exact ih _ _ (record_nil h)
    · split
      · split
        · exact h
        · exact ih _ _ h
      · exact ih _ _ h

/-! ## The scan of a whole header -/

/-- A cookie with more text after it: the one before it is stored, and it is itself the one to be
    stored next. -/
theorem initScan_cookie (pre sp n v rest : Bytes) (s : CookieScan) (hsp : ∀ c ∈ sp, c = 32)
    (hc : PlainCookie (n, v)) (hn : n ≠ []) (hv : 61 ∉ v) (hrest : rest ≠ [])
    (hks : s.ks = pre.length) :
    ∃ s' : CookieScan,
      initScan (pre ++ (sp ++ (n ++ 61 :: (v ++ 59 :: rest))))
          (sp ++ (n ++ 61 :: (v ++ 59 :: rest))) pre.length s
        = initScan ((pre ++ sp ++ n ++ [61] ++ v ++ [59]) ++ rest) rest
            (pre ++ sp ++ n ++ [61] ++ v ++ [59]).length s' ∧
      s'.ks = (pre ++ sp ++ n ++ [61] ++ v ++ [59]).length ∧ s'.svv = v ∧
      s'.record = s.record.emplace n v := by
  have htail : ¬ (n = [] ∨ v ++ 59 :: rest = []) := by simp [hn]
  have hpos : n.length > 0 := List.length_pos_iff.2 hn
  rw [initScan_key pre sp n _ s hsp ⟨hc.name_eq, hc.name_semi, hc.name_space⟩ hks, if_neg htail]
  have htext : pre ++ (sp ++ (n ++ 61 :: (v ++ 59 :: rest)))
      = (pre ++ sp ++ n ++ [61]) ++ (v ++ 59 :: rest) := by simp
  rw [htext, initScan_value _ v rest _ ⟨hv, hc.value_semi⟩ rfl, if_neg hrest]
  have htext' : (pre ++ sp ++ n ++ [61]) ++ (v ++ 59 :: rest)
      = (pre ++ sp ++ n ++ [61] ++ v ++ [59]) ++ rest := by simp
  rw [htext']
  refine ⟨_, rfl, rfl, rfl, ?_⟩
  rw [CookieScan.record, if_pos hpos]

/-- The cookies of a list, stored one after the other. -/
def storeCookies (m : CookieMap) (cs : List (Bytes × Bytes)) : CookieMap :=
  cs.foldl (fun m c => m.emplace c.1 c.2) m

/-- **The scan of a header whose values have no `=` stores every cookie but the last one, and the
    last one only if its value is not empty and no `;` comes after it.** -/
theorem initScan_cookieHeader (trailing : Bool) (cs : List (Bytes × Bytes)) (c : Bytes × Bytes)
    (hcs : ∀ d ∈ cs ++ [c], PlainCookie d ∧ d.1 ≠ [] ∧ 61 ∉ d.2) (pre sp : Bytes) (s : CookieScan)
    (hsp : ∀ b ∈ sp, b = 32) (hks : s.ks = pre.length) :
    initScan (pre ++ (sp ++ cookieHeader trailing (cs ++ [c])))
        (sp ++ cookieHeader trailing (cs ++ [c])) pre.length s
      = if trailing ∨ c.2 = [] then storeCookies s.record cs
        else storeCookies s.record (cs ++ [c]) := by
  induction cs generalizing pre sp s with
  | nil =>
    obtain ⟨n, v⟩ := c
    obtain ⟨hplain, hn, hv⟩ := hcs (n, v) (by simp)
    have htext : cookieHeader trailing ([] ++ [(n, v)])
        = n ++ 61 :: (v ++ if trailing then [59] else []) := by simp [cookieHeader]
    rw [htext, initScan_key pre sp n _ s hsp
      ⟨hplain.name_eq, hplain.name_semi, hplain.name_space⟩ hks]
    have hassoc : ∀ rest, pre ++ (sp ++ (n ++ 61 :: rest)) = (pre ++ sp ++ n ++ [61]) ++ rest := by
      intro rest
      simp
    cases trailing with
    | true =>
      -- the `;` is the last character: the value is cut out but never stored
      rw [if_neg (by simp [hn]), if_pos (Or.inl rfl), if_pos rfl, hassoc,
        initScan_value _ v [] _ ⟨hv, hplain.value_semi⟩ rfl, if_pos rfl]
      rfl
    | false =>
      by_cases hempty : v = []
      · rw [if_pos (by simp [hempty]), if_pos (Or.inr hempty)]
        rfl
      · have htail : ¬ (n = [] ∨ v ++ (if false = true then [59] else []) = []) := by
          simp [hn, hempty]
        have hlast : ¬ (false = true ∨ v = []) := by simp [hempty]
        rw [if_neg htail, if_neg hlast, if_neg Bool.false_ne_true, List.append_nil, hassoc,
          initScan_over _ v _ ⟨hv, hplain.value_semi⟩ rfl hn]
        rfl
  | cons d cs ih =>
    obtain ⟨n, v⟩ := d
    obtain ⟨hplain, hn, hv⟩ := hcs (n, v) (by simp)
    obtain ⟨e, es, hes⟩ : ∃ e es, cs ++ [c] = e :: es := List.exists_cons_of_ne_nil (by simp)
    have htext : cookieHeader trailing ((n, v) :: cs ++ [c])
        = n ++ 61 :: (v ++ 59 :: ([32] ++ cookieHeader trailing (cs ++ [c]))) := by
      rw [List.cons_append, hes]
      simp [cookieHeader]
    have hblank : ∀ b ∈ ([32] : Bytes), b = 32 := by simp
    rw [htext]
    obtain ⟨s', hscan, hks', -, hrec⟩ := initScan_cookie pre sp n v
      ([32] ++ cookieHeader trailing (cs ++ [c])) s hsp hplain hn hv (by simp) hks
    rw [hscan, ih (fun d hd => hcs d (List.mem_cons_of_mem _ hd)) _ [32] s' hblank hks', hrec]
    rfl

theorem cookieHeader_cons (trailing : Bool) (n v : Bytes) (cs : List (Bytes × Bytes)) :
    ∃ tail, cookieHeader trailing ((n, v) :: cs) = n ++ 61 :: (v ++ tail) := by
  cases cs with
  | nil => exact ⟨_, by rw [cookieHeader, List.append_assoc]; rfl⟩
  | cons c cs => exact ⟨_, by rw [cookieHeader, List.append_assoc]; rfl⟩

/-- An `=` inside a value ends the scan's luck: the cookie is stored under the value before it. -/
theorem initScan_inner_eq (trailing : Bool) (cs : List (Bytes × Bytes)) (n v : Bytes)
    (after : List (Bytes × Bytes))
    (hcs : ∀ d ∈ cs, PlainCookie d ∧ d.1 ≠ [] ∧ 61 ∉ d.2) (hplain : PlainCookie (n, v))
    (hn : n ≠ []) (hv : 61 ∈ v) (hfresh : n ∉ cs.map Prod.fst) (pre sp : Bytes) (s : CookieScan)
    (hsp : ∀ b ∈ sp, b = 32) (hks : s.ks = pre.length) (hsvv : 61 ∉ s.svv)
    (hnone : s.record.get? n = none) :
    ∃ w, 61 ∉ w ∧ (initScan (pre ++ (sp ++ cookieHeader trailing (cs ++ (n, v) :: after)))
        (sp ++ cookieHeader trailing (cs ++ (n, v) :: after)) pre.length s).get? n = some w := by
  induction cs generalizing pre sp s with
  | nil =>
    -- the first `=` of the value is taken for the end of a key, and `svv` is still the old one
    obtain ⟨x, y, rfl, hx⟩ := List.eq_append_cons_of_mem hv
    obtain ⟨tail, htail⟩ := cookieHeader_cons trailing n (x ++ 61 :: y) after
    have hpos : n.length > 0 := List.length_pos_iff.2 hn
    have hx' : 59 ∉ x := fun hmem => hplain.value_semi (List.mem_append_left _ hmem)
    have hrest : x ++ 61 :: y ++ tail = x ++ 61 :: (y ++ tail) := by simp
    refine ⟨s.svv, hsvv, ?_⟩
    rw [List.nil_append, htail, hrest, initScan_key pre sp n _ s hsp
      ⟨hplain.name_eq, hplain.name_semi, hplain.name_space⟩ hks, if_neg (by simp [hn]),
      initScan_skip _ x _ _ _ hx hx']
    apply initScan_at_eq
    rw [CookieScan.record, if_pos hpos, UMap.get?_emplace, if_pos rfl, hnone]
    rfl
  | cons d cs ih =>
    obtain ⟨m, u⟩ := d
    obtain ⟨hd, hm, hu⟩ := hcs (m, u) (by simp)
    simp only [List.map_cons, List.mem_cons, not_or] at hfresh
    obtain ⟨e, es, hes⟩ : ∃ e es, cs ++ (n, v) :: after = e :: es :=
      List.exists_cons_of_ne_nil (by simp)
    have htext : cookieHeader trailing ((m, u) :: cs ++ (n, v) :: after)
        = m ++ 61 :: (u ++ 59 :: ([32] ++ cookieHeader trailing (cs ++ (n, v) :: after))) := by
      rw [List.cons_append, hes]
      simp [cookieHeader]
    have hblank : ∀ b ∈ ([32] : Bytes), b = 32 := by simp
    rw [htext]
    obtain ⟨s', hscan, hks', hsvv', hrec⟩ := initScan_cookie pre sp m u
      ([32] ++ cookieHeader trailing (cs ++ (n, v) :: after)) s hsp hd hm hu (by simp) hks
    have hother : ¬ id n = id m := hfresh.1
    rw [hscan]
    refine ih (fun d hd => hcs d (by simp [hd])) hfresh.2 _ [32] s' hblank hks' ?_ ?_
    · rw [hsvv']
      exact hu
    · rw [hrec, UMap.get?_emplace, if_neg hother, hnone]

/-! ## Which headers are read back -/

theorem get?_storeCookies (m : CookieMap) (cs : List (Bytes × Bytes)) (k : Bytes) :
    (storeCookies m cs).get? k = (m.get? k).or (cs.lookup k) := by
  induction cs generalizing m with
  | nil => simp [storeCookies]
  | cons c cs ih =>
    have hstep : storeCookies m (c :: cs) = storeCookies (m.emplace c.1 c.2) cs := rfl
    rw [hstep, ih, UMap.get?_emplace, List.lookup_cons]
    by_cases hk : k = c.1
    · subst hk
      cases m.get? c.1 <;> simp
    · have hb : (k == c.1) = false := beq_eq_false_iff_ne.2 hk
      simp [hk, hb]

theorem lookup_of_mem {cs : List (Bytes × Bytes)} (hnodup : (cs.map Prod.fst).Nodup)
    {c : Bytes × Bytes} (hc : c ∈ cs) : cs.lookup c.1 = some c.2 := by
  induction cs with
  | nil => cases hc
  | cons d cs ih =>
    rw [List.map_cons, List.nodup_cons] at hnodup
    rw [List.lookup_cons]
    rcases List.mem_cons.1 hc with rfl | hmem
    · simp
    · have hne : ¬ c.1 = d.1 := fun he => hnodup.1 (he ▸ List.mem_map_of_mem hmem)
      have hb : (c.1 == d.1) = false := beq_eq_false_iff_ne.2 hne
      rw [hb]
      exact ih hnodup.2 hmem

theorem lookup_eq_none {cs : List (Bytes × Bytes)} {k : Bytes} :
    cs.lookup k = none ↔ k ∉ cs.map Prod.fst := by
  induction cs with
  | nil => simp
  | cons d cs ih =>
    rw [List.lookup_cons]
    by_cases hk : k = d.1
    · simp [hk]
    · have hb : (k == d.1) = false := beq_eq_false_iff_ne.2 hk
      rw [hb]
      simp only [ih, List.map_cons, List.mem_cons, hk, false_or]

section Read

variable {base64Decode : Bytes → Bytes} {hdrs : HeaderMap} {hv : Bytes}

theorem cookies_initGetData (h : hdrs.getFirst cookieName = some hv) :
    (HttpCookies.initGetData { inHdrs := hdrs }).cookies = initScan hv hv 0 {} := by
  simp [HttpCookies.initGetData, h]

/-- The object holds a list of cookies exactly if the scan's map agrees with it. -/
theorem holdsCookies_iff_lookup (h : hdrs.getFirst cookieName = some hv)
    {cs : List (Bytes × Bytes)} (hnodup : (cs.map Prod.fst).Nodup) :
    HoldsCookies base64Decode { inHdrs := hdrs } cs
      ↔ ∀ k, (initScan hv hv 0 {}).get? k = cs.lookup k := by
  have hcookies := cookies_initGetData h
  unfold HoldsCookies HttpCookies.cookieExists HttpCookies.getRaw
  rw [hcookies]
  constructor
  · rintro ⟨hall, honly⟩ k
    by_cases hk : k ∈ cs.map Prod.fst
    · obtain ⟨c, hc, rfl⟩ := List.mem_map.1 hk
      obtain ⟨hex, hraw⟩ := hall c hc
      obtain ⟨v, hget⟩ := Option.isSome_iff_exists.1 hex
      rw [hget] at hraw
      rw [hget, lookup_of_mem hnodup hc, Except.ok.inj hraw]
    · rw [lookup_eq_none.2 hk]
      by_contra hsome
      exact hk (honly k (Option.isSome_iff_ne_none.2 hsome))
  · intro hget
    refine ⟨fun c hc => ?_, fun k hk => ?_⟩
    · rw [hget, lookup_of_mem hnodup hc]
      exact ⟨rfl, rfl⟩
    · rw [hget] at hk
      by_contra hnot
      rw [lookup_eq_none.2 hnot] at hk
      cases hk

end Read

/-- What is needed of a cookie to be read back wherever it stands. -/
def ReadsBack (c : Bytes × Bytes) : Prop := c.1 ≠ [] ∧ 61 ∉ c.2

section Agree

variable {trailing : Bool} {cs : List (Bytes × Bytes)}
  (hnodup : (cs.map Prod.fst).Nodup)
  (hget : ∀ k, (initScan (cookieHeader trailing cs) (cookieHeader trailing cs) 0 {}).get? k
    = cs.lookup k)
include hnodup hget

theorem names_of_agree : ∀ c ∈ cs, c.1 ≠ [] := by
  intro c hc hnil
  have hnone := initScan_nil (cookieHeader trailing cs) (cookieHeader trailing cs) 0 {} rfl
  rw [hget, ← hnil, lookup_of_mem hnodup hc] at hnone
  cases hnone

theorem values_of_agree (hplain : ∀ c ∈ cs, PlainCookie c) : ∀ c ∈ cs, 61 ∉ c.2 := by
  intro c hc hmem
  have hnames := names_of_agree hnodup hget
  -- the first value with an `=` is the one that goes wrong
  obtain ⟨d, hfind⟩ : ∃ d, cs.find? (fun d => decide (61 ∈ d.2)) = some d :=
    Option.isSome_iff_exists.1 (List.find?_isSome.2 ⟨c, hc, decide_eq_true hmem⟩)
  obtain ⟨hinner, before, after, hsplit, hbefore⟩ := List.find?_eq_some_iff_append.1 hfind
  have hd : d ∈ cs := List.mem_of_find?_eq_some hfind
  have hin : ∀ e ∈ before, e ∈ cs := fun e he => hsplit ▸ List.mem_append_left _ he
  have hfresh : d.1 ∉ before.map Prod.fst := by
    rw [hsplit, List.map_append, List.map_cons, List.nodup_append] at hnodup
    exact fun hmem => hnodup.2.2 _ hmem _ List.mem_cons_self rfl
  obtain ⟨w, hw, hwrong⟩ := initScan_inner_eq trailing before d.1 d.2 after
    (fun e he => ⟨hplain e (hin e he), hnames e (hin e he), by simpa using hbefore e he⟩)
    (hplain d hd) (hnames d hd) (of_decide_eq_true hinner) hfresh [] [] {} (by simp) rfl
    (by simp) rfl
  rw [List.nil_append, List.nil_append, ← hsplit] at hwrong
  have hval : some d.2 = some w := by
    rw [← lookup_of_mem hnodup hd, ← hget]
    exact hwrong
  exact hw (Option.some.inj hval ▸ of_decide_eq_true hinner)

end Agree

/-- **A Cookie header is read back exactly if every cookie has a name, no value has an `=`, the last
    value is not empty and no `;` ends the header.** -/
theorem holdsCookies_iff (base64Decode : Bytes → Bytes) (hdrs : HeaderMap) (trailing : Bool)
    (cs : List (Bytes × Bytes)) (hne : cs ≠ []) (hplain : ∀ c ∈ cs, PlainCookie c)
    (hnodup : (cs.map Prod.fst).Nodup)
    (hhdr : hdrs.getFirst cookieName = some (cookieHeader trailing cs)) :
    HoldsCookies base64Decode { inHdrs := hdrs } cs
      ↔ (∀ c ∈ cs, ReadsBack c) ∧ (cs.getLast hne).2 ≠ [] ∧ trailing = false := by
  rw [holdsCookies_iff_lookup hhdr hnodup]
  have hagree : (∀ k, (initScan (cookieHeader trailing cs) (cookieHeader trailing cs) 0 {}).get? k
      = cs.lookup k) → ∀ c ∈ cs, ReadsBack c := by
    intro hget c hc
    exact ⟨names_of_agree hnodup hget c hc, values_of_agree hnodup hget hplain c hc⟩
  obtain ⟨cs, c, rfl⟩ := (List.eq_nil_or_concat' cs).resolve_left hne
  rw [List.getLast_append_singleton]
  have hscan : (∀ d ∈ cs ++ [c], ReadsBack d) → ∀ k,
      (initScan (cookieHeader trailing (cs ++ [c])) (cookieHeader trailing (cs ++ [c])) 0 {}).get? k
        = if trailing ∨ c.2 = [] then cs.lookup k else (cs ++ [c]).lookup k := by
    intro hgood k
    have hmap := initScan_cookieHeader trailing cs c (fun d hd => ⟨hplain d hd, hgood d hd⟩)
      [] [] {} (by simp) rfl
    rw [List.nil_append, List.nil_append, List.length_nil] at hmap
    rw [hmap]
    split
    · exact get?_storeCookies _ cs k
    · exact get?_storeCookies _ (cs ++ [c]) k
  constructor
  · intro hget
    have hlast : ¬ (trailing = true ∨ c.2 = []) := by
      intro hlost
      have hfresh : c.1 ∉ cs.map Prod.fst := by
        rw [List.map_append, List.nodup_append] at hnodup
        exact fun hmem => hnodup.2.2 _ hmem _ (by simp) rfl
      have hgone := hscan (hagree hget) c.1
      rw [if_pos hlost, hget, lookup_of_mem hnodup (by simp), lookup_eq_none.2 hfresh] at hgone
      cases hgone
    rw [not_or, Bool.not_eq_true] at hlast
    exact ⟨hagree hget, hlast.2, hlast.1⟩
  · rintro ⟨hgood, hval, rfl⟩ k
    rw [hscan hgood, if_neg (by simp [hval])]

/-- A padded base64 value, a last value that is empty, and a `;` at the end each lose a cookie. -/
theorem holdsCookies_fails :
    ¬ ∀ (base64Decode : Bytes → Bytes) (hdrs : HeaderMap) (trailing : Bool)
      (cs : List (Bytes × Bytes)), cs ≠ [] → (∀ c ∈ cs, PlainCookie c) →
      (cs.map Prod.fst).Nodup → hdrs.getFirst cookieName = some (cookieHeader trailing cs) →
      HoldsCookies base64Decode { inHdrs := hdrs } cs := by
  intro hall
  have hsid : PlainCookie (bytes "sid", bytes "YQ==") := by
    constructor <;> decide
  have hholds := hall id ((UMap.empty lower (List Bytes)).emplace cookieName [bytes "sid=YQ=="])
    false [(bytes "sid", bytes "YQ==")] (by simp) (by simpa using hsid) (by simp) (by decide)
  have hraw := (hholds.1 _ (List.mem_singleton_self _)).2
  revert hraw
  decide

/-- Two cookies that are read back. -/
theorem holdsCookies_two :
    HoldsCookies id
      { inHdrs := (UMap.empty lower (List Bytes)).emplace cookieName [bytes "a=; sid=YQ"] }
      [(bytes "a", []), (bytes "sid", bytes "YQ")] := by
  refine (holdsCookies_iff id _ false _ (by simp) ?_ (by decide) (by decide)).2 ⟨?_, by decide, rfl⟩
  · intro c hc
    simp only [List.mem_cons, List.not_mem_nil, or_false] at hc
    rcases hc with rfl | rfl <;> constructor <;> decide
  · intro c hc
    simp only [List.mem_cons, List.not_mem_nil, or_false] at hc
    rcases hc with rfl | rfl <;> constructor <;> decide

end LibEvmvc
