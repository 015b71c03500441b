import LibEvmvc.Connection.AfterHead

set_option autoImplicit false

/-! # A request head in pieces

The same head, cut into reads. Until the request line has its line end the bytes just gather in the
input buffer. The call that sees it takes up every line that is complete and drains two bytes too
few, so the buffer now begins with a line end that has been read already; the next call, whatever it
brings, takes it for the blank line. -/

namespace LibEvmvc

namespace Conn

variable (env : ConnEnv)

/-- A connection whose parser waits for a request line. -/
structure AtReqLine (c : Conn) : Prop where
  notClosed : c.world.closed = false
  notCrashed : c.world.crashed = false
  status : c.world.status = .parseReqLine
  res : c.world.parser.res = none

/-- And there is nothing in the buffer. -/
structure Idle (c : Conn) : Prop extends c.AtReqLine where
  bevIn : c.bevIn = []

/-- And its parser has been reset: no body has failed since. -/
structure AtStart (c : Conn) : Prop extends c.Idle where
  failed : c.world.parser.mpFailed = false

/-- The reads of a list, one after the other. -/
def reads (c : Conn) (rs : List Bytes) : Conn := c.run env (rs.map .read)

theorem reads_append (c : Conn) (rs rs' : List Bytes) :
    c.reads env (rs ++ rs') = (c.reads env rs).reads env rs' := by
  simp [reads, run]

theorem reads_cons (c : Conn) (r : Bytes) (rs : List Bytes) :
    c.reads env (r :: rs) = (c.step env (.read r)).reads env rs := rfl

/-! ## One read -/

/-- The connection is there and its parser reads the head. -/
structure InHead (c : Conn) (s : ParserState) : Prop where
  notClosed : c.world.closed = false
  ready : (World.host env).Ready c.world s

theorem AtReqLine.inHead {c : Conn} (h : c.AtReqLine) : c.InHead env .parseReqLine :=
  ⟨h.notClosed, h.status, h.notCrashed, World.host_paused_none env h.res⟩

theorem step_read {c : Conn} {s : ParserState} (hc : c.InHead env s)
    (hs : s = .parseReqLine ∨ s = .parseHeader) (data : Bytes) :
    c.step env (.read data) =
      if c.bevIn ++ data = [] then { c with bevIn := c.bevIn ++ data }
      else { c with bevIn := c.bevIn ++ data }.afterRead env
        (parse (World.host env) env.toHeadEnv c.world (c.bevIn ++ data)) := by
  have hstatus : c.world.status = s := hc.ready.status
  have hcrash : c.world.crashed = false := hc.ready.notCrashed
  have hgoes : ¬ (c.world.status = .completed ∨ c.world.status = .error) ∧
      c.world.status ≠ .responding := by
    rw [hstatus]
    rcases hs with rfl | rfl
    · exact ⟨by decide, by decide⟩
    · exact ⟨by decide, by decide⟩
  have hrenew : c.world.renew = c.world := if_neg hgoes.1
  unfold step
  rw [hc.notClosed, hcrash]
  simp only [Bool.false_eq_true, or_self, if_false, handle]
  unfold onRead
  simp only [hrenew, hgoes.2, false_or]

/-- A call that goes on with the head leaves the connection to the next event. -/
theorem afterRead_inHead {c : Conn} {r : ParseResult World} {s : ParserState}
    (hr : (World.host env).Ready r.world s) (hs : s = .parseReqLine ∨ s = .parseHeader)
    (hok : r.failed = false) (hused : r.used ≤ c.bevIn.length) :
    c.afterRead env r =
      { world := r.world, bevIn := c.bevIn.drop r.used, drained := c.drained + r.used,
        errors := c.errors,
        calls := c.calls ++ r.reqLines.map fun call => ⟨c.drained + call.1, call.2, c.errors⟩,
        heads := c.heads ++ r.heads } := by
  have hstatus : r.world.status = s := hr.status
  have hcrash : r.world.crashed = false := hr.notCrashed
  have hgoes : r.world.status ≠ .error ∧ r.world.status ≠ .readyToExec := by
    rw [hstatus]
    rcases hs with rfl | rfl
    · exact ⟨by decide, by decide⟩
    · exact ⟨by decide, by decide⟩
  have hparse : c.afterParse r =
      { world := r.world, bevIn := c.bevIn.drop r.used, drained := c.drained + r.used,
        errors := c.errors,
        calls := c.calls ++ r.reqLines.map fun call => ⟨c.drained + call.1, call.2, c.errors⟩,
        heads := c.heads ++ r.heads } := by
    unfold afterParse
    simp only [hgoes.1, ne_eq, not_false_eq_true, if_true, Nat.min_eq_left hused]
  unfold afterRead
  rw [hparse]
  simp only [hcrash, hok, hgoes.2, Bool.false_eq_true, if_false]
  split
  · rfl
  · rfl

/-- A read that completes no line is kept for later. -/
theorem step_read_noCrlf {c : Conn} {s : ParserState} (hc : c.InHead env s)
    (hs : s = .parseReqLine ∨ s = .parseHeader) {data : Bytes} (hno : NoCrlf (c.bevIn ++ data)) :
    c.step env (.read data) = { c with bevIn := c.bevIn ++ data } := by
  rw [step_read env hc hs]
  split
  · rfl
  · rw [parse_noCrlf hc.ready.status hs hno,
      afterRead_inHead env (r := .idle c.world) hc.ready hs rfl (Nat.zero_le _)]
    simp [ParseResult.idle]

theorem reads_noCrlf {c : Conn} {s : ParserState} (hc : c.InHead env s)
    (hs : s = .parseReqLine ∨ s = .parseHeader) (rs : List Bytes)
    (hno : NoCrlf (c.bevIn ++ rs.flatten)) :
    c.reads env rs = { c with bevIn := c.bevIn ++ rs.flatten } := by
  induction rs generalizing c with
  | nil => simp [reads, run]
  | cons r rs ih =>
    rw [List.flatten_cons, ← List.append_assoc] at hno
    have hc' : ({ c with bevIn := c.bevIn ++ r } : Conn).InHead env s := ⟨hc.notClosed, hc.ready⟩
    rw [reads_cons, step_read_noCrlf env hc hs hno.append_left, ih hc' hno, List.flatten_cons,
      List.append_assoc]

/-! ## The record of a run -/

theorem afterRead_heads (c : Conn) (r : ParseResult World) :
    (c.afterRead env r).heads = c.heads ++ r.heads := by
  unfold afterRead
  simp only
  split
  · rfl
  · split
    · rfl
    · split
      · rfl
      · split
        · rfl
        · rfl

theorem afterRead_calls (c : Conn) (r : ParseResult World) :
    (c.afterRead env r).calls
      = c.calls ++ r.reqLines.map fun call => ⟨c.drained + call.1, call.2, c.errors⟩ := by
  unfold afterRead
  simp only
  split
  · rfl
  · split
    · rfl
    · split
      · rfl
      · split
        · rfl
        · rfl

/-- What has been recorded stays. -/
structure Grows (c c' : Conn) : Prop where
  heads : c.heads <+: c'.heads
  calls : c.calls <+: c'.calls

theorem Grows.refl (c : Conn) : Grows c c := ⟨List.prefix_rfl, List.prefix_rfl⟩

theorem Grows.trans {c₁ c₂ c₃ : Conn} (h : Grows c₁ c₂) (h' : Grows c₂ c₃) : Grows c₁ c₃ :=
  ⟨h.heads.trans h'.heads, h.calls.trans h'.calls⟩

theorem onRead_grows (c : Conn) : Grows c (c.onRead env) := by
  unfold onRead
  split
  · exact ⟨List.prefix_rfl, List.prefix_rfl⟩
  · constructor
    · rw [afterRead_heads]
      exact List.prefix_append _ _
    · rw [afterRead_calls]
      exact List.prefix_append _ _

theorem step_grows (c : Conn) (e : Event) : Grows c (c.step env e) := by
  have hsame : ∀ w, Grows c { c with world := w } := fun _ => ⟨List.prefix_rfl, List.prefix_rfl⟩
  unfold step
  split
  · exact .refl c
  · cases e with
    | read data =>
      have hgrows := onRead_grows env { c with bevIn := c.bevIn ++ data }
      exact ⟨hgrows.heads, hgrows.calls⟩
    | write => exact hsame _
    | resume =>
      unfold handle onResume
      simp only
      split
      · split
        · exact hsame _
        · split
          · exact hsame _
          · split
            · exact hsame _
            · exact (hsame _).trans (onRead_grows env
                { c with world := { c.world with paused := false, resumeActive := false } })
      · exact .refl c
    | verdict id denied =>
      unfold handle
      simp only
      split
      · exact .refl c
      · exact hsame _
    | act id a =>
      unfold handle
      simp only
      split
      · exact hsame _
      · exact .refl c

theorem run_grows (c : Conn) (es : List Event) : Grows c (c.run env es) := by
  induction es generalizing c with
  | nil => exact .refl c
  | cons e es ih => exact (step_grows env c e).trans (ih _)

theorem reads_grows (c : Conn) (rs : List Bytes) : Grows c (c.reads env rs) := run_grows env c _

/-! ## Cutting the reads at the request line -/

/-- The reads that follow the one with the `n`-th byte. -/
def readsAfter : Nat → List Bytes → List Bytes
  | _, [] => []
  | n, r :: rs => if n ≤ r.length then rs else readsAfter (n - r.length) rs

/-- The reads up to the one with the `n`-th byte. -/
def readsUpTo : Nat → List Bytes → List Bytes
  | _, [] => []
  | n, r :: rs => if n ≤ r.length then [r] else r :: readsUpTo (n - r.length) rs

theorem readsAfter_split {n : Nat} {rs : List Bytes} (hn : 0 < n) (h : n ≤ rs.flatten.length) :
    ∃ pre r, rs = pre ++ r :: readsAfter n rs ∧ readsUpTo n rs = pre ++ [r] ∧
      pre.flatten.length < n ∧ n ≤ (pre.flatten ++ r).length := by
  induction rs generalizing n with
  | nil => exact absurd h (Nat.not_le.2 hn)
  | cons r rs ih =>
    unfold readsAfter readsUpTo
    split
    · next hle => exact ⟨[], r, rfl, rfl, hn, hle⟩
    · next hlt =>
      have hrest : n - r.length ≤ rs.flatten.length := by
        rw [List.flatten_cons, List.length_append] at h
        omega
      obtain ⟨pre, r', hsplit, hupTo, hlow, hhigh⟩ := ih (by omega) hrest
      refine ⟨r :: pre, r', by rw [List.cons_append, ← hsplit], by rw [hupTo]; rfl, ?_, ?_⟩
      · rw [List.flatten_cons, List.length_append]
        omega
      · rw [List.length_append] at hhigh
        rw [List.flatten_cons, List.length_append, List.length_append]
        omega

theorem unsplit_ends (l : Bytes) (ls : List Bytes) :
    ∃ front, unsplit (l :: ls) [] = front ++ crlf := by
  induction ls generalizing l with
  | nil => exact ⟨l, by simp [unsplit]⟩
  | cons l' ls ih =>
    obtain ⟨front, hfront⟩ := ih l'
    refine ⟨l ++ crlf ++ front, ?_⟩
    rw [unsplit_cons, hfront, List.append_assoc (l ++ crlf)]

/-- Draining two bytes too few leaves the last line end. -/
theorem drop_unsplit (l : Bytes) (ls : List Bytes) (t : Bytes) :
    (unsplit (l :: ls) t).drop ((unsplit (l :: ls) []).length - 2) = crlf ++ t := by
  obtain ⟨front, hfront⟩ := unsplit_ends l ls
  have hlen : (unsplit (l :: ls) []).length - 2 = front.length := by
    rw [hfront, List.length_append]
    rfl
  rw [hlen, unsplit_tail, hfront, List.append_assoc, List.drop_left]

/-- Reads that complete no line count as one with the read that follows them. -/
theorem reads_joined {c : Conn} (hc : c.Idle) {pre : List Bytes} (hpre : NoCrlf pre.flatten)
    (r : Bytes) : c.reads env (pre ++ [r]) = c.reads env [pre.flatten ++ r] := by
  have hhead := hc.inHead env
  have hc' : ({ c with bevIn := pre.flatten } : Conn).InHead env .parseReqLine :=
    ⟨hhead.notClosed, hhead.ready⟩
  have hreads := reads_noCrlf env hhead (Or.inl rfl) pre (by rw [hc.bevIn]; exact hpre)
  rw [hc.bevIn, List.nil_append] at hreads
  rw [reads_append, hreads, reads_cons, reads_cons, step_read env hc' (Or.inl rfl),
    step_read env hhead (Or.inl rfl), hc.bevIn]
  rfl

/-- **A read that completes the request line and stops inside the header section.** -/
theorem reads_part {c : Conn} (hc : c.Idle) {h : ReqHead} (hacc : h.Accepted env.toHeadEnv)
    (k : Nat) {t : Bytes} (ht : NoCrlf t) :
    c.reads env [unsplit (h.reqLine :: (h.headers.take k).map headerText) t] =
      { world := h.after (World.host env) c.world (h.headers.take k)
        bevIn := crlf ++ t
        drained := c.drained
          + ((unsplit (h.reqLine :: (h.headers.take k).map headerText) []).length - 2)
        errors := c.errors
        calls := c.calls ++ [⟨c.drained, h.reqLine, c.errors⟩]
        heads := c.heads } := by
  have hhead := hc.inHead env
  have hparse := parse_head_part (World.host_lawful env) hacc hhead.ready k ht
  have hready := h.after_ready (World.host_lawful env) hhead.ready (h.headers.take k)
  have hused : (unsplit (h.reqLine :: (h.headers.take k).map headerText) []).length - 2
      ≤ (unsplit (h.reqLine :: (h.headers.take k).map headerText) t).length := by
    rw [unsplit_tail _ t, List.length_append]
    omega
  rw [reads_cons, step_read env hhead (Or.inl rfl), hc.bevIn, List.nil_append,
    if_neg (unsplit_ne_nil _ _ _), hparse, afterRead_inHead env hready (Or.inr rfl) rfl hused,
    drop_unsplit]
  show (Conn.mk _ _ _ _ _ _) = _
  rw [List.append_nil]
  rfl

/-- The lines of a head change nothing but the head. -/
theorem after_frame (h : ReqHead) (w : World) (nvs : List (Bytes × Bytes)) :
    ∃ p, h.after (World.host env) w nvs = (World.host env).setHead w p := by
  have hadd : ∀ p, ∃ p', addHeaders (World.host env) ((World.host env).setHead w p) nvs
      = (World.host env).setHead w p' := by
    induction nvs with
    | nil => exact fun p => ⟨p, rfl⟩
    | cons nv nvs ih =>
      intro p
      obtain ⟨p', hp'⟩ : ∃ p', addHeader (World.host env) ((World.host env).setHead w p) nv
          = (World.host env).setHead w p' := by
        unfold addHeader
        rw [parseHeaderLine_headerText]
        exact ⟨_, rfl⟩
      show ∃ p'', addHeaders (World.host env) (addHeader (World.host env) _ nv) nvs = _
      rw [hp']
      exact ih p'
  exact hadd _

/-- Whether the parser goes on is up to the head and the number of the request. -/
theorem goesOn_after (h : ReqHead) (w : World) :
    World.goesOn env (h.after (World.host env) w h.headers).nextId
      (h.after (World.host env) w h.headers).parser.head.toHeadInfo
        = World.goesOn env w.nextId h.info := by
  obtain ⟨p, hp⟩ := after_frame env h w h.headers
  have hinfo : (h.after (World.host env) w h.headers).parser.head.toHeadInfo = h.info :=
    h.info_after (World.host_lawful env) w
  rw [hinfo, hp]
  rfl

/-- A header line that is still to come is missing. -/
theorem after_take_ne {h : ReqHead} (w : World) {k : Nat} (hk : k < h.headers.length) :
    (h.after (World.host env) w (h.headers.take k)).parser.head.toHeadInfo
      ≠ (h.after (World.host env) w h.headers).parser.head.toHeadInfo := by
  have hsplit : h.after (World.host env) w h.headers
      = addHeaders (World.host env) (h.after (World.host env) w (h.headers.take k))
          (h.headers.drop k) := by
    unfold ReqHead.after addHeaders
    rw [← List.foldl_append, List.take_append_drop]
  have hne : h.headers.drop k ≠ [] := by
    rw [Ne, List.drop_eq_nil_iff]
    exact Nat.not_le.2 hk
  intro heq
  refine addHeaders_ne (World.host_lawful env) (h.after (World.host env) w (h.headers.take k)) hne ?_
  rw [← hsplit]
  exact heq.symm

/-! ## The read after that -/

/-- The parser after the exception. -/
theorem afterHeadEnd_atReqLine {w : World}
    (hclosed : w.closed = false) (hthrow : ((World.host env).endOfHeaders w).2 = true) :
    (afterHeadEnd (World.host env) w).closed = false ∧
      (afterHeadEnd (World.host env) w).parser.res = none := by
  have hreset : afterHeadEnd (World.host env) w = (World.endOfHeaders env w).1.reset := if_pos hthrow
  rw [hreset]
  constructor
  · rw [(World.reset_alive _).2, (World.endOfHeaders_threw env w hthrow).2]
    exact hclosed
  · rw [World.parser_reset]
    rfl

section Blank

variable {c : Conn} {t : Bytes}

theorem step_read_blank (hc : c.InHead env .parseHeader) (hbev : c.bevIn = crlf ++ t) (s : Bytes) :
    c.step env (.read s) = { c with bevIn := c.bevIn ++ s }.afterRead env
      (parseLines (World.host env) env.toHeadEnv 0 c.world [] ([] :: (splitCrlf (t ++ s)).1)
        (splitCrlf (t ++ s)).2) := by
  have hbuf : c.bevIn ++ s = crlf ++ (t ++ s) := by rw [hbev, List.append_assoc]
  have hne : c.bevIn ++ s ≠ [] := by rw [hbuf]; simp [crlf]
  rw [step_read env hc (Or.inr rfl), if_neg hne, hbuf, parse_blank hc.ready]

/-- The line end that was left over is taken for the end of the headers. -/
theorem heads_after_blank (hc : c.InHead env .parseHeader) (hbev : c.bevIn = crlf ++ t) (s : Bytes) :
    ∃ more, (c.step env (.read s)).heads = c.heads ++ headEnd (World.host env) c.world :: more := by
  rw [step_read_blank env hc hbev, afterRead_heads]
  obtain ⟨more, hmore⟩ := heads_of_blank hc.ready 0 [] (splitCrlf (t ++ s)).1 (splitCrlf (t ++ s)).2
  exact ⟨more, by rw [hmore]⟩

/-- A line end that was left over throws, and the next line is empty. -/
theorem step_threw_blank (hc : c.InHead env .parseHeader) (hbev : c.bevIn = crlf ++ t)
    (hthrow : ((World.host env).endOfHeaders c.world).2 = true) {s rest : Bytes}
    (hfirst : t ++ s = crlf ++ rest) :
    (c.step env (.read s)).world.closed = true ∧
      (c.step env (.read s)).calls = c.calls ++ [⟨c.drained + 2, [], c.errors⟩] := by
  have hlaw := World.host_lawful env
  obtain ⟨hready, -⟩ := afterHeadEnd_ready hlaw hc.ready hthrow
  have hlines : parseLines (World.host env) env.toHeadEnv 0 c.world []
      ([] :: (splitCrlf (t ++ s)).1) (splitCrlf (t ++ s)).2
      = ⟨(afterHeadEnd (World.host env) c.world).setStatus .error, 0, true, [(2, [])],
          [headEnd (World.host env) c.world]⟩ := by
    rw [parseLines_threw hlaw hc.ready hthrow, hfirst]
    show ParseResult.followedBy _ (parseLines _ _ _ _ _ (splitCrlf (13 :: 10 :: rest)).1
      (splitCrlf (13 :: 10 :: rest)).2) = _
    rw [splitCrlf_crlf, parseLines_emptyReqLine hlaw hready]
    rfl
  have hcrash : ((afterHeadEnd (World.host env) c.world).setStatus .error).crashed = false :=
    hready.notCrashed
  rw [step_read_blank env hc hbev, hlines]
  constructor
  · unfold afterRead
    simp only [afterParse, hcrash, Bool.false_eq_true, if_false, if_true]
    rfl
  · exact afterRead_calls ..

end Blank

/-! ## The read that ends the head -/

/-- A call that is in error, or has used up all there is, leaves nothing in the buffer. -/
theorem afterParse_all {c : Conn} {r : ParseResult World}
    (h : r.world.status = .error ∨ c.bevIn.length ≤ r.used) :
    c.afterParse r =
      { world := r.world
        bevIn := []
        drained := c.drained + c.bevIn.length
        errors := if r.world.status ≠ .error then c.errors else c.errors + 1
        calls := c.calls ++ r.reqLines.map fun call => ⟨c.drained + call.1, call.2, c.errors⟩
        heads := c.heads ++ r.heads } := by
  have hcount : (if r.world.status ≠ .error then min r.used c.bevIn.length else c.bevIn.length)
      = c.bevIn.length := by
    split
    · next hok => exact Nat.min_eq_right (h.resolve_left hok)
    · rfl
  unfold afterParse
  simp only [hcount, List.drop_length]

/-- What a call leads to depends on what it leaves. -/
theorem afterRead_congr {c c' : Conn} {r r' : ParseResult World}
    (h : c.afterParse r = c'.afterParse r') (hfailed : r.failed = r'.failed) :
    c.afterRead env r = c'.afterRead env r' := by
  unfold afterRead
  rw [h, hfailed]

/-- A body that has been touched stays so. -/
theorem afterRead_touched {c : Conn} {r : ParseResult World} {buf : Option (List Bytes)}
    (h : r.world.crashed = true ∨ r.world.parser.mpBuf ≠ buf) :
    (c.afterRead env r).world.crashed = true ∨ (c.afterRead env r).world.parser.mpBuf ≠ buf := by
  unfold afterRead
  simp only
  split
  · exact h
  · next hcrash =>
    have hbuf : r.world.parser.mpBuf ≠ buf := h.resolve_left hcrash
    refine Or.inr ?_
    split
    · exact hbuf
    · split
      · exact hbuf
      · split
        · rw [World.mpBuf_exec]
          exact hbuf
        · exact hbuf

/-- A call that comes to a body leaves the connection to the next event. -/
theorem afterRead_body {c : Conn} {r : ParseResult World} (hfailed : r.failed = false)
    (hbody : r.world.status.parsingBody = true) : (c.afterRead env r).world = r.world := by
  have hready : r.world.status ≠ .readyToExec := by
    intro hready
    rw [hready] at hbody
    exact Bool.noConfusion hbody
  unfold afterRead
  simp only [afterParse, hfailed, hready, Bool.false_eq_true, if_false]
  split
  · rfl
  · split
    · rfl
    · rfl

/-- Bytes that follow a head that leads to a body do not leave it alone. -/
theorem parseLines_touches {w : World} (hready : (World.host env).Ready w .parseHeader)
    (hok : (World.endOfHeaders env w).2 = false)
    (hcrash : (World.endOfHeaders env w).1.crashed = false)
    (hpause : (World.host env).paused (World.endOfHeaders env w).1 = false)
    (hbody : (World.endOfHeaders env w).1.status.parsingBody = true)
    (hfailed : (World.endOfHeaders env w).1.parser.mpFailed = false) (n : Nat) (before : Bytes)
    {lines : List Bytes} {tail : Bytes} (hne : unsplit lines tail ≠ []) :
    (parseLines (World.host env) env.toHeadEnv n w before ([] :: lines) tail).world.crashed = true ∨
      (parseLines (World.host env) env.toHeadEnv n w before ([] :: lines) tail).world.parser.mpBuf
        ≠ (World.endOfHeaders env w).1.parser.mpBuf := by
  have hworld : (parseLines (World.host env) env.toHeadEnv n w before ([] :: lines) tail).world = _ :=
    (parseLines_body hready hok hcrash hpause hbody n before lines tail).2
  rw [hworld, if_neg hne]
  exact World.parseBody_touches env hfailed _

section Whole

variable {c : Conn} (hc : c.Idle) {h : ReqHead} (hacc : h.Accepted env.toHeadEnv)

include hc hacc

/-- A head in a single read, with what follows it. -/
theorem reads_whole (rest : Bytes) :
    c.reads env [h.bytes ++ rest] =
      { c with bevIn := h.bytes ++ rest }.afterRead env
        (ParseResult.followedBy
          ⟨h.after (World.host env) c.world h.headers, 0, false, [(0, h.reqLine)], []⟩
          (parseLines (World.host env) env.toHeadEnv (h.bytes.length - 4)
            (h.after (World.host env) c.world h.headers) (unsplit h.lines [])
            ([] :: (splitCrlf rest).1) (splitCrlf rest).2)) := by
  have hhead := hc.inHead env
  have hne : h.bytes ++ rest ≠ [] := by
    rw [h.bytes_eq]
    exact unsplit_ne_nil _ _ _
  rw [reads_cons, step_read env hhead (Or.inl rfl), hc.bevIn, List.nil_append, if_neg hne,
    parse_head (World.host_lawful env) hacc hhead.ready]
  rfl

/-- A head that leads to a body leaves the parser there. -/
theorem reads_body (hready : (World.host env).Ready (h.after (World.host env) c.world h.headers)
      .parseHeader)
    (hok : (World.endOfHeaders env (h.after (World.host env) c.world h.headers)).2 = false)
    (hcrash : (World.endOfHeaders env (h.after (World.host env) c.world h.headers)).1.crashed = false)
    (hpause : (World.host env).paused
      (World.endOfHeaders env (h.after (World.host env) c.world h.headers)).1 = false)
    (hbody : (World.endOfHeaders env
      (h.after (World.host env) c.world h.headers)).1.status.parsingBody = true) :
    (c.reads env [h.bytes]).world
      = (World.endOfHeaders env (h.after (World.host env) c.world h.headers)).1 := by
  have hwhole := reads_whole env hc hacc []
  rw [List.append_nil] at hwhole
  have hfailed' : (ParseResult.followedBy
      ⟨h.after (World.host env) c.world h.headers, 0, false, [(0, h.reqLine)], []⟩
      (parseLines (World.host env) env.toHeadEnv (h.bytes.length - 4)
        (h.after (World.host env) c.world h.headers) (unsplit h.lines []) [[]] [])).failed = false :=
    (parseLines_body hready hok hcrash hpause hbody _ _ [] []).1
  have hworld : (parseLines (World.host env) env.toHeadEnv (h.bytes.length - 4)
      (h.after (World.host env) c.world h.headers) (unsplit h.lines []) [[]] []).world
        = (World.endOfHeaders env (h.after (World.host env) c.world h.headers)).1 := by
    refine (parseLines_body hready hok hcrash hpause hbody _ _ [] []).2.trans ?_
    rw [if_pos (by decide)]
    rfl
  have hnext := afterRead_body env (c := { c with bevIn := h.bytes }) hfailed'
    ((congrArg (fun w : World => w.status.parsingBody) hworld).trans hbody)
  exact (congrArg Conn.world hwhole).trans (hnext.trans hworld)

theorem heads_of_whole (rest : Bytes) :
    ∃ more, (c.reads env [h.bytes ++ rest]).heads = c.heads ++
      headEnd (World.host env) (h.after (World.host env) c.world h.headers) :: more := by
  have hready := h.after_ready (World.host_lawful env) (hc.inHead env).ready h.headers
  obtain ⟨more, hmore⟩ := heads_of_blank hready (h.bytes.length - 4) (unsplit h.lines [])
    (splitCrlf rest).1 (splitCrlf rest).2
  refine ⟨more, ?_⟩
  rw [reads_whole env hc hacc, afterRead_heads, ← hmore]
  rfl

/-- The call that meets the blank line goes on with what follows it. -/
theorem parse_threw
    (hthrow : ((World.host env).endOfHeaders (h.after (World.host env) c.world h.headers)).2 = true)
    (rest : Bytes) :
    parse (World.host env) env.toHeadEnv c.world (h.bytes ++ rest)
      = ParseResult.followedBy
          ⟨h.after (World.host env) c.world h.headers, 0, false, [(0, h.reqLine)], []⟩
          (ParseResult.followedBy
            ⟨afterHeadEnd (World.host env) (h.after (World.host env) c.world h.headers), 0, false, [],
              [headEnd (World.host env) (h.after (World.host env) c.world h.headers)]⟩
            (parseLines (World.host env) env.toHeadEnv (h.bytes.length - 2)
              (afterHeadEnd (World.host env) (h.after (World.host env) c.world h.headers))
              h.bytes (splitCrlf rest).1 (splitCrlf rest).2)) := by
  have hlaw := World.host_lawful env
  have hready := h.after_ready hlaw (hc.inHead env).ready h.headers
  have hcount : h.bytes.length - 4 + 2 = h.bytes.length - 2 := by
    have hlen := h.four_le_length
    omega
  rw [parse_head hlaw hacc (hc.inHead env).ready rest, parseLines_threw hlaw hready hthrow, hcount,
    ← h.bytes_lines]

/-- Without another line the parser stops in front of the line end that was not drained. -/
theorem reads_threw
    (hthrow : ((World.host env).endOfHeaders (h.after (World.host env) c.world h.headers)).2 = true)
    {rest : Bytes} (hrest : NoCrlf rest) :
    c.reads env [h.bytes ++ rest] =
      { world := afterHeadEnd (World.host env) (h.after (World.host env) c.world h.headers)
        bevIn := crlf ++ rest
        drained := c.drained + (h.bytes.length - 2)
        errors := c.errors
        calls := c.calls ++ [⟨c.drained, h.reqLine, c.errors⟩]
        heads := c.heads ++
          [headEnd (World.host env) (h.after (World.host env) c.world h.headers)] } := by
  have hlaw := World.host_lawful env
  have hready := h.after_ready hlaw (hc.inHead env).ready h.headers
  obtain ⟨hready', -⟩ := afterHeadEnd_ready hlaw hready hthrow
  have hne : h.bytes ++ rest ≠ [] := by
    rw [h.bytes_eq]
    exact unsplit_ne_nil _ _ _
  have hused : h.bytes.length - 2 ≤ (h.bytes ++ rest).length := by
    rw [List.length_append]
    omega
  have hdrop : (h.bytes ++ rest).drop (h.bytes.length - 2) = crlf ++ rest := by
    rw [h.length_bytes, Nat.add_sub_cancel, h.bytes_lines, List.append_assoc, List.drop_left]
  have hparse : parse (World.host env) env.toHeadEnv c.world (h.bytes ++ rest)
      = ⟨afterHeadEnd (World.host env) (h.after (World.host env) c.world h.headers),
          h.bytes.length - 2, false, [(0, h.reqLine)],
          [headEnd (World.host env) (h.after (World.host env) c.world h.headers)]⟩ := by
    rw [parse_threw env hc hacc hthrow, splitCrlf_noCrlf hrest]
    rfl
  rw [reads_cons, step_read env (hc.inHead env) (Or.inl rfl), hc.bevIn, List.nil_append, if_neg hne,
    hparse, afterRead_inHead env hready' (Or.inl rfl) rfl hused, hdrop]
  rfl

end Whole

/-! ## Every way of cutting -/

/-- The reads leave the connection as the whole head in one read does: with the same head and the same
    decision at the end of the headers, the parser and the responses in the same state, and the same
    bytes still to be read. And no end of headers comes before the last read. -/
def ChunkInvariant (c : Conn) (h : ReqHead) (rs : List Bytes) : Prop :=
  c.reads env rs = c.reads env [h.bytes] ∧
    ∀ early late, rs = early ++ late → late ≠ [] → (c.reads env early).heads = c.heads

section Cutting

variable {c : Conn} (hc : c.Idle) {h : ReqHead} (hacc : h.Accepted env.toHeadEnv)

include hc

/-- Nothing is decided before the request line is complete. -/
theorem reads_before {pre a b : List Bytes} (hpre : NoCrlf pre.flatten) (hab : pre = a ++ b) :
    (c.reads env a).heads = c.heads := by
  have hno : NoCrlf a.flatten := by
    rw [hab, List.flatten_append] at hpre
    exact hpre.append_left
  rw [reads_noCrlf env (hc.inHead env) (Or.inl rfl) a (by rw [hc.bevIn]; exact hno)]

/-- The reads of a list but for the last one decide nothing, if those but for the last two do not. -/
theorem reads_none_before {pre a b : List Bytes} {r s : Bytes} (hpre : NoCrlf pre.flatten)
    (hr : (c.reads env (pre ++ [r])).heads = c.heads) (hab : (pre ++ [r]) ++ [s] = a ++ b)
    (hb : b ≠ []) : (c.reads env a).heads = c.heads := by
  -- `a` is the list without its last read, or part of `pre`
  obtain ⟨b, x, rfl⟩ := (List.eq_nil_or_concat b).resolve_left hb
  rw [List.concat_eq_append, ← List.append_assoc] at hab
  have hab' := (List.append_inj' hab rfl).1
  rcases List.eq_nil_or_concat b with rfl | ⟨b, x, rfl⟩
  · rw [List.append_nil] at hab'
    rw [← hab']
    exact hr
  · rw [List.concat_eq_append, ← List.append_assoc] at hab'
    exact reads_before env hc hpre (List.append_inj' hab' rfl).1

include hacc

/-- The connection when the reads stop inside the header section. -/
theorem reads_stopped {pre : List Bytes} {r t : Bytes} {k : Nat} (hpre : NoCrlf pre.flatten)
    (ht : NoCrlf t)
    (hcut : pre.flatten ++ r = unsplit (h.reqLine :: (h.headers.take k).map headerText) t) :
    c.reads env (pre ++ [r]) =
      { world := h.after (World.host env) c.world (h.headers.take k)
        bevIn := crlf ++ t
        drained := c.drained
          + ((unsplit (h.reqLine :: (h.headers.take k).map headerText) []).length - 2)
        errors := c.errors
        calls := c.calls ++ [⟨c.drained, h.reqLine, c.errors⟩]
        heads := c.heads } := by
  rw [reads_joined env hc hpre r, hcut]
  exact reads_part env hc hacc k ht

theorem inHead_stopped {pre : List Bytes} {r t : Bytes} {k : Nat} (hpre : NoCrlf pre.flatten)
    (ht : NoCrlf t)
    (hcut : pre.flatten ++ r = unsplit (h.reqLine :: (h.headers.take k).map headerText) t) :
    (c.reads env (pre ++ [r])).InHead env .parseHeader := by
  have hready := h.after_ready (World.host_lawful env) (hc.inHead env).ready (h.headers.take k)
  rw [reads_stopped env hc hacc hpre ht hcut]
  obtain ⟨p, hp⟩ := after_frame env h c.world (h.headers.take k)
  refine ⟨?_, hready⟩
  rw [hp]
  exact hc.notClosed

/-- Another read follows. -/
theorem reads_next {pre : List Bytes} {r t : Bytes} {k : Nat} (hpre : NoCrlf pre.flatten)
    (ht : NoCrlf t)
    (hcut : pre.flatten ++ r = unsplit (h.reqLine :: (h.headers.take k).map headerText) t)
    (s : Bytes) (post : List Bytes) :
    ∃ more, (c.reads env (pre ++ r :: s :: post)).heads = c.heads ++
      headEnd (World.host env) (h.after (World.host env) c.world (h.headers.take k)) :: more := by
  have hpart := reads_stopped env hc hacc hpre ht hcut
  have hc' := inHead_stopped env hc hacc hpre ht hcut
  obtain ⟨more, hmore⟩ := heads_after_blank env hc' (by rw [hpart]) s
  obtain ⟨rest, hrest⟩ := (reads_grows env ((c.reads env (pre ++ [r])).step env (.read s)) post).heads
  have hsplit : pre ++ r :: s :: post = (pre ++ [r]) ++ s :: post := by simp
  refine ⟨more ++ rest, ?_⟩
  rw [hsplit, reads_append, reads_cons, ← hrest, hmore, hpart]
  simp

/-- The next line is still to come: the headers end too early. -/
theorem not_chunkInvariant_of_early (pre : List Bytes) {post : List Bytes} {r s t : Bytes} {k : Nat}
    (hpre : NoCrlf pre.flatten) (ht : NoCrlf t) (hk : k < h.headers.length)
    (hcut : pre.flatten ++ r = unsplit (h.reqLine :: (h.headers.take k).map headerText) t) :
    ¬ ChunkInvariant env c h (pre ++ r :: s :: post) := by
  rintro ⟨hsame, -⟩
  obtain ⟨more, hmore⟩ := reads_next env hc hacc hpre ht hcut s post
  obtain ⟨more', hmore'⟩ := heads_of_whole env hc hacc []
  rw [List.append_nil, ← hsame, hmore] at hmore'
  have hend := (List.cons.inj (List.append_cancel_left hmore')).1
  exact after_take_ne env c.world hk (congrArg HeadEnd.head hend)

section Late

variable {pre : List Bytes} {r s t : Bytes} (hpre : NoCrlf pre.flatten) (ht : NoCrlf t)
  (hcut : pre.flatten ++ r = unsplit h.lines t) (hts : t ++ s = crlf)

include hpre ht hcut hts

/-- Only the blank line was still to come: the parser meets it twice. -/
theorem reads_late :
    c.reads env (pre ++ [r, s]) =
      afterRead env
        { world := h.after (World.host env) c.world h.headers
          bevIn := crlf ++ crlf
          drained := c.drained + (h.bytes.length - 4)
          errors := c.errors
          calls := c.calls ++ [⟨c.drained, h.reqLine, c.errors⟩]
          heads := c.heads }
        (parseLines (World.host env) env.toHeadEnv 0 (h.after (World.host env) c.world h.headers) []
          [[], []] []) := by
  have hcut' : pre.flatten ++ r
      = unsplit (h.reqLine :: (h.headers.take h.headers.length).map headerText) t := by
    rw [List.take_length]
    exact hcut
  have hpart := reads_stopped env hc hacc hpre ht hcut'
  have hcount : (unsplit (h.reqLine :: h.headers.map headerText) []).length - 2
      = h.bytes.length - 4 := by
    rw [h.length_bytes]
    rfl
  have hsplit : splitCrlf (t ++ s) = ([[]], []) := by
    rw [hts]
    rfl
  have hc' := inHead_stopped env hc hacc hpre ht hcut'
  rw [show pre ++ [r, s] = (pre ++ [r]) ++ [s] by simp, reads_append, reads_cons,
    step_read_blank env hc' (by rw [hpart]), hsplit, hpart, List.take_length, hcount]
  show afterRead env _ _ = _
  rw [List.append_assoc, hts]

/-- If the parser goes no further, it makes no difference. -/
theorem reads_late_rests (hgo : World.goesOn env c.world.nextId h.info = false) :
    c.reads env (pre ++ [r, s]) = c.reads env [h.bytes] := by
  have hlaw := World.host_lawful env
  have hready := h.after_ready hlaw (hc.inHead env).ready h.headers
  rw [← goesOn_after] at hgo
  obtain ⟨hthrow, hcrash, hrests⟩ := World.endOfHeaders_rests hready.status hgo
  have hlines : ∀ (n : Nat) (before : Bytes) (lines : List Bytes) (tail : Bytes),
      parseLines (World.host env) env.toHeadEnv n _ before ([] :: lines) tail = _ :=
    parseLines_rests hlaw hready hthrow (hcrash.trans hready.notCrashed) hrests
  have hall : ∀ {n m : Nat}, n = m →
      (World.endOfHeaders env (h.after (World.host env) c.world h.headers)).1.status = .error ∨
        n ≤ (if (World.endOfHeaders env (h.after (World.host env) c.world h.headers)).1.status = .error
          then 0 else m) := by
    intro n m hnm
    split
    · next herr => exact Or.inl herr
    · exact Or.inr (Nat.le_of_eq hnm)
  have hwhole := reads_whole env hc hacc []
  have hfour := h.four_le_length
  rw [List.append_nil] at hwhole
  rw [reads_late env hc hacc hpre ht hcut hts, hwhole]
  show afterRead env _ _ = afterRead env _ (ParseResult.followedBy _ (parseLines _ _ _ _ _ [[]] []))
  rw [hlines, hlines]
  -- both calls use up what there is
  refine afterRead_congr env ?_ rfl
  rw [afterParse_all (hall rfl), afterParse_all (hall (show h.bytes.length = h.bytes.length - 4 + 4 by omega))]
  have hdrained : c.drained + (h.bytes.length - 4) + (crlf ++ crlf).length
      = c.drained + h.bytes.length := by
    show _ + 4 = _
    omega
  simp only [hdrained, ParseResult.followedBy, List.map_nil, List.append_nil]
  rfl

/-- If it goes on, the second one is an empty request line, or the first bytes of the body. -/
theorem reads_late_goesOn (hfailed : c.world.parser.mpFailed = false)
    (hgo : World.goesOn env c.world.nextId h.info = true) :
    c.reads env (pre ++ [r, s]) ≠ c.reads env [h.bytes] := by
  have hlaw := World.host_lawful env
  have hready := h.after_ready hlaw (hc.inHead env).ready h.headers
  rw [← goesOn_after] at hgo
  intro heq
  rcases World.endOfHeaders_goesOn hready.status hgo with hthrow | ⟨hok, hbody, hf, hcrash, hpause⟩
  · have hcut' : pre.flatten ++ r
        = unsplit (h.reqLine :: (h.headers.take h.headers.length).map headerText) t := by
      rw [List.take_length]
      exact hcut
    have hpart := reads_stopped env hc hacc hpre ht hcut'
    have hclosed := (step_threw_blank env (inHead_stopped env hc hacc hpre ht hcut') (by rw [hpart])
      (by rw [hpart, List.take_length]; exact hthrow) (show t ++ s = crlf ++ [] by rw [hts]; rfl)).1
    obtain ⟨p, hp⟩ := after_frame env h c.world h.headers
    have hopen := (afterHeadEnd_atReqLine env (by rw [hp]; exact hc.notClosed) hthrow).1
    have hwhole := reads_threw env hc hacc hthrow noCrlf_nil
    rw [List.append_nil, ← heq, show pre ++ [r, s] = (pre ++ [r]) ++ [s] by simp, reads_append,
      reads_cons] at hwhole
    have hworld := congrArg Conn.world hwhole
    rw [← show _ = afterHeadEnd _ _ from hworld] at hopen
    exact Bool.false_ne_true (hopen.symm.trans hclosed)
  · have hcrash' := hcrash.trans hready.notCrashed
    have hunfailed : (World.endOfHeaders env
        (h.after (World.host env) c.world h.headers)).1.parser.mpFailed = false := by
      obtain ⟨p, hp⟩ := after_frame env h c.world h.headers
      rw [hf, hp]
      exact hfailed
    -- the late call gives two bytes to the body, the single one gives none
    have htouch := afterRead_touched env (c :=
        { world := h.after (World.host env) c.world h.headers
          bevIn := crlf ++ crlf
          drained := c.drained + (h.bytes.length - 4)
          errors := c.errors
          calls := c.calls ++ [⟨c.drained, h.reqLine, c.errors⟩]
          heads := c.heads })
      (parseLines_touches env hready hok hcrash' hpause hbody hunfailed 0 []
        (show unsplit [[]] [] ≠ [] by decide))
    rw [← reads_late env hc hacc hpre ht hcut hts, heq,
      reads_body env hc hacc hready hok hcrash' hpause hbody, hcrash'] at htouch
    rcases htouch with hdead | hbuf
    · exact Bool.false_ne_true hdead
    · exact hbuf rfl

end Late

/-- Only the blank line is still to come: it must come in one piece, and the parser stop there. -/
theorem chunkInvariant_of_late (hfailed : c.world.parser.mpFailed = false) {pre post : List Bytes}
    {r s t : Bytes} (hpre : NoCrlf pre.flatten) (ht : NoCrlf t)
    (hcut : pre.flatten ++ r = unsplit h.lines t) (hrest : t ++ (s :: post).flatten = crlf) :
    ChunkInvariant env c h (pre ++ r :: s :: post)
      ↔ post = [] ∧ World.goesOn env c.world.nextId h.info = false := by
  have hcut' : pre.flatten ++ r
      = unsplit (h.reqLine :: (h.headers.take h.headers.length).map headerText) t := by
    rw [List.take_length]
    exact hcut
  by_cases hpost : post = []
  · subst hpost
    have hts : t ++ s = crlf := by simpa using hrest
    cases hgo : World.goesOn env c.world.nextId h.info with
    | true =>
      refine iff_of_false (fun hsame => ?_) (by simp)
      exact reads_late_goesOn env hc hacc hpre ht hcut hts hfailed hgo hsame.1
    | false =>
      refine iff_of_true ⟨reads_late_rests env hc hacc hpre ht hcut hts hgo, ?_⟩ ⟨rfl, rfl⟩
      intro a b hab hb
      have hheads : (c.reads env (pre ++ [r])).heads = c.heads := by
        rw [reads_stopped env hc hacc hpre ht hcut']
      rw [show pre ++ [r, s] = (pre ++ [r]) ++ [s] by simp] at hab
      exact reads_none_before env hc hpre hheads hab hb
  · refine iff_of_false (fun hsame => ?_) fun hnil => hpost hnil.1
    obtain ⟨more, hmore⟩ := reads_next env hc hacc hpre ht hcut' s []
    have hearly := hsame.2 (pre ++ [r, s]) post (by simp) hpost
    rw [hmore] at hearly
    simpa using congrArg List.length hearly

end Cutting

end Conn

/-! ## A small request -/

/-- `GET / HTTP/1.1` with some headers. -/
def getRoot (headers : List (Bytes × Bytes)) (hnv : ∀ nv ∈ headers, NoCrlf (headerText nv)) :
    ReqHead :=
  { method := bytes "GET", uri := bytes "/", ver := bytes "HTTP/1.1", headers := headers,
    method_ne := by decide
    method_space := by decide
    uri_space := by decide
    ver_ok := Or.inr rfl
    reqLine_noCrlf := by decide
    headers_noCrlf := hnv }

/-- `Host: a`. -/
def getRootHost : ReqHead := getRoot [(bytes "Host", bytes "a")] (by decide)

theorem getRoot_accepted (headers : List (Bytes × Bytes))
    (hnv : ∀ nv ∈ headers, NoCrlf (headerText nv)) (access : Access) (acts : List HandlerAct) :
    (getRoot headers hnv).Accepted (plainEnv access acts).toHeadEnv :=
  ⟨rfl, by show trimBlanks (bytes "HTTP/1.1") = bytes "HTTP/1.1"; decide⟩

theorem idle_fresh : Conn.fresh.Idle := ⟨⟨rfl, rfl, rfl, rfl⟩, rfl⟩

theorem atStart_fresh : Conn.fresh.AtStart := ⟨idle_fresh, rfl⟩

/-- With a body due, a blank line that comes late is taken for the first bytes of it. -/
example : World.goesOn (plainEnv (.now false) [.reply]) 0
    (getRoot [(bytes "Host", bytes "a"), (bytes "Content-Length", bytes "2"),
      (bytes "Content-Type", bytes "text/plain")] (by decide)).info = true := by decide

end LibEvmvc
