import LibEvmvc.Connection.Cuts

set_option autoImplicit false

/-! # A head that is rejected by an exception

When the end of the headers throws, `parse_headers` catches the exception and resets the parser, in
the middle of the loop over the lines: whatever lines follow in the same buffer are read as request
lines. If none does, the two bytes that were not drained keep the parser from going on: the next
call meets an empty request line, and the connection is closed.

A head whose header lines come in several reads ends at the first of these (`Cuts`). If that end throws,
the next line of the head itself is the first to be read as a request line. -/

namespace LibEvmvc

namespace Conn

variable (env : ConnEnv)

/-- The first end of headers that these reads bring throws. -/
def Rejects (c : Conn) (rs : List Bytes) : Prop :=
  ∃ e more, (c.reads env rs).heads = c.heads ++ e :: more ∧ e.threw = true

/-- The header lines come with the request line: of the head, the read that completes this leaves no
    more than the blank line to be read. -/
def Uncut (h : ReqHead) (rs : List Bytes) : Prop :=
  h.bytes.length ≤ (readsUpTo (h.reqLine.length + 2) rs).flatten.length + 2

instance (h : ReqHead) (rs : List Bytes) : Decidable (Uncut h rs) := inferInstanceAs (Decidable (_ ≤ _))

/-- Where the blank line ends that the parser takes for the end of the head: its own, or the line end of
    the last header line that came with the request line. -/
def endsAt (h : ReqHead) (rs : List Bytes) : Nat :=
  let part := (readsUpTo (h.reqLine.length + 2) rs).flatten
  if Uncut h rs then h.bytes.length else part.length - (splitCrlf part).2.length

/-- From `c` to `c'` no line that starts `n` bytes on or later was taken for a request line, unless
    the parser had been in error before. -/
def NoneTaken (c c' : Conn) (n : Nat) : Prop :=
  ∃ new, c'.calls = c.calls ++ new ∧
    ∀ call ∈ new, c.drained + n ≤ call.offset → c.errors < call.errors

/-- The connection is closed, or the process has died. -/
def Gone (c : Conn) : Prop := c.world.closed = true ∨ c.world.crashed = true

theorem run_gone {c : Conn} (h : c.Gone) (es : List Event) : c.run env es = c := by
  induction es with
  | nil => rfl
  | cons e es ih =>
    have hstep : c.step env e = c := if_pos h
    show (c.step env e).run env es = c
    rw [hstep, ih]

/-! ## A line end where a request line is due -/

/-- The parser has to read a request line, and a line end at `off` comes first. -/
structure Blocked (c : Conn) (off : Nat) : Prop where
  drained : c.drained = off
  res : c.world.parser.res = none
  status : c.world.status = .parseReqLine ∨ c.world.status = .completed
  bevIn : ∃ rest, c.bevIn = crlf ++ rest

theorem renew_atReqLine {w : World} (hres : w.parser.res = none)
    (hs : w.status = .parseReqLine ∨ w.status = .completed) :
    w.renew.status = .parseReqLine ∧ w.renew.parser.res = none ∧ w.renew.crashed = w.crashed ∧
      w.renew.closed = w.closed := by
  unfold World.renew
  rcases hs with hs | hs
  · rw [if_neg (by rw [hs]; decide)]
    exact ⟨hs, hres, rfl, rfl⟩
  · rw [if_pos (Or.inl hs)]
    have hstatus : w.reset.status = .parseReqLine := by
      show w.reset.parser.head.status = _
      rw [w.parser_reset]
      rfl
    have hnone : w.reset.parser.res = none := by
      rw [w.parser_reset]
      rfl
    exact ⟨hstatus, hnone, w.reset_alive⟩

/-- **A blocked connection that reads on is closed.** -/
theorem onRead_blocked {c : Conn} {off : Nat} (hc : c.Blocked off) (halive : c.world.crashed = false) :
    (c.onRead env).world.closed = true ∧ (c.onRead env).calls = c.calls ++ [⟨off, [], c.errors⟩] := by
  obtain ⟨rest, hbev⟩ := hc.bevIn
  obtain ⟨hstatus, hres, hcrash, -⟩ := renew_atReqLine hc.res hc.status
  have hready : (World.host env).Ready c.world.renew .parseReqLine :=
    ⟨hstatus, hcrash.trans halive, World.host_paused_none env hres⟩
  have hne : c.bevIn ≠ [] := by rw [hbev]; simp [crlf]
  have hparse : parse (World.host env) env.toHeadEnv c.world.renew c.bevIn
      = ⟨c.world.renew.setStatus .error, 0, true, [(0, [])], []⟩ := by
    rw [parse_eq_parseLines hready.status (Or.inl rfl) hne, hbev]
    show parseLines _ _ 0 _ [] (splitCrlf (13 :: 10 :: rest)).1 (splitCrlf (13 :: 10 :: rest)).2 = _
    rw [splitCrlf_crlf, parseLines_emptyReqLine (World.host_lawful env) hready]
    rfl
  have hgo : ¬ (c.world.renew.status = .responding ∨ c.bevIn = []) := by
    rw [hstatus]
    simp [hne]
  have hcrash' : (c.world.renew.setStatus .error).crashed = false := hcrash.trans halive
  unfold onRead
  rw [if_neg hgo, hparse]
  constructor
  · unfold afterRead
    simp only [afterParse, hcrash', Bool.false_eq_true, if_false, if_true]
    rfl
  · rw [afterRead_calls, hc.drained]
    rfl

/-- The calls from `c` to `c'` are on lines that start at `off` or before, and what comes next is
    a line end, if anything. -/
structure HeldAt (off : Nat) (c c' : Conn) : Prop where
  calls : ∃ new, c'.calls = c.calls ++ new ∧ ∀ call ∈ new, call.offset ≤ off
  held : c'.Gone ∨ c'.Blocked off

theorem HeldAt.refl {off : Nat} {c : Conn} (h : c.Gone ∨ c.Blocked off) : HeldAt off c c :=
  ⟨⟨[], (List.append_nil _).symm, fun _ hmem => absurd hmem (List.not_mem_nil)⟩, h⟩

theorem HeldAt.trans {off : Nat} {c₁ c₂ c₃ : Conn} (h : HeldAt off c₁ c₂) (h' : HeldAt off c₂ c₃) :
    HeldAt off c₁ c₃ := by
  obtain ⟨new, hnew, hoff⟩ := h.calls
  obtain ⟨new', hnew', hoff'⟩ := h'.calls
  refine ⟨⟨new ++ new', by rw [hnew', hnew, List.append_assoc], ?_⟩, h'.held⟩
  intro call hcall
  rcases List.mem_append.1 hcall with hmem | hmem
  · exact hoff call hmem
  · exact hoff' call hmem

section Step

variable {c : Conn} {off : Nat}

theorem HeldAt.of_world {w : World} (hc : c.Blocked off)
    (hw : (w.closed = true ∨ w.crashed = true) ∨ (w.parser.res = none ∧
      (w.status = .parseReqLine ∨ w.status = .completed))) :
    HeldAt off c { c with world := w } := by
  refine ⟨⟨[], (List.append_nil _).symm, fun _ hmem => absurd hmem (List.not_mem_nil)⟩, ?_⟩
  rcases hw with hgone | ⟨hres, hs⟩
  · exact Or.inl hgone
  · exact Or.inr ⟨hc.drained, hres, hs, hc.bevIn⟩

theorem HeldAt.of_onRead (hc : c.Blocked off) (halive : c.world.crashed = false) :
    HeldAt off c (c.onRead env) := by
  obtain ⟨hclosed, hcalls⟩ := onRead_blocked env hc halive
  refine ⟨⟨_, hcalls, ?_⟩, Or.inl (Or.inl hclosed)⟩
  intro call hcall
  rw [List.mem_singleton.1 hcall]

theorem endedIsDone_of_none {w : World} (h : w.parser.res = none) : World.EndedIsDone w := by
  intro id hid
  rw [h] at hid
  cases hid

/-- A change that leaves the parser without a response, waiting or done. -/
theorem stays_blocked {w w' : World} (hres : w.parser.res = none)
    (hs : w.status = .parseReqLine ∨ w.status = .completed) (hq : w'.parser.res = w.parser.res)
    (hs' : w'.status = w.status ∨ w'.status = .completed) :
    w'.parser.res = none ∧ (w'.status = .parseReqLine ∨ w'.status = .completed) := by
  refine ⟨hq.trans hres, ?_⟩
  rcases hs' with hsame | hdone
  · rw [hsame]
    exact hs
  · exact Or.inr hdone

theorem onWrite_blocked {w : World} (hres : w.parser.res = none)
    (hs : w.status = .parseReqLine ∨ w.status = .completed) :
    ((onWrite env w).closed = true ∨ (onWrite env w).crashed = true) ∨
      ((onWrite env w).parser.res = none ∧
        ((onWrite env w).status = .parseReqLine ∨ (onWrite env w).status = .completed)) := by
  unfold onWrite
  split
  · exact Or.inr ⟨hres, hs⟩
  · split
    · next hready =>
      rw [hready] at hs
      simp at hs
    · split
      · right
        unfold World.sendFileChunk
        split
        · exact ⟨hres, hs⟩
        · refine stays_blocked hres hs ?_ (Or.inr (World.resumes_connResume.completeResponse _))
          exact (World.quiet_completeResponse World.quiet_connResume _).res
      · split
        · right
          refine ⟨?_, Or.inl (World.reset_status _)⟩
          rw [World.parser_reset]
          rfl
        · exact Or.inl (Or.inl rfl)

/-- **No event gets a blocked connection past the line end.** -/
theorem step_blocked (hc : c.Blocked off) (e : Event) : HeldAt off c (c.step env e) := by
  unfold step
  split
  · exact .refl (Or.inr hc)
  · next halive =>
    have hcrash : c.world.crashed = false := by
      simpa using fun h => halive (Or.inr h)
    cases e with
    | read data =>
      obtain ⟨rest, hbev⟩ := hc.bevIn
      have hc' : ({ c with bevIn := c.bevIn ++ data } : Conn).Blocked off :=
        ⟨hc.drained, hc.res, hc.status, rest ++ data, by rw [hbev, List.append_assoc]⟩
      have hheld := HeldAt.of_onRead env hc' hcrash
      exact ⟨hheld.calls, hheld.held⟩
    | write => exact .of_world hc (onWrite_blocked env hc.res hc.status)
    | resume =>
      unfold handle onResume
      simp only
      split
      · have hc' : ({ c with world := { c.world with paused := false, resumeActive := false } } :
            Conn).Blocked off := ⟨hc.drained, hc.res, hc.status, hc.bevIn⟩
        have hheld := HeldAt.of_onRead env hc' hcrash
        split
        · next hready =>
          have hs := hc.status
          rw [show c.world.status = .readyToExec from hready] at hs
          simp at hs
        · split
          · exact .of_world hc (Or.inr ⟨hc.res, hc.status⟩)
          · split
            · exact .of_world hc (Or.inr ⟨hc.res, hc.status⟩)
            · exact ⟨hheld.calls, hheld.held⟩
      · exact .refl (Or.inr hc)
    | verdict id denied =>
      unfold handle
      simp only
      split
      · exact .refl (Or.inr hc)
      · refine .of_world hc (Or.inr (stays_blocked hc.res hc.status ?_ ?_))
        · exact (World.quiet_validated _ _ _ _).res
        · have hres : (c.world.unpend id).parser.res = none := hc.res
          rcases World.settles_validated (endedIsDone_of_none hres) id denied _ with hdone | ⟨hs, -⟩
          · exact Or.inr hdone
          · exact Or.inl hs
    | act id a =>
      unfold handle
      simp only
      split
      · refine .of_world hc (Or.inr (stays_blocked hc.res hc.status ?_ ?_))
        · exact (World.quiet_runAct id c.world a).res
        · exact World.runAct_status (endedIsDone_of_none hc.res) id a
      · exact .refl (Or.inr hc)

theorem run_held {c' : Conn} (h : HeldAt off c c') (es : List Event) :
    HeldAt off c (c'.run env es) := by
  induction es generalizing c' with
  | nil => exact h
  | cons e es ih =>
    rcases h.held with hgone | hblocked
    · rw [run_gone env hgone]
      exact h
    · exact ih (h.trans (step_blocked env hblocked e))

end Step

/-- Reads at whose beginning a line end comes first. -/
theorem reads_held {c : Conn} {off : Nat} (hc : c.AtReqLine) (hoff : c.drained = off)
    {rs : List Bytes} {rest : Bytes} (h : c.bevIn ++ rs.flatten = crlf ++ rest) :
    HeldAt off c (c.reads env rs) := by
  induction rs generalizing c with
  | nil =>
    rw [List.flatten_nil, List.append_nil] at h
    exact .refl (Or.inr ⟨hoff, hc.res, Or.inl hc.status, rest, h⟩)
  | cons r rs ih =>
    rw [List.flatten_cons, ← List.append_assoc] at h
    rw [reads_cons]
    rcases noCrlf_or_crlf h with hno | hfirst
    · rw [step_read_noCrlf env (hc.inHead env) (Or.inl rfl) hno]
      have hc' : ({ c with bevIn := c.bevIn ++ r } : Conn).AtReqLine :=
        ⟨hc.notClosed, hc.notCrashed, hc.status, hc.res⟩
      have hheld := ih hc' hoff h
      exact ⟨hheld.calls, hheld.held⟩
    · have hc' : ({ c with bevIn := c.bevIn ++ r } : Conn).Blocked off :=
        ⟨hoff, hc.res, Or.inl hc.status, hfirst⟩
      have halive : ¬ (c.world.closed = true ∨ c.world.crashed = true) := by
        rw [hc.notClosed, hc.notCrashed]
        simp
      have hstep : c.step env (.read r) = ({ c with bevIn := c.bevIn ++ r } : Conn).onRead env :=
        if_neg halive
      have hheld := HeldAt.of_onRead env hc' hc.notCrashed
      have hheld' : HeldAt off c (c.step env (.read r)) := by
        rw [hstep]
        exact ⟨hheld.calls, hheld.held⟩
      exact run_held env hheld' _

/-- The first line that comes is taken for a request line, whenever its line end does. -/
theorem reads_taken {c : Conn} (hc : c.AtReqLine) (hbev : NoCrlf c.bevIn) {rs : List Bytes}
    (hline : ¬ NoCrlf (c.bevIn ++ rs.flatten)) :
    ∃ l, ⟨c.drained, l, c.errors⟩ ∈ (c.reads env rs).calls.drop c.calls.length := by
  induction rs generalizing c with
  | nil =>
    rw [List.flatten_nil, List.append_nil] at hline
    exact absurd hbev hline
  | cons r rs ih =>
    have hhead := hc.inHead env
    rw [reads_cons]
    by_cases hno : NoCrlf (c.bevIn ++ r)
    · rw [List.flatten_cons, ← List.append_assoc] at hline
      rw [step_read_noCrlf env hhead (Or.inl rfl) hno]
      exact ih (c := { c with bevIn := c.bevIn ++ r })
        ⟨hc.notClosed, hc.notCrashed, hc.status, hc.res⟩ hno hline
    · have hne : c.bevIn ++ r ≠ [] := by
        intro hnil
        rw [hnil] at hno
        exact hno noCrlf_nil
      obtain ⟨l, ls, hl⟩ := splitCrlf_first hno
      have htaken := reqLines_of_line env.toHeadEnv hhead.ready 0 [] l ls (splitCrlf (c.bevIn ++ r)).2
      have hcall : ⟨c.drained, l, c.errors⟩ ∈ (c.step env (.read r)).calls.drop c.calls.length := by
        rw [step_read env hhead (Or.inl rfl), if_neg hne,
          parse_eq_parseLines hhead.ready.status (Or.inl rfl) hne, hl]
        show _ ∈ List.drop _ (afterRead env _ _).calls
        rw [afterRead_calls, List.drop_left]
        exact List.mem_map.2 ⟨([].length, l), htaken, rfl⟩
      have hgrows := reads_grows env (c.step env (.read r)) rs
      exact ⟨l, (hgrows.calls.drop c.calls.length).subset hcall⟩

/-! ## The call that throws -/

section LeftOver

variable {c : Conn} (hc : c.InHead env .parseHeader)
  (hthrow : ((World.host env).endOfHeaders c.world).2 = true) {t : Bytes}
  (hbev : c.bevIn = crlf ++ t)

include hc hthrow hbev

/-- A line end that was left over throws, and the next line is not complete. -/
theorem step_threw_part {s : Bytes} (hno : NoCrlf (t ++ s)) :
    c.step env (.read s) =
      { world := afterHeadEnd (World.host env) c.world, bevIn := t ++ s, drained := c.drained + 2,
        errors := c.errors, calls := c.calls,
        heads := c.heads ++ [headEnd (World.host env) c.world] } := by
  have hlaw := World.host_lawful env
  obtain ⟨hready, -⟩ := afterHeadEnd_ready hlaw hc.ready hthrow
  have hlines : parseLines (World.host env) env.toHeadEnv 0 c.world []
      ([] :: (splitCrlf (t ++ s)).1) (splitCrlf (t ++ s)).2
      = ⟨afterHeadEnd (World.host env) c.world, 2, false, [], [headEnd (World.host env) c.world]⟩ := by
    rw [parseLines_threw hlaw hc.ready hthrow, splitCrlf_noCrlf hno]
    rfl
  have hused : 2 ≤ (c.bevIn ++ s).length := by
    rw [hbev]
    simp [crlf]
  have hdrop : (c.bevIn ++ s).drop 2 = t ++ s := by
    rw [hbev, List.append_assoc]
    rfl
  rw [step_read_blank env hc hbev, hlines, afterRead_inHead env hready (Or.inl rfl) rfl hused, hdrop]
  show (Conn.mk _ _ _ _ _ _) = _
  rw [List.map_nil, List.append_nil]

/-- **The blank line itself is still to come: whatever follows it is out of reach.** -/
theorem step_threw_late {s : Bytes} {post : List Bytes} {rest : Bytes}
    (hrest : (t ++ s) ++ post.flatten = crlf ++ rest) :
    HeldAt (c.drained + 2) c ((c.step env (.read s)).reads env post) := by
  rcases noCrlf_or_crlf hrest with hno | ⟨rest', hfirst⟩
  · obtain ⟨hready, -⟩ := afterHeadEnd_ready (World.host_lawful env) hc.ready hthrow
    obtain ⟨hopen, hnone⟩ := afterHeadEnd_atReqLine env hc.notClosed hthrow
    rw [step_threw_part env hc hthrow hbev hno]
    have hheld := reads_held env (c := ⟨afterHeadEnd (World.host env) c.world, t ++ s, c.drained + 2,
      c.errors, c.calls, c.heads ++ [headEnd (World.host env) c.world]⟩)
      ⟨hopen, hready.notCrashed, hready.status, hnone⟩ rfl hrest
    exact ⟨hheld.calls, hheld.held⟩
  · obtain ⟨hclosed, hcalls⟩ := step_threw_blank env hc hbev hthrow hfirst
    rw [reads, run_gone env (Or.inl hclosed)]
    refine ⟨⟨_, hcalls, ?_⟩, Or.inl (Or.inl hclosed)⟩
    intro call hcall
    rw [List.mem_singleton.1 hcall]

/-- **The next line of the head is still to come: it is taken for a request line.** -/
theorem step_threw_taken {s : Bytes} {post : List Bytes} (hline : ¬ NoCrlf ((t ++ s) ++ post.flatten)) :
    ∃ l, ⟨c.drained + 2, l, c.errors⟩ ∈
      ((c.step env (.read s)).reads env post).calls.drop c.calls.length := by
  obtain ⟨hready, -⟩ := afterHeadEnd_ready (World.host_lawful env) hc.ready hthrow
  by_cases hno : NoCrlf (t ++ s)
  · obtain ⟨hopen, hnone⟩ := afterHeadEnd_atReqLine env hc.notClosed hthrow
    rw [step_threw_part env hc hthrow hbev hno]
    exact reads_taken env (c := ⟨afterHeadEnd (World.host env) c.world, t ++ s, c.drained + 2,
      c.errors, c.calls, c.heads ++ [headEnd (World.host env) c.world]⟩)
      ⟨hopen, hready.notCrashed, hready.status, hnone⟩ hno hline
  · obtain ⟨l, ls, hl⟩ := splitCrlf_first hno
    have htaken := reqLines_of_line env.toHeadEnv hready 2 crlf l ls (splitCrlf (t ++ s)).2
    have hcall : ⟨c.drained + 2, l, c.errors⟩ ∈ (c.step env (.read s)).calls.drop c.calls.length := by
      rw [step_read_blank env hc hbev, parseLines_threw (World.host_lawful env) hc.ready hthrow, hl]
      show _ ∈ List.drop _ (afterRead env _ _).calls
      rw [afterRead_calls, List.drop_left]
      exact List.mem_map.2 ⟨(crlf.length, l), List.mem_append_right _ htaken, rfl⟩
    have hgrows := reads_grows env (c.step env (.read s)) post
    exact ⟨l, (hgrows.calls.drop c.calls.length).subset hcall⟩

end LeftOver

section Throw

variable {c : Conn} (hc : c.Idle) {h : ReqHead} (hacc : h.Accepted env.toHeadEnv)
  (hthrow : ((World.host env).endOfHeaders (h.after (World.host env) c.world h.headers)).2 = true)

include hc hacc hthrow

/-- **A line that follows in the same buffer is taken for a request line.** -/
theorem taken_of_line {rest : Bytes} (hrest : ¬ NoCrlf rest) :
    ∃ l, ⟨c.drained + h.bytes.length, l, c.errors⟩ ∈
      (c.reads env [h.bytes ++ rest]).calls.drop c.calls.length := by
  have hlaw := World.host_lawful env
  have hready := h.after_ready hlaw (hc.inHead env).ready h.headers
  obtain ⟨hready', -⟩ := afterHeadEnd_ready hlaw hready hthrow
  obtain ⟨l, ls, hl⟩ := splitCrlf_first hrest
  have hne : h.bytes ++ rest ≠ [] := by
    rw [h.bytes_eq]
    exact unsplit_ne_nil _ _ _
  have htaken := reqLines_of_line env.toHeadEnv hready' (h.bytes.length - 2) h.bytes l ls
    (splitCrlf rest).2
  refine ⟨l, ?_⟩
  rw [reads_cons, step_read env (hc.inHead env) (Or.inl rfl), hc.bevIn, List.nil_append, if_neg hne,
    parse_threw env hc hacc hthrow, hl]
  show _ ∈ List.drop _ (afterRead env _ _).calls
  rw [afterRead_calls, List.drop_left]
  refine List.mem_map.2 ⟨(h.bytes.length, l), ?_, rfl⟩
  exact List.mem_append_right _ (List.mem_append_right _ htaken)

end Throw

/-! ## All reads, and whatever happens after them -/

theorem Rejects.first {c : Conn} {rs : List Bytes} (hrejects : c.Rejects env rs) {w : World}
    {more : List HeadEnd}
    (hfirst : (c.reads env rs).heads = c.heads ++ headEnd (World.host env) w :: more) :
    ((World.host env).endOfHeaders w).2 = true := by
  obtain ⟨e, more', hheads, hthrow⟩ := hrejects
  rw [hfirst] at hheads
  obtain rfl := (List.cons.inj (List.append_cancel_left hheads)).1
  exact hthrow

/-- A call stays in the record, whatever happens later. -/
theorem not_noneTaken_of_mem {c c' c'' : Conn} {n : Nat} {l : Bytes}
    (hmem : ⟨c.drained + n, l, c.errors⟩ ∈ c'.calls.drop c.calls.length) (hgrows : Grows c' c'') :
    ¬ NoneTaken c c'' n := by
  rintro ⟨new, hnew, hnone⟩
  have hlater := (hgrows.calls.drop c.calls.length).subset hmem
  rw [hnew, List.drop_left] at hlater
  exact Nat.lt_irrefl _ (hnone _ hlater (Nat.le_refl _))

/-- Calls on lines that start before the end of the head do not count. -/
theorem HeldAt.noneTaken {c c₁ c' : Conn} {off n : Nat} (hheld : HeldAt off c₁ c')
    {old : List ReqLineCall} (hcalls : c₁.calls = c.calls ++ old)
    (hold : ∀ call ∈ old, call.offset < c.drained + n) (hoff : off < c.drained + n) :
    NoneTaken c c' n := by
  obtain ⟨new, hnew, hle⟩ := hheld.calls
  refine ⟨old ++ new, by rw [hnew, hcalls, List.append_assoc], ?_⟩
  intro call hcall hge
  rcases List.mem_append.1 hcall with hmem | hmem
  · exact absurd hge (Nat.not_le.2 (hold call hmem))
  · exact absurd hge (Nat.not_le.2 (Nat.lt_of_le_of_lt (hle call hmem) hoff))

section Main

variable {c : Conn} (hc : c.Idle) {h : ReqHead} (hacc : h.Accepted env.toHeadEnv)

include hc hacc

/-- The whole head is there when its request line is complete. -/
theorem noneTaken_whole {pre post : List Bytes} {r rest : Bytes} (hpre : NoCrlf pre.flatten)
    (hcut : pre.flatten ++ r = h.bytes ++ rest)
    (hrejects : c.Rejects env (pre ++ r :: post)) (es : List Event) :
    NoneTaken c ((c.reads env (pre ++ r :: post)).run env es) h.bytes.length ↔ NoCrlf rest := by
  have hsplit : c.reads env (pre ++ r :: post) = (c.reads env [h.bytes ++ rest]).reads env post := by
    rw [show pre ++ r :: post = (pre ++ [r]) ++ post by simp, reads_append, reads_joined env hc hpre,
      hcut]
  have hready := h.after_ready (World.host_lawful env) (hc.inHead env).ready h.headers
  have hthrow :
      ((World.host env).endOfHeaders (h.after (World.host env) c.world h.headers)).2 = true := by
    obtain ⟨more, hmore⟩ := heads_of_whole env hc hacc rest
    obtain ⟨more', hmore'⟩ := (reads_grows env (c.reads env [h.bytes ++ rest]) post).heads
    have hfirst : (c.reads env (pre ++ r :: post)).heads = c.heads ++
        headEnd (World.host env) (h.after (World.host env) c.world h.headers) :: (more ++ more') := by
      rw [hsplit, ← hmore', hmore, List.append_assoc, List.cons_append]
    exact hrejects.first env hfirst
  rw [hsplit]
  constructor
  · intro hnone
    by_contra hrest
    obtain ⟨l, hl⟩ := taken_of_line env hc hacc hthrow hrest
    exact not_noneTaken_of_mem hl
      ((reads_grows env (c.reads env [h.bytes ++ rest]) post).trans (run_grows env _ es)) hnone
  · intro hrest
    have hreads := reads_threw env hc hacc hthrow hrest
    obtain ⟨hready', -⟩ := afterHeadEnd_ready (World.host_lawful env) hready hthrow
    obtain ⟨p, hp⟩ := after_frame env h c.world h.headers
    obtain ⟨hopen, hnone⟩ := afterHeadEnd_atReqLine env (by rw [hp]; exact hc.notClosed) hthrow
    have hat : (c.reads env [h.bytes ++ rest]).AtReqLine := by
      rw [hreads]
      exact ⟨hopen, hready'.notCrashed, hready'.status, hnone⟩
    have hfour := h.four_le_length
    have hstart : (c.reads env [h.bytes ++ rest]).bevIn ++ post.flatten
        = crlf ++ (rest ++ post.flatten) := by rw [hreads, List.append_assoc]
    have hcalls : (c.reads env [h.bytes ++ rest]).calls
        = c.calls ++ [⟨c.drained, h.reqLine, c.errors⟩] := by rw [hreads]
    refine (run_held env (reads_held env hat rfl hstart) es).noneTaken hcalls ?_ ?_
    · intro call hcall
      rw [List.mem_singleton.1 hcall]
      show c.drained < c.drained + h.bytes.length
      omega
    · rw [hreads]
      show c.drained + (h.bytes.length - 2) < c.drained + h.bytes.length
      omega

/-- Only the blank line comes later. -/
theorem noneTaken_late {pre post : List Bytes} {r s t after : Bytes} (hpre : NoCrlf pre.flatten)
    (ht : NoCrlf t)
    (hcut : pre.flatten ++ r
      = unsplit (h.reqLine :: (h.headers.take h.headers.length).map headerText) t)
    (hrest : t ++ (s :: post).flatten = crlf ++ after)
    (hrejects : c.Rejects env (pre ++ r :: s :: post)) (es : List Event) :
    NoneTaken c ((c.reads env (pre ++ r :: s :: post)).run env es) h.bytes.length := by
  obtain ⟨more, hmore⟩ := reads_next env hc hacc hpre ht hcut s post
  have hthrow := hrejects.first env hmore
  have hreads := reads_stopped env hc hacc hpre ht hcut
  have hfour := h.four_le_length
  have hlines := h.length_bytes
  rw [List.take_length] at hthrow hreads
  have hstart : (t ++ s) ++ post.flatten = crlf ++ after := by
    rw [List.append_assoc, ← List.flatten_cons, hrest]
  have hcalls : (c.reads env (pre ++ [r])).calls
      = c.calls ++ [⟨c.drained, h.reqLine, c.errors⟩] := by rw [hreads]
  have hheld := step_threw_late env (inHead_stopped env hc hacc hpre ht hcut)
    (by rw [hreads]; exact hthrow) (by rw [hreads]) hstart
  have hsplit : c.reads env (pre ++ r :: s :: post)
      = ((c.reads env (pre ++ [r])).step env (.read s)).reads env post := by
    rw [show pre ++ r :: s :: post = (pre ++ [r]) ++ s :: post by simp, reads_append, reads_cons]
  rw [hsplit]
  refine (run_held env hheld es).noneTaken hcalls ?_ ?_
  · intro call hcall
    rw [List.mem_singleton.1 hcall]
    show c.drained < c.drained + h.bytes.length
    omega
  · rw [hreads]
    show c.drained + ((unsplit h.lines []).length - 2) + 2 < c.drained + h.bytes.length
    omega

/-- A header line comes later: it is read as a request line. -/
theorem not_noneTaken_early {pre post : List Bytes} {r s t : Bytes} {k : Nat}
    (hpre : NoCrlf pre.flatten) (ht : NoCrlf t)
    (hcut : pre.flatten ++ r = unsplit (h.reqLine :: (h.headers.take k).map headerText) t)
    (hline : ¬ NoCrlf (t ++ (s :: post).flatten))
    (hrejects : c.Rejects env (pre ++ r :: s :: post)) (es : List Event) :
    ¬ NoneTaken c ((c.reads env (pre ++ r :: s :: post)).run env es)
      (unsplit (h.reqLine :: (h.headers.take k).map headerText) []).length := by
  obtain ⟨more, hmore⟩ := reads_next env hc hacc hpre ht hcut s post
  have hthrow := hrejects.first env hmore
  have hreads := reads_stopped env hc hacc hpre ht hcut
  rw [List.flatten_cons, ← List.append_assoc] at hline
  obtain ⟨l, hl⟩ := step_threw_taken env (inHead_stopped env hc hacc hpre ht hcut)
    (by rw [hreads]; exact hthrow) (by rw [hreads]) hline
  have hplace : (c.reads env (pre ++ [r])).drained + 2
      = c.drained + (unsplit (h.reqLine :: (h.headers.take k).map headerText) []).length := by
    rw [hreads, length_unsplit_cons]
    show c.drained + (h.reqLine.length + 2 + _ - 2) + 2 = _
    omega
  have herrors : (c.reads env (pre ++ [r])).errors = c.errors := by rw [hreads]
  have hearlier : c.calls.length ≤ (c.reads env (pre ++ [r])).calls.length := by
    rw [hreads, List.length_append]
    exact Nat.le_add_right _ _
  have hsplit : c.reads env (pre ++ r :: s :: post)
      = ((c.reads env (pre ++ [r])).step env (.read s)).reads env post := by
    rw [show pre ++ r :: s :: post = (pre ++ [r]) ++ s :: post by simp, reads_append, reads_cons]
  rw [hplace, herrors] at hl
  rw [hsplit]
  exact not_noneTaken_of_mem ((List.drop_sublist_drop_left _ hearlier).subset hl) (run_grows env _ es)

end Main

end Conn

/-! ## A length that is not a number -/

/-- `Host: a` and `Content-Length: x`. -/
def badLength : ReqHead :=
  getRoot [(bytes "Host", bytes "a"), (bytes "Content-Length", bytes "x")] (by decide)

theorem badLength_accepted : badLength.Accepted (plainEnv (.now false) [.reply]).toHeadEnv :=
  getRoot_accepted ..

theorem badLength_rejects (rest : Bytes) :
    Conn.fresh.Rejects (plainEnv (.now false) [.reply]) [badLength.bytes ++ rest] := by
  obtain ⟨more, hmore⟩ := Conn.heads_of_whole (plainEnv (.now false) [.reply]) idle_fresh
    badLength_accepted rest
  exact ⟨_, more, hmore, by decide⟩

end LibEvmvc
