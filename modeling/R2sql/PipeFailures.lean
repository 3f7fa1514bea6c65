-- What a failed exchange leaves behind: a piece of a line on the way down, or
-- a reply that nobody has read on the way up.
import R2sql.ReadLoops

namespace r2sql

open R2PipePosixBackend runs

/-! ## One call, on either platform -/

/-- What one call of `cmd` does to an open pipe: the bytes of the line that reach the child, whether
the call goes on to the reading loop, what the reads give, and the string it returns. -/
structure Turn where
  command : Bytes
  sent : Nat
  goes_on : Bool
  reads : List ReadResult
  result : Bytes

namespace Turn

/-- The write is whole and no read fails. -/
def Succeeds (t : Turn) : Prop := t.goes_on = true ∧ ReadResult.fail ∉ t.reads

/-- The call ends early after bytes of its line have reached the child. -/
def Poisons (t : Turn) : Prop := 0 < t.sent ∧ ¬ t.Succeeds

/-- What the call makes of the results of its reads: the text, and the results that it leaves. -/
def read (t : Turn) : Option (Bytes × List ReadResult) :=
  if t.goes_on then read_loop [] t.reads else some ([], t.reads)

/-- A command of one line, that `cmd` waits for only where the whole line is written. -/
def Plain (t : Turn) : Prop :=
  newline ∉ t.command ∧ (t.goes_on = true → t.sent = (line t.command).length)

end Turn

/-- One call against the child. -/
def Child.turn (reply : Bytes → Bytes) (c : Child) (t : Turn) : Option Child :=
  let fed := c.feed reply ((R2PipePosixBackend.line t.command).take t.sent)
  if t.read = some (t.result, []) then
    (deliver fed.output t.reads).map fun output => { fed with output := output }
  else none

theorem turn_of_read {reply : Bytes → Bytes} {c : Child} {t : Turn} {output : Bytes}
    (hread : t.read = some (t.result, []))
    (hdel : deliver (c.feed reply ((line t.command).take t.sent)).output t.reads = some output) :
    c.turn reply t =
      some { c.feed reply ((line t.command).take t.sent) with output := output } := by
  unfold Child.turn
  rw [if_pos hread, hdel]
  rfl

/-- The child has read whole lines only, and every byte that it printed has been read. -/
def Child.idle : Child := { line := [], output := [] }

/-- With an idle child, a call that poisons nothing leaves the child idle, and where all its system
calls succeed it returns the child's reply. -/
theorem turn_of_idle {reply : Bytes → Bytes} (hreply : NulFree reply) {c : Child} {t : Turn}
    (ht : t.Plain ∧ ¬ t.Poisons) (hstep : Child.idle.turn reply t = some c) :
    c = Child.idle ∧ (t.Succeeds → t.result = reply t.command) := by
  obtain ⟨⟨hfree, hwhole⟩, hclean⟩ := ht
  unfold Child.turn at hstep
  dsimp only at hstep
  split at hstep
  · rename_i hread
    unfold Turn.read at hread
    obtain ⟨output, hdel, rfl⟩ := Option.map_eq_some_iff.mp hstep
    by_cases hsucc : t.Succeeds
    · obtain ⟨hgo, hfail⟩ := hsucc
      have hfed : Child.idle.feed reply ((line t.command).take t.sent) =
          { line := [], output := reply t.command ++ [0] } := by
        rw [hwhole hgo, List.take_length, Child.idle, feed_line reply [] hfree, List.nil_append]
      rw [hfed] at hdel ⊢
      rw [if_pos hgo] at hread
      obtain ⟨hres, hrest⟩ := read_own_reply (hreply t.command) hfail hread hdel
      rw [hrest]
      exact ⟨rfl, fun _ => hres⟩
    · have hnone : t.sent = 0 := by
        by_contra hsent
        exact hclean ⟨Nat.pos_of_ne_zero hsent, hsucc⟩
      have hstop : t.goes_on = false := by
        by_contra hgo
        have hlen := hwhole (by simpa using hgo)
        rw [hnone, line, List.length_append] at hlen
        simp at hlen
      simp only [hstop, Bool.false_eq_true, if_false, Option.some.injEq, Prod.mk.injEq] at hread
      rw [hread.2] at hdel
      rw [hnone, List.take_zero] at hdel ⊢
      cases hdel
      exact ⟨rfl, fun h => absurd h hsucc⟩
  · cases hstep

/-- In a run from an idle child where no call succeeds after one that poisons, every call that
succeeds returns the child's reply to its own command. -/
theorem replies_of_turns {reply : Bytes → Bytes} (hreply : NulFree reply) {ts : List Turn}
    (hplain : ∀ t ∈ ts, t.Plain) (hclean : ts.Pairwise fun a b => a.Poisons → ¬ b.Succeeds)
    {c : Child} (hrun : run (Child.turn reply) Child.idle ts = some c) :
    ∀ t ∈ ts, t.Succeeds → t.result = reply t.command := by
  intro t ht hsucc
  obtain ⟨n, hbefore, hafter⟩ := exists_split (fun a ha => ha.2) hclean
  have hin : t ∈ ts.take n := by
    rw [← List.take_append_drop n ts, List.mem_append] at ht
    exact ht.resolve_right fun hlate => hafter t hlate hsucc
  rw [← List.take_append_drop n ts] at hrun
  obtain ⟨m, hfirst, -⟩ := run_append_iff.mp hrun
  have hlaw := run_labels (I := fun s => s = Child.idle) (G := fun a => a.Plain ∧ ¬ a.Poisons)
    (Q := fun a => a.Succeeds → a.result = reply a.command)
    (fun s a u hs ha hstep => turn_of_idle hreply ha (hs ▸ hstep)) rfl
    (fun a ha => ⟨hplain a (List.mem_of_mem_take ha), hbefore a ha⟩) hfirst
  exact hlaw.2 t hin hsucc

/-- The same of a run of exchanges, each of which is a call against the child of an open pipe. -/
theorem replies_of_exchanges {σ ε : Type} {step : σ → ε → Option σ} {reply : Bytes → Bytes}
    (hreply : NulFree reply) (child : σ → Child) (turn : ε → Turn) {Open : σ → Prop}
    (hstep : ∀ p e q, Open p → step p e = some q →
      Open q ∧ (child p).turn reply (turn e) = some (child q)) {p q : σ} (hopen : Open p)
    (hidle : child p = Child.idle) {es : List ε} (hplain : ∀ e ∈ es, (turn e).Plain)
    (hclean : es.Pairwise fun a b => (turn a).Poisons → ¬ (turn b).Succeeds)
    (hrun : run step p es = some q) :
    ∀ e ∈ es, (turn e).Succeeds → (turn e).result = reply (turn e).command := by
  have hturns := run_view child turn hstep hopen hrun
  rw [hidle] at hturns
  intro e he
  exact replies_of_turns hreply (List.forall_mem_map.mpr hplain) (List.pairwise_map.mpr hclean)
    hturns (turn e) (List.mem_map_of_mem he)

/-! ## The calls on POSIX -/

/-- The command, the return of `write`, and whether a read fails. -/
structure Call where
  command : Bytes
  written : Int
  interrupted : Bool
  deriving DecidableEq

namespace Call

/-- A command of one line and results that the system can give: `write` writes no more than the
line, and only a call that has written the whole line goes on to read. -/
def Possible (c : Call) : Prop :=
  newline ∉ c.command ∧ c.written ≤ (line c.command).length ∧
    (c.interrupted = true → c.written = (line c.command).length)

instance (c : Call) : Decidable c.Possible := inferInstanceAs (Decidable (_ ∧ _ ∧ _))

def Succeeds (c : Call) : Prop :=
  c.written = (line c.command).length ∧ c.interrupted = false

/-- A call whose write is not whole reads nothing. -/
theorem Possible.not_interrupted {c : Call} (h : c.Possible)
    (hw : c.written ≠ (line c.command).length) : c.interrupted = false := by
  by_contra hi
  exact hw (h.2.2 (by simpa using hi))

instance (c : Call) : Decidable c.Succeeds := inferInstanceAs (Decidable (_ ∧ _))

/-- The call ends early after `write` has written a byte. -/
def Poisons (c : Call) : Prop := 0 < c.written ∧ ¬ c.Succeeds

instance (c : Call) : Decidable c.Poisons := inferInstanceAs (Decidable (_ ∧ _))

end Call

namespace Exchange

def call (e : Exchange) : Call where
  command := e.command
  written := e.written
  interrupted := decide (ReadResult.fail ∈ e.reads)

def turn (e : Exchange) : Turn where
  command := e.command
  sent := e.written.toNat
  goes_on := decide (e.written = (line e.command).length)
  reads := e.reads
  result := e.result

theorem call_succeeds_iff (e : Exchange) : e.call.Succeeds ↔ e.Succeeds := by
  simp [Call.Succeeds, Succeeds, call]

theorem turn_succeeds_iff (e : Exchange) : e.turn.Succeeds ↔ e.Succeeds := by
  simp [Turn.Succeeds, Succeeds, turn]

theorem turn_poisons_iff (e : Exchange) : e.turn.Poisons ↔ e.call.Poisons := by
  rw [Turn.Poisons, Call.Poisons, turn_succeeds_iff, call_succeeds_iff]
  exact and_congr_left fun _ => Int.lt_toNat

theorem turn_plain {e : Exchange} (h : newline ∉ e.command) : e.turn.Plain :=
  ⟨h, fun hgo => by rw [turn, of_decide_eq_true hgo, Int.toNat_natCast]⟩

end Exchange

theorem exchange_turn {reply : Bytes → Bytes} {p q : Pipe} {e : Exchange}
    (hopen : p.be.closed = false) (hstep : p.exchange reply e = some q) :
    q.be.closed = false ∧ p.child.turn reply e.turn = some q.child := by
  unfold Pipe.exchange at hstep
  simp only [hopen, Bool.false_eq_true, if_false] at hstep
  split at hstep
  · rename_i hcmd
    obtain ⟨output, hdel, rfl⟩ := Option.map_eq_some_iff.mp hstep
    have hread : e.turn.read = some (e.turn.result, []) := by
      have h := hcmd.2
      rw [R2PipePosixBackend.cmd, if_neg (by simp [hopen])] at h
      unfold Turn.read Exchange.turn
      by_cases hwhole : e.written = (line e.command).length
      · rw [if_neg (not_not_intro hwhole)] at h
        simpa [hwhole] using h
      · simpa [hwhole] using h
    exact ⟨hopen, turn_of_read hread hdel⟩
  · cases hstep

/-- Calls that poison nothing leave a quiet pipe quiet. -/
theorem quiet_of_clean_run {reply : Bytes → Bytes} (hreply : NulFree reply) {p q : Pipe}
    (hp : Quiet p) {es : List Exchange} (hes : ∀ e ∈ es, newline ∉ e.command ∧ ¬ e.call.Poisons)
    (hrun : run (Pipe.exchange reply) p es = some q) : Quiet q := by
  refine (run_labels (Q := fun _ => True) ?_ hp hes hrun).1
  intro p e q hp he hstep
  obtain ⟨hopen, hturn⟩ := exchange_turn hp.1 hstep
  rw [hp.2] at hturn
  have hidle := turn_of_idle hreply ⟨e.turn_plain he.1, mt e.turn_poisons_iff.mp he.2⟩ hturn
  exact ⟨⟨hopen, hidle.1⟩, trivial⟩

/-- What a call on an open pipe may return: the child's reply to its own command, or the empty
string of a closed backend. -/
def Answered (reply : Bytes → Bytes) (closed : Bool) (command result : Bytes) : Prop :=
  result = reply command ∨ (closed = true ∧ result = [])

/-- Every call of the run on which all system calls succeed is answered. -/
def Unpoisoned (reply : Bytes → Bytes) (p : Pipe) (es : List Exchange) : Prop :=
  ∀ e ∈ es, e.Succeeds → Answered reply p.be.closed e.command e.result

theorem unpoisoned_of_clean {reply : Bytes → Bytes} (hreply : NulFree reply) {p q : Pipe}
    (hp : Quiet p) {es : List Exchange} (hfree : ∀ e ∈ es, newline ∉ e.command)
    (hclean : es.Pairwise fun a b => a.call.Poisons → ¬ b.call.Succeeds)
    (hrun : run (Pipe.exchange reply) p es = some q) : Unpoisoned reply p es := by
  intro e he hsucc
  have hturns : es.Pairwise fun a b => a.turn.Poisons → ¬ b.turn.Succeeds :=
    hclean.imp fun {a b} h ha hb => h (a.turn_poisons_iff.mp ha)
      (b.call_succeeds_iff.mpr (b.turn_succeeds_iff.mp hb))
  exact Or.inl (replies_of_exchanges hreply Pipe.child Exchange.turn
    (fun _ _ _ => exchange_turn) hp.1 hp.2 (fun e he => Exchange.turn_plain (hfree e he)) hturns
    hrun e he (e.turn_succeeds_iff.mpr hsucc))

/-! ## The calls on Windows -/

/-- One call of `cmd` on Windows. -/
structure WinExchange where
  command : Bytes
  ok : Bool
  written : UInt32
  reads : List ReadResult
  result : Bytes

namespace WinExchange

/-- Every system call of the exchange succeeds, and the write is whole. -/
def Succeeds (e : WinExchange) : Prop :=
  (e.ok = true ∧ e.written.toNat = (line e.command).length) ∧ ReadResult.fail ∉ e.reads

/-- The call ends early after `WriteFile` has written a byte. -/
def Poisons (e : WinExchange) : Prop := 0 < e.written.toNat ∧ ¬ e.Succeeds

def turn (e : WinExchange) : Turn where
  command := e.command
  sent := e.written.toNat
  goes_on := e.ok && decide (e.written.toNat = (line e.command).length)
  reads := e.reads
  result := e.result

theorem turn_succeeds_iff (e : WinExchange) : e.turn.Succeeds ↔ e.Succeeds := by
  simp [Turn.Succeeds, Succeeds, turn]

theorem turn_poisons_iff (e : WinExchange) : e.turn.Poisons ↔ e.Poisons := by
  rw [Turn.Poisons, Poisons, turn_succeeds_iff]
  rfl

theorem turn_plain {e : WinExchange} (h : newline ∉ e.command) : e.turn.Plain := by
  refine ⟨h, fun hgo => ?_⟩
  rw [turn, Bool.and_eq_true, decide_eq_true_eq] at hgo
  exact hgo.2

end WinExchange

structure WinPipe where
  be : R2PipeWinBackend
  child : Child

/-- One call of `cmd` on Windows against the child. The length that `WriteFile` gets is a DWORD. -/
def WinPipe.exchange (reply : Bytes → Bytes) (p : WinPipe) (e : WinExchange) : Option WinPipe :=
  let line := R2PipePosixBackend.line e.command
  let child := if p.be.closed then p.child else p.child.feed reply (line.take e.written.toNat)
  if e.written.toNat ≤ line.length % 2 ^ 32 ∧
      p.be.cmd e.command e.ok e.written e.reads = some (e.result, []) then
    (deliver child.output e.reads).map fun output =>
      { p with child := { child with output := output } }
  else none

theorem length_le_of_deliver {output rest : Bytes} {reads : List ReadResult}
    (h : deliver output reads = some rest) : ∀ buf, .chunk buf ∈ reads → buf.length ≤ 4096 := by
  induction reads generalizing output with
  | nil => simp
  | cons r reads ih =>
    intro buf hbuf
    cases r with
    | fail => exact ih h buf (by simpa using hbuf)
    | chunk b =>
      rw [deliver] at h
      split at h
      · rename_i hb
        rcases List.mem_cons.mp hbuf with heq | hbuf
        · cases heq
          exact hb.2.1
        · exact ih h buf hbuf
      · cases h

theorem win_exchange_turn {reply : Bytes → Bytes} {p q : WinPipe} {e : WinExchange}
    (hopen : p.be.closed = false) (hstep : p.exchange reply e = some q) :
    q.be.closed = false ∧ p.child.turn reply e.turn = some q.child := by
  unfold WinPipe.exchange at hstep
  simp only [hopen, Bool.false_eq_true, if_false] at hstep
  split at hstep
  · rename_i hcmd
    obtain ⟨output, hdel, rfl⟩ := Option.map_eq_some_iff.mp hstep
    have hread : e.turn.read = some (e.turn.result, []) := by
      have h := hcmd.2
      rw [R2PipeWinBackend.cmd, if_neg (by simp [hopen])] at h
      unfold Turn.read WinExchange.turn
      by_cases hwhole : e.ok = true ∧ e.written.toNat = (line e.command).length
      · rw [if_neg (by simp [hwhole]), win_read_loop_eq [] (length_le_of_deliver hdel)] at h
        simpa [hwhole] using h
      · rw [if_pos (by simpa [or_iff_not_imp_left] using hwhole)] at h
        simpa [hwhole] using h
    exact ⟨hopen, turn_of_read hread hdel⟩
  · cases hstep

/-- The pipe on Windows after the handshake of `start`. -/
def WinPipe.start (stdin_ stdout_ : Nat) : Option WinPipe :=
  match Child.spawned.output with
  | b :: output =>
    if b = 0 then
      some {
        be := { stdin_ := stdin_, stdout_ := stdout_ }
        child := { line := [], output := output } }
    else none
  | [] => none

theorem win_unpoisoned_of_clean {reply : Bytes → Bytes} (hreply : NulFree reply) {p q : WinPipe}
    (hopen : p.be.closed = false) (hidle : p.child = Child.idle) {es : List WinExchange}
    (hfree : ∀ e ∈ es, newline ∉ e.command)
    (hclean : es.Pairwise fun a b => a.Poisons → ¬ b.Succeeds)
    (hrun : run (WinPipe.exchange reply) p es = some q) :
    ∀ e ∈ es, e.Succeeds → Answered reply p.be.closed e.command e.result := by
  intro e he hsucc
  have hturns : es.Pairwise fun a b => a.turn.Poisons → ¬ b.turn.Succeeds :=
    hclean.imp fun {a b} h ha hb => h (a.turn_poisons_iff.mp ha) (b.turn_succeeds_iff.mp hb)
  exact Or.inl (replies_of_exchanges hreply WinPipe.child WinExchange.turn
    (fun _ _ _ => win_exchange_turn) hopen hidle (fun e he => WinExchange.turn_plain (hfree e he))
    hturns hrun e he (e.turn_succeeds_iff.mpr hsucc))

/-! ## Runs that poison -/

/-- Reads of one byte each. -/
def single_reads (text : Bytes) : List ReadResult := text.map fun b => .chunk [b]

theorem read_loop_single_reads {text : Bytes} (h0 : 0 ∉ text) (out : Bytes)
    (reads : List ReadResult) :
    read_loop out (single_reads text ++ reads) = read_loop (out ++ text) reads := by
  induction text generalizing out with
  | nil => simp [single_reads]
  | cons b text ih =>
    rw [List.mem_cons, not_or] at h0
    have hnone : find_nul 0 [b] = -1 := find_nul_of_not_mem 0 (by simpa using h0.1)
    rw [single_reads, List.map_cons, List.cons_append, read_loop, if_neg (by simp), hnone]
    simp only [show ¬ (0 : Int) ≤ -1 by decide, if_false]
    exact (ih h0.2 (out ++ [b])).trans (by simp)

theorem deliver_single_reads (text rest : Bytes) (reads : List ReadResult) :
    deliver (text ++ rest) (single_reads text ++ reads) = deliver rest reads := by
  induction text with
  | nil => rfl
  | cons b text ih =>
    rw [single_reads, List.map_cons, List.cons_append, List.cons_append, deliver,
      if_pos ⟨by simp, by simp, by simp⟩]
    exact ih

section
variable (reply : Bytes → Bytes) {p : Pipe}

theorem exchange_short (hopen : p.be.closed = false) {command : Bytes} {written : Int}
    (h : written < (line command).length) :
    p.exchange reply { command := command, written := written, reads := [], result := [] } =
      some { p with child := p.child.feed reply ((line command).take written.toNat) } := by
  have hcmd : p.be.cmd command written [] = some ([], []) := by
    rw [R2PipePosixBackend.cmd, if_neg (by simp [hopen]), if_pos (ne_of_lt h)]
  unfold Pipe.exchange
  dsimp only
  rw [if_pos ⟨h.le, hcmd⟩, hopen]
  rfl

theorem exchange_whole (hopen : p.be.closed = false) {command result rest : Bytes}
    {reads : List ReadResult} (hloop : read_loop [] reads = some (result, []))
    (hdel : deliver (p.child.feed reply (line command)).output reads = some rest) :
    p.exchange reply
        { command := command, written := (line command).length, reads := reads, result := result } =
      some { p with child := { p.child.feed reply (line command) with output := rest } } := by
  have hcmd : p.be.cmd command (line command).length reads = some (result, []) := by
    rw [R2PipePosixBackend.cmd, if_neg (by simp [hopen]), if_neg (by simp), hloop]
  unfold Pipe.exchange
  dsimp only
  rw [if_pos ⟨le_refl _, hcmd⟩]
  simp only [hopen, Bool.false_eq_true, if_false, Int.toNat_natCast, List.take_length, hdel,
    Option.map_some]

theorem exists_reply (c : Child) (command : Bytes) :
    ∃ text rest, (c.feed reply (line command)).output = text ++ 0 :: rest ∧ 0 ∉ text := by
  apply List.eq_append_cons_of_mem
  rw [line, feed_append, feed_newline]
  simp

theorem exists_exchange (hopen : p.be.closed = false) {c : Call} (hc : c.Possible) :
    ∃ e q, (e.call = c ∧ True) ∧ p.exchange reply e = some q ∧ q.be.closed = false := by
  have hle := hc.2.1
  by_cases hw : c.written = (line c.command).length
  · obtain ⟨text, rest, hout, h0⟩ := exists_reply reply p.child c.command
    cases hi : c.interrupted with
    | true =>
      refine ⟨_, _, ⟨?_, trivial⟩, @exchange_whole reply p hopen c.command [] _ [.fail] rfl rfl,
        hopen⟩
      simp [Exchange.call, ← hw, ← hi]
    | false =>
      have hloop : read_loop [] (single_reads text ++ [.chunk [0]]) = some (text, []) := by
        rw [read_loop_single_reads h0]
        simp [read_loop, find_nul]
      have hdel : deliver (p.child.feed reply (line c.command)).output
          (single_reads text ++ [.chunk [0]]) = some rest := by
        rw [hout, deliver_single_reads]
        simp [deliver]
      refine ⟨_, _, ⟨?_, trivial⟩, exchange_whole reply hopen hloop hdel, hopen⟩
      simp [Exchange.call, ← hw, ← hi, single_reads]
  · have hi := hc.not_interrupted hw
    refine ⟨_, _, ⟨?_, trivial⟩, exchange_short reply hopen (lt_of_le_of_ne hle hw), hopen⟩
    simp [Exchange.call, ← hi]

/-- A piece of a line is left in front of the next one, or a NUL in front of the next reply. -/
def Spoiled (p : Pipe) : Prop :=
  p.be.closed = false ∧
    ((p.child.output = [] ∧ p.child.line ≠ []) ∨ ∃ output, p.child.output = 0 :: output)

/-- A call that poisons can spoil a quiet pipe, and a pipe that is spoiled can stay so while no call
succeeds. -/
theorem exists_spoiling_exchange {c : Call} (hc : c.Possible) (hfails : ¬ c.Succeeds)
    (hp : Quiet p ∧ c.Poisons ∨ Spoiled p) :
    ∃ e q, (e.call = c ∧ True) ∧ p.exchange reply e = some q ∧ Spoiled q := by
  have hfree := hc.1
  have hle := hc.2.1
  have hopen : p.be.closed = false := hp.elim (fun h => h.1.1) fun h => h.1
  by_cases hw : c.written = (line c.command).length
  · have hi : c.interrupted = true := by
      by_contra hi
      exact hfails ⟨hw, by simpa using hi⟩
    obtain ⟨text, rest, hout, h0⟩ := exists_reply reply p.child c.command
    have hloop : read_loop [] (single_reads text ++ [.fail]) = some (text, []) := by
      rw [read_loop_single_reads h0]
      rfl
    have hdel : deliver (p.child.feed reply (line c.command)).output
        (single_reads text ++ [.fail]) = some (0 :: rest) := by
      rw [hout, deliver_single_reads]
      rfl
    refine ⟨_, _, ⟨?_, trivial⟩, exchange_whole reply hopen hloop hdel, hopen, Or.inr ⟨rest, rfl⟩⟩
    simp [Exchange.call, ← hw, ← hi]
  · have hi := hc.not_interrupted hw
    refine ⟨_, _, ⟨?_, trivial⟩, exchange_short reply hopen (lt_of_le_of_ne hle hw), hopen, ?_⟩
    · simp [Exchange.call, ← hi]
    · -- the piece of the line, with no newline in it
      have hpiece : (line c.command).take c.written.toNat = c.command.take c.written.toNat := by
        rw [line, List.take_append_of_le_length]
        rw [line, List.length_append] at hle hw
        simp only [List.length_singleton] at hle hw
        omega
      have hfed := feed_of_not_mem reply p.child
        (fun h => hfree (List.mem_of_mem_take (i := c.written.toNat) h))
      rw [hpiece, hfed]
      rcases hp with ⟨⟨-, hchild⟩, hpos, -⟩ | ⟨-, ⟨hout, hline⟩ | hout⟩
      · have hlen : 0 < (c.command.take c.written.toNat).length := by
          rw [line, List.length_append] at hle hw
          simp only [List.length_singleton] at hle hw
          rw [List.length_take]
          omega
        refine Or.inl ⟨by rw [hchild], ?_⟩
        simp only [hchild, List.nil_append]
        exact List.ne_nil_of_length_pos hlen
      · exact Or.inl ⟨hout, by simp [hline]⟩
      · exact Or.inr hout

end

/-- A child that answers one command alone. -/
def answers_only (command : Bytes) : Bytes → Bytes :=
  fun l => if l = command then Bytes.lit "x" else []

theorem answers_only_nulFree (command : Bytes) : NulFree (answers_only command) := by
  intro l
  unfold answers_only
  split
  · decide
  · simp

/-- On a spoiled pipe, a call that succeeds can miss the reply to its command. -/
theorem exists_missed_reply {p : Pipe} (hp : Spoiled p) {c : Call} (hc : c.Possible)
    (hsucc : c.Succeeds) :
    ∃ e q, e.call = c ∧ p.exchange (answers_only c.command) e = some q ∧ q.be.closed = false ∧
      e.result = [] := by
  obtain ⟨hopen, hspoil⟩ := hp
  obtain ⟨rest, hout⟩ : ∃ rest,
      (p.child.feed (answers_only c.command) (line c.command)).output = 0 :: rest := by
    rw [line, feed_append, feed_of_not_mem _ _ hc.1, feed_newline]
    rcases hspoil with ⟨hempty, hline⟩ | ⟨output, hout⟩
    · have hglued : answers_only c.command (p.child.line ++ c.command) = [] :=
        if_neg fun h => hline (List.append_left_eq_self.mp h)
      exact ⟨[], by simp [hempty, hglued]⟩
    · exact ⟨_, by simp only [hout, List.cons_append]; rfl⟩
  have hloop : read_loop [] [.chunk [0]] = some ([], []) := by decide
  have hdel : deliver (p.child.feed (answers_only c.command) (line c.command)).output
      [.chunk [0]] = some rest := by
    rw [hout]
    simp [deliver]
  refine ⟨_, _, ?_, exchange_whole _ hopen hloop hdel, hopen, rfl⟩
  simp [Exchange.call, ← hsucc.1, ← hsucc.2]

/-! ## The law -/

/-- A run of `cmd` on one pipe from its start, with these calls. -/
def Plays (reply : Bytes → Bytes) (calls : List Call) (p : Pipe) (es : List Exchange) : Prop :=
  es.map Exchange.call = calls ∧ (∃ stdin_ stdout_, Pipe.start stdin_ stdout_ = some p) ∧
    (run (Pipe.exchange reply) p es).isSome

theorem quiet_of_start {stdin_ stdout_ : Nat} {p : Pipe} (h : Pipe.start stdin_ stdout_ = some p) :
    Quiet p := by
  obtain ⟨q, hq, hquiet⟩ := start_quiet stdin_ stdout_
  rw [h, Option.some.injEq] at hq
  exact hq ▸ hquiet

/-- Where a call succeeds after one that poisons, some child and some reads are such that it misses
its reply. -/
theorem exists_poisoned_run {calls : List Call} (hpossible : ∀ c ∈ calls, c.Possible)
    (h : ¬ calls.Pairwise fun a b => a.Poisons → ¬ b.Succeeds) :
    ∃ reply p es, NulFree reply ∧ Plays reply calls p es ∧ ¬ Unpoisoned reply p es := by
  obtain ⟨before, a, between, b, after, rfl, hbefore, ha, hbetween, hb⟩ := exists_first_pair h
  have hb : b.Succeeds := not_not.mp hb
  let reply := answers_only b.command
  obtain ⟨p₀, hstart, hquiet⟩ := start_quiet 3 4
  obtain ⟨es₁, p₁, ⟨hes₁, -⟩, hrun₁, -⟩ :=
    exists_run Exchange.call before (I := fun p : Pipe => p.be.closed = false)
      (fun p c hc hopen => exists_exchange reply hopen (hpossible c (by simp [hc]))) hquiet.1
  have hes₁' : ∀ e ∈ es₁, newline ∉ e.command ∧ ¬ e.call.Poisons := by
    intro e he
    have hmem : e.call ∈ before := hes₁ ▸ List.mem_map_of_mem he
    exact ⟨(hpossible e.call (by simp [hmem])).1, hbefore _ hmem⟩
  have hquiet₁ : Quiet p₁ := quiet_of_clean_run (answers_only_nulFree _) hquiet hes₁' hrun₁
  obtain ⟨ea, pa, ⟨hea, -⟩, hrun_a, hspoiled⟩ :=
    exists_spoiling_exchange reply (hpossible a (by simp)) ha.2 (Or.inl ⟨hquiet₁, ha⟩)
  obtain ⟨es₂, p₂, ⟨hes₂, -⟩, hrun₂, hspoiled₂⟩ :=
    exists_run Exchange.call between (I := Spoiled)
      (fun p c hc hp => exists_spoiling_exchange reply (hpossible c (by simp [hc]))
        (hbetween c hc) (Or.inr hp)) hspoiled
  obtain ⟨eb, pb, heb, hrun_b, hopen_b, hmiss⟩ :=
    exists_missed_reply hspoiled₂ (hpossible b (by simp)) hb
  obtain ⟨es₃, p₃, ⟨hes₃, -⟩, hrun₃, -⟩ :=
    exists_run Exchange.call after (I := fun p : Pipe => p.be.closed = false)
      (fun p c hc hopen => exists_exchange reply hopen (hpossible c (by simp [hc]))) hopen_b
  have hrun : run (Pipe.exchange reply) p₀ (es₁ ++ ea :: (es₂ ++ eb :: es₃)) = some p₃ :=
    run_append_iff.mpr ⟨p₁, hrun₁, run_cons_iff.mpr ⟨pa, hrun_a,
      run_append_iff.mpr ⟨p₂, hrun₂, run_cons_iff.mpr ⟨pb, hrun_b, hrun₃⟩⟩⟩⟩
  refine ⟨reply, p₀, es₁ ++ ea :: (es₂ ++ eb :: es₃), answers_only_nulFree _,
    ⟨by simp [hes₁, hea, hes₂, heb, hes₃], ⟨3, 4, hstart⟩, by rw [hrun]; rfl⟩, ?_⟩
  intro hall
  have hcommand : eb.command = b.command := congrArg Call.command heb
  rcases hall eb (by simp) ((Exchange.call_succeeds_iff eb).mp (heb ▸ hb)) with hown | ⟨hclosed, -⟩
  · rw [hmiss, hcommand, show reply b.command = Bytes.lit "x" from if_pos rfl] at hown
    cases hown
  · rw [hquiet.1] at hclosed
    cases hclosed

/-- Later calls keep their own replies, whatever the child answers and however its output comes,
exactly when no call on which all system calls succeed comes after a call that ends early with a
byte of its line written. On Windows they keep them then too. -/
theorem failed_exchanges_poison_later_ones_iff (calls : List Call)
    (hpossible : ∀ c ∈ calls, c.Possible) :
    ((∀ reply p es, NulFree reply → Plays reply calls p es → Unpoisoned reply p es) ↔
      calls.Pairwise fun a b => a.Poisons → ¬ b.Succeeds) ∧
    ∀ reply stdin_ stdout_ p es, NulFree reply → stdin_ ≠ 0 → stdout_ ≠ 0 →
      WinPipe.start stdin_ stdout_ = some p → (∀ e ∈ es, newline ∉ e.command) →
      es.Pairwise (fun a b => a.Poisons → ¬ b.Succeeds) →
      (run (WinPipe.exchange reply) p es).isSome →
        ∀ e ∈ es, e.Succeeds → Answered reply p.be.closed e.command e.result := by
  refine ⟨⟨fun h => ?_, ?_⟩, ?_⟩
  · by_contra hpoisoned
    obtain ⟨reply, p, es, hreply, hplays, hbad⟩ := exists_poisoned_run hpossible hpoisoned
    exact hbad (h reply p es hreply hplays)
  · rintro hclean reply p es hreply ⟨rfl, ⟨stdin_, stdout_, hstart⟩, hrun⟩
    obtain ⟨q, hrun⟩ := Option.isSome_iff_exists.mp hrun
    refine unpoisoned_of_clean hreply (quiet_of_start hstart) ?_ (List.pairwise_map.mp hclean) hrun
    exact fun e he => (hpossible e.call (List.mem_map_of_mem he)).1
  · intro reply stdin_ stdout_ p es hreply hin hout hstart hfree hclean hrun
    obtain ⟨q, hrun⟩ := Option.isSome_iff_exists.mp hrun
    cases hstart
    refine win_unpoisoned_of_clean hreply ?_ rfl hfree hclean hrun
    simp [R2PipeWinBackend.closed, hin, hout]

/-- A read fails after two bytes of the reply, and the next command gets the rest of it. -/
def interruptedRead : List Exchange :=
  [{ command := Bytes.lit "?e a", written := 5, reads := [.chunk (Bytes.lit "?e"), .fail],
     result := Bytes.lit "?e" },
   { command := Bytes.lit "s", written := 2, reads := [.chunk (Bytes.lit " a" ++ [0])],
     result := Bytes.lit " a" }]

/-- Two bytes of the line are written, and the next command comes after them. -/
def shortWrite : List Exchange :=
  [{ command := Bytes.lit "?e a", written := 2, reads := [], result := [] },
   { command := Bytes.lit "s", written := 2, reads := [.chunk (Bytes.lit "?es" ++ [0])],
     result := Bytes.lit "?es" }]

/-- The law at two calls, the first of which writes nothing. -/
theorem a_write_of_nothing_poisons_nothing :
    (∀ c ∈ [(⟨Bytes.lit "aflj", -1, false⟩ : Call), ⟨Bytes.lit "s", 2, false⟩], c.Possible) ∧
      ∀ reply p es, NulFree reply →
        Plays reply [⟨Bytes.lit "aflj", -1, false⟩, ⟨Bytes.lit "s", 2, false⟩] p es →
          Unpoisoned reply p es :=
  ⟨by decide, (failed_exchanges_poison_later_ones_iff _ (by decide)).1.mpr (by decide)⟩

/-- The end of an older reply, and the reply to a line glued to a piece of an older one. -/
theorem a_failed_exchange_spoils_the_next_reply :
    NulFree echo ∧ ∀ es ∈ [interruptedRead, shortWrite], (∀ e ∈ es, newline ∉ e.command) ∧
      ∃ p, Plays echo (es.map Exchange.call) p es ∧ ¬ Unpoisoned echo p es := by
  refine ⟨fun l => by simp [echo], ?_⟩
  have hmissed : ∀ es ∈ [interruptedRead, shortWrite], ∃ p, Pipe.start 3 4 = some p ∧
      (run (Pipe.exchange echo) p es).isSome ∧ ∃ e ∈ es, e.call.Succeeds ∧
        e.result ≠ echo e.command ∧ p.be.closed = false := by
    intro es hes
    refine ⟨_, rfl, ?_⟩
    revert es
    decide
  have hfree : ∀ es ∈ [interruptedRead, shortWrite], ∀ e ∈ es, newline ∉ e.command := by decide
  intro es hes
  obtain ⟨p, hstart, hrun, e, he, hsucc, hresult, hopen⟩ := hmissed es hes
  refine ⟨hfree es hes, p, ⟨rfl, ⟨3, 4, hstart⟩, hrun⟩, fun hall => ?_⟩
  rcases hall e he (e.call_succeeds_iff.mp hsucc) with hown | ⟨hclosed, -⟩
  · exact hresult hown
  · rw [hopen] at hclosed
    cases hclosed

end r2sql
