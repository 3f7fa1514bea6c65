-- Which replies are whose: on one pipe, the replies stay with their commands
-- until a command brings a newline of its own.
import R2sql.R2Pipe
import R2sql.Lib.Runs

namespace r2sql

open R2PipePosixBackend runs

/-! ## The reading loop -/

theorem find_nul_of_not_mem (i : Int) {buf : Bytes} (h : 0 ∉ buf) : find_nul i buf = -1 := by
  induction buf generalizing i with
  | nil => rfl
  | cons c buf ih =>
    rw [List.mem_cons, not_or] at h
    rw [find_nul, if_neg (Ne.symm h.1), ih _ h.2]

theorem find_nul_append (i : Int) {text : Bytes} (h : 0 ∉ text) (rest : Bytes) :
    find_nul i (text ++ 0 :: rest) = i + text.length := by
  induction text generalizing i with
  | nil => simp [find_nul]
  | cons c text ih =>
    rw [List.mem_cons, not_or] at h
    rw [List.cons_append, find_nul, if_neg (Ne.symm h.1), ih _ h.2, List.length_cons]
    omega

/-- The first bytes of a reply and its NUL are bytes of the reply, or they have the NUL and more. -/
theorem split_reply {buf rest text tail : Bytes} (h : buf ++ rest = text ++ 0 :: tail) :
    (∃ text', text = buf ++ text' ∧ rest = text' ++ 0 :: tail) ∨
      ∃ more, buf = text ++ 0 :: more ∧ tail = more ++ rest := by
  rcases List.append_eq_append_iff.mp h with ⟨text', htext, hrest⟩ | ⟨more, hbuf, htail⟩
  · exact Or.inl ⟨text', htext, hrest⟩
  · cases more with
    | nil => exact Or.inl ⟨[], by simpa using hbuf.symm, by simpa using htail.symm⟩
    | cons c more =>
      rw [List.cons_append, List.cons.injEq] at htail
      exact Or.inr ⟨more, by rw [hbuf, htail.1], htail.2⟩

/-- With a reply and its NUL at the front of the output, the loop gives the reply, however the
output comes. What it leaves of the output is the end of what came after the NUL. -/
theorem read_loop_of_reply {text tail : Bytes} (h0 : 0 ∉ text) {out res rest : Bytes}
    {reads : List ReadResult} (hfail : ReadResult.fail ∉ reads)
    (hloop : read_loop out reads = some (res, []))
    (hdel : deliver (text ++ 0 :: tail) reads = some rest) : res = out ++ text ∧ rest <:+ tail := by
  induction reads generalizing out text with
  | nil => simp [read_loop] at hloop
  | cons r reads ih =>
    rw [List.mem_cons, not_or] at hfail
    cases r with
    | fail => exact absurd rfl hfail.1
    | chunk buf =>
      rw [deliver] at hdel
      split at hdel
      · rename_i hbuf
        obtain ⟨hne, -, later, hlater⟩ := hbuf
        rw [← hlater, List.drop_left] at hdel
        rw [read_loop, if_neg hne] at hloop
        rcases split_reply hlater with ⟨text', htext, hrest⟩ | ⟨more, hmore, htail⟩
        · rw [htext, List.mem_append, not_or] at h0
          rw [find_nul_of_not_mem 0 h0.1] at hloop
          rw [hrest] at hdel
          obtain ⟨hres, hsuffix⟩ := ih h0.2 hfail.2 hloop hdel
          exact ⟨by rw [hres, htext, List.append_assoc], hsuffix⟩
        · rw [hmore, find_nul_append 0 h0] at hloop
          simp only [Int.zero_add, Int.natCast_nonneg, if_true, Int.toNat_natCast, List.take_left,
            Option.some.injEq, Prod.mk.injEq] at hloop
          obtain ⟨hres, hreads⟩ := hloop
          rw [hreads, deliver, Option.some.injEq] at hdel
          exact ⟨hres.symm, more, by rw [htail, hdel]⟩
      · cases hdel

/-! ## The child -/

section
variable (reply : Bytes → Bytes)

theorem feed_append (c : Child) (xs ys : Bytes) :
    c.feed reply (xs ++ ys) = (c.feed reply xs).feed reply ys := by
  induction xs generalizing c with
  | nil => rfl
  | cons b xs ih =>
    rw [List.cons_append, Child.feed, Child.feed]
    split <;> exact ih _

theorem feed_of_not_mem (c : Child) {xs : Bytes} (h : newline ∉ xs) :
    c.feed reply xs = { c with line := c.line ++ xs } := by
  induction xs generalizing c with
  | nil => simp [Child.feed]
  | cons b xs ih =>
    rw [List.mem_cons, not_or] at h
    rw [Child.feed, if_neg (Ne.symm h.1), ih _ h.2]
    simp

theorem feed_newline (c : Child) :
    c.feed reply [newline] = { line := [], output := c.output ++ reply c.line ++ [0] } := by
  simp [Child.feed]

theorem feed_line (output : Bytes) {command : Bytes} (h : newline ∉ command) :
    ({ line := [], output := output } : Child).feed reply (line command) =
      { line := [], output := output ++ reply command ++ [0] } := by
  rw [line, feed_append, feed_of_not_mem reply _ h, feed_newline]
  rfl

end

/-! ## Commands without a newline -/

/-- The pipe is open, and every byte that the child printed has been read. -/
def Quiet (p : Pipe) : Prop := p.be.closed = false ∧ p.child = { line := [], output := [] }

/-- The replies of a child hold no NUL. -/
def NulFree (reply : Bytes → Bytes) : Prop := ∀ l, 0 ∉ reply l

theorem read_own_reply {text res rest : Bytes} {reads : List ReadResult} (h0 : 0 ∉ text)
    (hfail : ReadResult.fail ∉ reads) (hloop : read_loop [] reads = some (res, []))
    (hdel : deliver (text ++ [0]) reads = some rest) : res = text ∧ rest = [] := by
  obtain ⟨hres, hsuffix⟩ := read_loop_of_reply h0 hfail hloop hdel
  exact ⟨by simpa using hres, List.suffix_nil.mp hsuffix⟩

theorem exchange_of_quiet {reply : Bytes → Bytes} (hreply : NulFree reply) {p q : Pipe}
    {e : Exchange} (hp : Quiet p) (he : e.Succeeds ∧ newline ∉ e.command)
    (hstep : p.exchange reply e = some q) :
    Quiet q ∧ e.result = reply e.command := by
  obtain ⟨hopen, hchild⟩ := hp
  obtain ⟨⟨hwritten, hfail⟩, hfree⟩ := he
  have hfed : p.child.feed reply ((line e.command).take e.written.toNat) =
      { line := [], output := reply e.command ++ [0] } := by
    rw [hchild, hwritten, Int.toNat_natCast, List.take_length, feed_line reply [] hfree]
    simp
  unfold Pipe.exchange at hstep
  simp only [hopen, Bool.false_eq_true, if_false, hfed] at hstep
  split at hstep
  · rename_i hcmd
    obtain ⟨output, hdel, rfl⟩ := Option.map_eq_some_iff.mp hstep
    have hloop : read_loop [] e.reads = some (e.result, []) := by
      have h := hcmd.2
      rwa [R2PipePosixBackend.cmd, if_neg (by simp [hopen]), if_neg (by simp [hwritten])] at h
    obtain ⟨hres, hrest⟩ := read_own_reply (hreply e.command) hfail hloop hdel
    rw [hrest]
    exact ⟨⟨hopen, rfl⟩, hres⟩
  · cases hstep

theorem start_quiet (stdin_ stdout_ : Nat) :
    ∃ p, Pipe.start stdin_ stdout_ = some p ∧ Quiet p :=
  ⟨_, rfl, by simp [closed], rfl⟩

/-! ## Commands with a newline -/

/-- An exchange whose only read gives everything up to a NUL, and maybe more. -/
def oneRead (command text more : Bytes) : Exchange where
  command := command
  written := (line command).length
  reads := [.chunk (text ++ 0 :: more)]
  result := text

theorem oneRead_succeeds (command text more : Bytes) : (oneRead command text more).Succeeds :=
  ⟨rfl, by simp [oneRead]⟩

theorem exchange_oneRead {reply : Bytes → Bytes} {p : Pipe} (hp : p.be.closed = false)
    {command text more rest : Bytes} (h0 : 0 ∉ text) (hlen : (text ++ 0 :: more).length ≤ 4096)
    (hfed : p.child.feed reply (line command) =
      { line := [], output := text ++ 0 :: more ++ rest }) :
    p.exchange reply (oneRead command text more) =
      some { p with child := { line := [], output := rest } } := by
  have hloop : p.be.cmd command (line command).length [.chunk (text ++ 0 :: more)] =
      some (text, []) := by
    rw [R2PipePosixBackend.cmd, if_neg (by simp [hp]), if_neg (by simp), read_loop,
      if_neg (by simp), find_nul_append 0 h0]
    simp
  have hdel : deliver (text ++ 0 :: more ++ rest) [.chunk (text ++ 0 :: more)] = some rest := by
    rw [deliver, if_pos ⟨by simp, hlen, List.prefix_append _ _⟩, List.drop_left, deliver]
  unfold Pipe.exchange oneRead
  simp only [hp, Bool.false_eq_true, if_false, Int.toNat_natCast, List.take_length, hfed, hloop,
    le_refl, and_self, if_true, hdel, Option.map_some]

/-- A child that answers every line the same way. -/
def terse : Bytes → Bytes := fun _ => Bytes.lit "x"

theorem terse_nulFree : NulFree terse := fun _ => show (0 : UInt8) ∉ Bytes.lit "x" by decide

/-- `n` replies of the terse child. -/
def backlog (n : Nat) : Bytes := (List.replicate n (Bytes.lit "x" ++ [0])).flatten

theorem backlog_succ (n : Nat) : backlog (n + 1) = Bytes.lit "x" ++ 0 :: backlog n := by
  simp [backlog, List.replicate_succ]

theorem backlog_add (m n : Nat) : backlog (m + n) = backlog m ++ backlog n := by
  rw [backlog, List.replicate_add, List.flatten_append]
  rfl

theorem feed_terse (c : Child) (xs : Bytes) :
    ∃ l, c.feed terse xs = { line := l, output := c.output ++ backlog (xs.count newline) } := by
  induction xs generalizing c with
  | nil => exact ⟨c.line, by simp [Child.feed, backlog]⟩
  | cons b xs ih =>
    rw [Child.feed]
    split
    · rename_i hb
      obtain ⟨l, hl⟩ := ih { line := [], output := c.output ++ terse c.line ++ [0] }
      refine ⟨l, ?_⟩
      rw [hl, hb, List.count_cons_self, backlog_succ]
      simp [terse]
    · rename_i hb
      obtain ⟨l, hl⟩ := ih { c with line := c.line ++ [b] }
      exact ⟨l, by rw [hl, List.count_cons_of_ne hb]⟩

theorem feed_terse_line (output command : Bytes) :
    ({ line := [], output := output } : Child).feed terse (line command) =
      { line := [], output := output ++ backlog (command.count newline + 1) } := by
  obtain ⟨l, hl⟩ := feed_terse { line := [], output := output } command
  rw [line, feed_append, hl, feed_newline, backlog_add, List.append_assoc, List.append_assoc]
  rfl

/-- An open pipe with some replies of the terse child in it. -/
def Terse (p : Pipe) : Prop :=
  p.be.closed = false ∧ ∃ n, p.child = { line := [], output := backlog n }

theorem exchange_terse (p : Pipe) (command : Bytes) (hp : Terse p) :
    ∃ e q, (e.command = command ∧ e.Succeeds) ∧ p.exchange terse e = some q ∧ Terse q := by
  obtain ⟨hopen, n, hchild⟩ := hp
  have hstep : p.exchange terse (oneRead command (Bytes.lit "x") []) =
      some { p with child := { line := [], output := backlog (n + command.count newline) } } := by
    apply exchange_oneRead hopen (by decide) (by decide)
    rw [hchild, feed_terse_line, ← backlog_add, ← Nat.add_assoc, backlog_succ]
    simp
  exact ⟨_, _, ⟨rfl, oneRead_succeeds _ _ _⟩, hstep, hopen, _, rfl⟩

/-- The reads can be such that a command with a newline leaves half of a reply behind, and the next
command, without one, gets the empty string. -/
theorem exchange_terse_shifted {p : Pipe} {c d : Bytes} (hp : Terse p) (hc : newline ∈ c)
    (hd : newline ∉ d) :
    ∃ q, run (Pipe.exchange terse) p [oneRead c (Bytes.lit "x") (Bytes.lit "x"), oneRead d [] []] =
      some q ∧ Terse q := by
  obtain ⟨hopen, n, hchild⟩ := hp
  obtain ⟨k, hk⟩ : ∃ k, c.count newline = k + 1 :=
    Nat.exists_eq_succ_of_ne_zero (Nat.ne_of_gt (List.count_pos_iff.mpr hc))
  have hfirst : p.exchange terse (oneRead c (Bytes.lit "x") (Bytes.lit "x")) =
      some { p with child := { line := [], output := 0 :: backlog (n + k) } } := by
    apply exchange_oneRead hopen (by decide) (by decide)
    rw [hchild, feed_terse_line, ← backlog_add, hk,
      show n + (k + 1 + 1) = n + k + 1 + 1 by omega, backlog_succ, backlog_succ]
    simp
  have hsecond :
      ({ p with child := { line := [], output := 0 :: backlog (n + k) } } : Pipe).exchange terse
        (oneRead d [] []) =
        some { p with child := { line := [], output := backlog (n + k + 1) } } := by
    refine exchange_oneRead
      (p := { p with child := { line := [], output := 0 :: backlog (n + k) } })
      hopen (by decide) (by decide) ?_
    rw [feed_terse_line, List.count_eq_zero.mpr hd, backlog_add (n + k)]
    rfl
  refine ⟨_, run_cons_iff.mpr ⟨_, hfirst, run_cons_iff.mpr ⟨_, hsecond, rfl⟩⟩, hopen, _, rfl⟩

/-! ## The law -/

/-- A run of `cmd` on one pipe from its start, where every system call succeeds. -/
def Session (reply : Bytes → Bytes) (commands : List Bytes) (es : List Exchange) : Prop :=
  es.map Exchange.command = commands ∧ (∀ e ∈ es, e.Succeeds) ∧
    ∃ stdin_ stdout_,
      ((Pipe.start stdin_ stdout_).bind fun p => run (Pipe.exchange reply) p es).isSome

/-- Every command without a newline gets its own reply. -/
def Aligned (reply : Bytes → Bytes) (es : List Exchange) : Prop :=
  ∀ e ∈ es, newline ∉ e.command → e.result = reply e.command

/-- A newline that comes before a command without one is right before such a command. -/
theorem exists_newline_before {commands : List Bytes}
    (h : ¬ commands.Pairwise fun c d => newline ∈ c → newline ∈ d) :
    ∃ before c d after, commands = before ++ c :: d :: after ∧ newline ∈ c ∧ newline ∉ d := by
  induction commands with
  | nil => simp at h
  | cons c rest ih =>
    by_cases hrest : rest.Pairwise fun c d => newline ∈ c → newline ∈ d
    · rw [List.pairwise_cons] at h
      obtain ⟨d, hd, hc, hfree⟩ : ∃ d ∈ rest, newline ∈ c ∧ newline ∉ d := by
        by_contra hno
        refine h ⟨fun d hd hc => ?_, hrest⟩
        by_contra hfree
        exact hno ⟨d, hd, hc, hfree⟩
      cases rest with
      | nil => cases hd
      | cons e rest =>
        have he : newline ∉ e := by
          intro he
          rcases List.mem_cons.mp hd with rfl | hd
          · exact hfree he
          · exact hfree ((List.pairwise_cons.mp hrest).1 d hd he)
        exact ⟨[], c, e, rest, rfl, hc, he⟩
    · obtain ⟨before, a, b, after, rfl, ha, hb⟩ := ih hrest
      exact ⟨c :: before, a, b, after, rfl, ha, hb⟩

/-- The commands of one pipe keep their replies, whatever the child answers and however the output
comes, exactly when no command without a newline is sent after a command with one. -/
theorem replies_stay_aligned_until_a_newline (commands : List Bytes) :
    (∀ reply es, NulFree reply → Session reply commands es → Aligned reply es) ↔
      commands.Pairwise fun c d => newline ∈ c → newline ∈ d := by
  constructor
  · intro h
    by_contra hmixed
    obtain ⟨before, c, d, after, hcommands, hc, hd⟩ := exists_newline_before hmixed
    obtain ⟨p₀, hstart, hopen, hchild⟩ := start_quiet 3 4
    obtain ⟨es₁, p₁, ⟨hes₁, hok₁⟩, hrun₁, hp₁⟩ :=
      exists_run Exchange.command before (fun p c _ => exchange_terse p c)
        (s := p₀) ⟨hopen, 0, hchild⟩
    obtain ⟨p₂, hrun₂, hp₂⟩ := exchange_terse_shifted hp₁ hc hd
    obtain ⟨es₃, p₃, ⟨hes₃, hok₃⟩, hrun₃, -⟩ :=
      exists_run Exchange.command after (fun p c _ => exchange_terse p c) hp₂
    have hsession : Session terse commands
        (es₁ ++ ([oneRead c (Bytes.lit "x") (Bytes.lit "x"), oneRead d [] []] ++ es₃)) := by
      refine ⟨by simp [hcommands, hes₁, hes₃, oneRead], ?_, 3, 4, ?_⟩
      · intro e he
        simp only [List.mem_append, List.mem_cons, List.not_mem_nil, or_false] at he
        rcases he with he | (rfl | rfl) | he
        · exact hok₁ e he
        · exact oneRead_succeeds _ _ _
        · exact oneRead_succeeds _ _ _
        · exact hok₃ e he
      · rw [hstart, Option.bind_some,
          run_append_iff.mpr ⟨p₁, hrun₁, run_append_iff.mpr ⟨p₂, hrun₂, hrun₃⟩⟩]
        rfl
    have hresult : [] = terse d := h terse _ terse_nulFree hsession (oneRead d [] []) (by simp) hd
    cases hresult
  · intro h reply es hreply hsession e he hfree
    obtain ⟨hcommands, hsucceeds, stdin_, stdout_, hrun⟩ := hsession
    obtain ⟨p, hp, hquiet⟩ := start_quiet stdin_ stdout_
    rw [hp, Option.bind_some, Option.isSome_iff_exists] at hrun
    obtain ⟨q, hrun⟩ := hrun
    obtain ⟨n, hbefore, hafter⟩ := exists_split (fun _ => id) h
    rw [← hcommands, ← List.map_take] at hbefore
    rw [← hcommands, ← List.map_drop] at hafter
    have hin : e ∈ es.take n := by
      rw [← List.take_append_drop n es, List.mem_append] at he
      exact he.resolve_right fun hlate => hfree (hafter _ (List.mem_map_of_mem hlate))
    rw [← List.take_append_drop n es] at hrun
    obtain ⟨m, hfirst, -⟩ := run_append_iff.mp hrun
    refine (run_labels (fun s a t => exchange_of_quiet hreply) hquiet ?_ hfirst).2 e hin
    intro a ha
    exact ⟨hsucceeds a (List.mem_of_mem_take ha), hbefore _ (List.mem_map_of_mem ha)⟩

/-- A child that prints each line back. -/
def echo : Bytes → Bytes := fun l => l.filter fun c => c ≠ 0

/-- Two lines in one command, and a command after it. -/
def twoLines : List Exchange :=
  [{ command := Bytes.lit "?e a\n?e b", written := 10, reads := [.chunk (Bytes.lit "?e a" ++ [0])],
     result := Bytes.lit "?e a" },
   { command := Bytes.lit "s", written := 2, reads := [.chunk (Bytes.lit "?e b" ++ [0])],
     result := Bytes.lit "?e b" }]

/-- The command after two lines in one command gets the reply to the second of the two. -/
theorem a_second_line_takes_the_next_reply :
    NulFree echo ∧ Session echo [Bytes.lit "?e a\n?e b", Bytes.lit "s"] twoLines ∧
      ¬ Aligned echo twoLines := by
  refine ⟨fun l => by simp [echo], ⟨rfl, ?_, 3, 4, by decide⟩, ?_⟩
  · unfold Exchange.Succeeds
    decide
  · unfold Aligned
    decide

end r2sql
