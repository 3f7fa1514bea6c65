-- The mutexes of the commands: who has one, how long, and that no thread of the
-- MCP server is stuck behind one.
import R2sql.McpThreads

namespace r2sql.mcp

open runs

/-! ## Who waits for whom -/

/-- The call has the mutex of its command between two of its steps. -/
def Client.Locks : Client → Bool
  | .looping | .wait_done _ | .wait_start _ => true
  | _ => false

/-- A mutex is locked exactly where the call of its command has it. -/
def Locked (s : Server) : Prop := ∀ c, (s.cmds c).done_mutex = (s.clients c).Locks

/-- The call is between its call and its return. -/
def Client.InFlight : Client → Bool
  | .absent | .returned _ _ => false
  | _ => true

/-- The call of `stop` is between its call and its return. -/
def Stop.InFlight : Stop → Bool
  | .absent | .returned => false
  | _ => true

section
variable {s t : Server}

theorem Locked.kept (hs : Locked s) (hclients : t.clients = s.clients)
    (hcmds : ∀ c, (t.cmds c).done_mutex = (s.cmds c).done_mutex) : Locked t := by
  intro c
  rw [hcmds, hclients]
  exact hs c

/-- A call that goes on sets the flag as its place in the text says. -/
theorem Locked.moved (hs : Locked s) {d : CallId} {p : Client}
    (hclients : t.clients = (s.move d p).clients)
    (hcmds : ∀ c, c ≠ d → t.cmds c = s.cmds c) (hp : (t.cmds d).done_mutex = p.Locks) :
    Locked t := by
  intro c
  rw [hclients, Server.clients_move]
  split
  · rename_i heq
    rw [heq, hp]
  · rw [hcmds c ‹_›]
    exact hs c

theorem set_mutex_done (c : CallId) (held : Bool) :
    ((s.set_mutex c held).cmds c).done_mutex = held := by
  rw [Server.set_mutex, Server.cmds_set_cmd, if_pos rfl]

theorem done_mutex_set_cmd {c₀ : CallId} {cmd : McpPendingCommand}
    (hcmd : cmd.done_mutex = (s.cmds c₀).done_mutex) (c : CallId) :
    ((s.set_cmd c₀ cmd).cmds c).done_mutex = (s.cmds c).done_mutex := by
  rw [Server.cmds_set_cmd]
  split
  · rename_i heq
    rw [heq, hcmd]
  · rfl

theorem locked_queue_and_wait {c : CallId} (hs : Locked s) (h : s.queue_and_wait c = some t) :
    Locked t := by
  have hsame : ∀ {pc : Client} {u : Server}, u.clients = s.clients → u.cmds = s.cmds →
      (s.clients c).Locks = pc.Locks → Locked (u.move c pc) := by
    intro pc u hclients hcmds hpc
    refine hs.moved (d := c) (p := pc) ?_ (fun c' _ => congrFun hcmds c') ?_
    · rw [Server.move, Server.move, hclients]
    · exact (congrArg (fun cmds => (cmds c).done_mutex) hcmds).trans ((hs c).trans hpc)
  have hset : ∀ {pc : Client} {cmd : McpPendingCommand}, cmd.done_mutex = pc.Locks →
      Locked ((s.set_cmd c cmd).move c pc) := by
    intro pc cmd hcmd
    refine hs.moved (d := c) rfl (fun c' hne => cmds_set_cmd_ne hne) ?_
    change ((s.set_cmd c cmd).cmds c).done_mutex = pc.Locks
    rw [Server.cmds_set_cmd, if_pos rfl, hcmd]
  unfold Server.queue_and_wait at h
  cases hpc : s.clients c with
  | absent | blocked_done | blocked_start | returned => simp [hpc] at h
  | called type input =>
    simp only [hpc] at h
    split at h <;> cases h
    · exact hset rfl
    · exact hsame rfl rfl (by rw [hpc]; rfl)
  | made =>
    simp only [hpc] at h
    split at h <;> cases h
    · exact hsame rfl rfl (by rw [hpc]; rfl)
    · exact hsame rfl rfl (by rw [hpc]; rfl)
  | pushed =>
    simp only [hpc] at h
    split at h <;> cases h
    exact hset rfl
  | looping =>
    simp only [hpc] at h
    split at h <;> cases h
    · apply hsame rfl rfl
      rw [hpc]
      split <;> rfl
    · exact hset rfl
  | wait_done timed_out =>
    simp only [hpc] at h
    split at h <;> cases h
    · exact hsame rfl rfl (by rw [hpc]; rfl)
    · exact hset rfl
  | wait_start timed_out =>
    simp only [hpc] at h
    split at h
    · cases h
      exact hsame rfl rfl (by rw [hpc]; rfl)
    · split at h <;> cases h
      · exact hset rfl
      · exact hset rfl
  | erasing =>
    simp only [hpc, Option.some.injEq] at h
    subst h
    exact hsame rfl rfl (by rw [hpc]; rfl)
  | left | unfinished =>
    simp only [hpc] at h
    split at h <;> cases h <;> exact hsame rfl rfl (by rw [hpc]; rfl)

theorem locked_step {a : Action} (hs : Locked s) (h : step s a = some t) : Locked t := by
  cases a with
  | client c => exact locked_queue_and_wait hs h
  | call c type input =>
    simp only [step] at h
    split at h <;> cases h
    rename_i habsent
    refine hs.moved (d := c) rfl (fun _ _ => rfl) ?_
    exact (hs c).trans (by rw [habsent]; rfl)
  | wake c timed_out =>
    simp only [step, Server.wake] at h
    split at h
    · cases h
    · split at h <;> cases h
      all_goals
        exact hs.moved (d := c) rfl (fun _ hne => cmds_set_cmd_ne hne) (set_mutex_done c true)
  | drain =>
    refine hs.kept (running_of_run_until_stopped h).2 ?_
    simp only [step] at h
    unfold Server.run_until_stopped at h
    cases hd : s.drainer <;> simp only [hd] at h
    all_goals
      first
      | cases h
      | (split at h <;>
          first | cases h | (split at h <;> first | cases h | (split at h <;> cases h)))
    all_goals
      first
      | exact fun _ => rfl
      | exact done_mutex_set_cmd rfl
  | stop who =>
    refine hs.kept (running_of_stop h).2 ?_
    simp only [step] at h
    unfold Server.stop at h
    split at h
    · cases h
      exact fun _ => rfl
    · cases h
      exact fun _ => rfl
    · cases h
      exact fun _ => rfl
    · dsimp only at h
      split at h
      · cases h
      · split at h <;> cases h
        · exact done_mutex_set_cmd rfl
        · exact fun _ => rfl
    · cases h
  | interrupt asked =>
    simp only [step, Server.interrupt] at h
    split at h
    · split at h <;> cases h <;> exact hs
    · cases h
  | give_up | call_stop i =>
    simp only [step, Server.give_up] at h
    split at h <;> cases h
    exact hs
  | callback ending =>
    simp only [step, Server.callback] at h
    split at h <;> cases h <;> exact hs

/-! ## Who can step -/

/-- A thread can take one of these steps. -/
def CanStep (s : Server) (mine : Action → Bool) : Prop :=
  ∃ a, mine a = true ∧ (step s a).isSome = true

/-- A call can always go on. Where it sleeps, it can wake up. -/
theorem call_can_step (hs : Locked s) {c : CallId} (hc : (s.clients c).InFlight) :
    CanStep s (Action.of_call c) := by
  have hclient : (s.queue_and_wait c).isSome = true → CanStep s (Action.of_call c) :=
    fun hsome => ⟨.client c, by simp [Action.of_call], hsome⟩
  have hfree : (s.clients c).Locks = false → (s.cmds c).done_mutex = false :=
    fun hlocks => (hs c).trans hlocks
  cases hpc : s.clients c with
  | absent | returned => simp [hpc, Client.InFlight] at hc
  | blocked_done | blocked_start =>
    have hmutex := hfree (by rw [hpc]; rfl)
    exact ⟨.wake c true, by simp [Action.of_call], by simp [step, Server.wake, hpc, hmutex]⟩
  | pushed =>
    have hmutex := hfree (by rw [hpc]; rfl)
    exact hclient (by simp [Server.queue_and_wait, hpc, hmutex])
  | wait_start timed_out =>
    apply hclient
    simp only [Server.queue_and_wait, hpc]
    split
    · rfl
    · split <;> rfl
  | erasing => exact hclient (by simp [Server.queue_and_wait, hpc])
  | _ =>
    apply hclient
    simp only [Server.queue_and_wait, hpc]
    split <;> rfl

/-- The drainer can go on, or waits for the mutex of the command in its hand, or for its own call of
`stop`. -/
theorem drainer_can_step (hs : Locked s) (honce : StopsOnce s) (hd : s.drainer ≠ .finished) :
    CanStep s Action.of_drainer ∨ (∃ c ∈ s.drainer.hand, (s.clients c).Locks) ∨
      (s.stops .drainer).InFlight := by
  have hdrain : s.run_until_stopped.isSome = true → CanStep s Action.of_drainer :=
    fun hsome => ⟨.drain, rfl, hsome⟩
  cases hpc : s.drainer with
  | finished => exact absurd hpc hd
  | checking => exact Or.inl (hdrain (by simp [Server.run_until_stopped, hpc]))
  | interruptible => exact Or.inl ⟨.interrupt true, rfl, by simp [step, Server.interrupt, hpc]⟩
  | executing c => exact Or.inl ⟨.callback .escaped, rfl, by simp [step, Server.callback, hpc]⟩
  | popping =>
    left
    cases hpending : s.pending_commands_ with
    | nil => exact ⟨.give_up, rfl, by simp [step, Server.give_up, hpc, hpending]⟩
    | cons c rest => exact hdrain (by simp [Server.run_until_stopped, hpc, hpending])
  | starting c =>
    left
    apply hdrain
    simp only [Server.run_until_stopped, hpc]
    split <;> rfl
  | stopping =>
    have hcalled := (honce.resolve_left fun hother => hother.2 hpc).1
    cases hstop : s.stops .drainer with
    | absent => exact absurd hstop hcalled
    | returned => exact Or.inl (hdrain (by simp [Server.run_until_stopped, hpc, hstop]))
    | _ => exact Or.inr (Or.inr rfl)
  | admitting c | finishing c result =>
    cases hlocks : (s.clients c).Locks with
    | true => exact Or.inr (Or.inl ⟨c, by simp [Drainer.hand], hlocks⟩)
    | false =>
      left
      apply hdrain
      have hmutex : (s.cmds c).done_mutex = false := (hs c).trans hlocks
      simp only [Server.run_until_stopped, hpc, hmutex, Bool.false_eq_true, if_false]
      split <;> first | rfl | (split <;> rfl)

/-- A call of `stop` can go on, or waits for the mutex of its first command. -/
theorem stop_can_step (hs : Locked s) {who : Stopper} (hwho : (s.stops who).InFlight) :
    CanStep s (Action.of_stop who) ∨ ∃ c ∈ (s.stops who).taken, (s.clients c).Locks := by
  have hstop : (s.stop who).isSome = true → CanStep s (Action.of_stop who) :=
    fun hsome => ⟨.stop who, by simp [Action.of_stop], hsome⟩
  cases hpc : s.stops who with
  | absent | returned => simp [hpc, Stop.InFlight] at hwho
  | storing | swapping => exact Or.inl (hstop (by simp [Server.stop, hpc]))
  | completing pending =>
    cases pending with
    | nil => exact Or.inl (hstop (by simp [Server.stop, hpc]))
    | cons c rest =>
      cases hlocks : (s.clients c).Locks with
      | true => exact Or.inr ⟨c, by simp [Stop.taken], hlocks⟩
      | false =>
        left
        apply hstop
        have hmutex : (s.cmds c).done_mutex = false := (hs c).trans hlocks
        simp only [Server.stop, hpc, hmutex, Bool.false_eq_true, if_false]
        split <;> rfl

/-! ## How long a mutex is held -/

theorem cmds_of_locked {a : Action} {c : CallId} (h : step s a = some t)
    (hmutex : (s.cmds c).done_mutex = true) (ha : a.of_call c = false) :
    t.cmds c = s.cmds c := by
  have hother : ∀ {c' : CallId} {cmd : McpPendingCommand}, c ≠ c' →
      (s.set_cmd c' cmd).cmds c = s.cmds c := cmds_set_cmd_ne
  have hunlocked : ∀ {c' : CallId}, ¬ (s.cmds c').done_mutex = true → c ≠ c' := by
    rintro c' hfree rfl
    exact hfree hmutex
  cases a with
  | call c' type input | call_stop i =>
    simp only [step] at h
    split at h <;> cases h
    rfl
  | client c' =>
    have hne : c ≠ c' := fun heq => of_decide_eq_false ha heq.symm
    simp only [step] at h
    unfold Server.queue_and_wait at h
    cases hpc : s.clients c' <;> simp only [hpc] at h
    all_goals
      first
      | cases h
      | (split at h <;> first | cases h | (split at h <;> cases h))
    all_goals
      first
      | rfl
      | exact hother hne
  | wake c' timed_out =>
    simp only [step, Server.wake] at h
    split at h
    · cases h
    · rename_i hfree
      split at h <;> cases h <;> exact hother (hunlocked hfree)
  | drain =>
    simp only [step] at h
    unfold Server.run_until_stopped at h
    cases hd : s.drainer with
    | interruptible | executing | finished => simp [hd] at h
    | checking =>
      simp only [hd, Option.some.injEq] at h
      exact h ▸ rfl
    | stopping | popping | starting =>
      simp only [hd] at h
      split at h <;> cases h <;> rfl
    | admitting c' =>
      simp only [hd] at h
      split at h
      · cases h
      · rename_i hfree
        split at h
        · cases h
          exact hother (hunlocked hfree)
        · split at h <;> cases h
          · exact hother (hunlocked hfree)
          · rfl
    | finishing c' result =>
      simp only [hd] at h
      split at h
      · cases h
      · rename_i hfree
        split at h <;> cases h
        · exact hother (hunlocked hfree)
        · rfl
  | stop who =>
    simp only [step] at h
    unfold Server.stop at h
    split at h
    · cases h
      rfl
    · cases h
      rfl
    · cases h
      rfl
    · dsimp only at h
      split at h
      · cases h
      · rename_i hfree
        split at h <;> cases h
        · exact hother (hunlocked hfree)
        · rfl
    · cases h
  | interrupt asked =>
    simp only [step, Server.interrupt] at h
    split at h
    · split at h <;> cases h <;> rfl
    · cases h
  | give_up =>
    simp only [step, Server.give_up] at h
    split at h <;> cases h
    rfl
  | callback ending =>
    simp only [step, Server.callback] at h
    split at h <;> cases h <;> rfl

/-- The wait of a call is over: its command is completed, or the server has stopped. -/
def Ended (s : Server) (c : CallId) : Bool := (s.cmds c).completed || !s.running_

/-- The steps that a call takes at most before it gives its mutex back. -/
def Client.lock_to_go (ended started : Bool) : Client → Nat
  | .looping => if ended then 1 else 4
  | .wait_done timed_out => if ended then 2 else if timed_out then 5 else 3
  | .wait_start _ => if ended then 2 else if started then 5 else 3
  | _ => 0

def lock_to_go (s : Server) (c : CallId) : Nat :=
  (s.clients c).lock_to_go (Ended s c) (s.cmds c).started

theorem lock_to_go_le (s : Server) (c : CallId) : lock_to_go s c ≤ 5 := by
  unfold lock_to_go Client.lock_to_go
  split
  · split <;> decide
  · split
    · decide
    · split <;> decide
  · split
    · decide
    · split <;> decide
  · exact Nat.zero_le _

/-- The end of a wait is never further away than without it. -/
theorem Client.lock_to_go_over (pc : Client) (ended started : Bool) :
    pc.lock_to_go true started ≤ pc.lock_to_go ended started := by
  cases ended with
  | true => exact Nat.le_refl _
  | false =>
    cases pc with
    | looping => exact Nat.le_of_ble_eq_true rfl
    | wait_done | wait_start =>
      simp only [Client.lock_to_go, if_true, Bool.false_eq_true, if_false]
      split <;> decide
    | _ => exact Nat.le_refl _

theorem lock_to_go_move (c : CallId) (pc : Client) :
    lock_to_go (s.move c pc) c = pc.lock_to_go (Ended s c) (s.cmds c).started := by
  unfold lock_to_go
  rw [Server.clients_move, if_pos rfl]
  rfl

theorem lock_to_go_client {c : CallId} (hlocks : (s.clients c).Locks)
    (h : s.queue_and_wait c = some t) : lock_to_go t c < lock_to_go s c := by
  have hleft : ∀ {u : Server} {pc : Client}, pc.Locks = false → lock_to_go (u.move c pc) c = 0 := by
    intro u pc hpc
    rw [lock_to_go_move]
    cases pc <;> first | rfl | cases hpc
  unfold Server.queue_and_wait at h
  cases hpc : s.clients c with
  | looping =>
    simp only [hpc] at h
    split at h <;> cases h
    · rename_i hgoes
      have hended : Ended s c = false := by
        rw [Bool.and_eq_true, Bool.not_eq_true'] at hgoes
        simp [Ended, hgoes.1, hgoes.2]
      rw [lock_to_go_move, lock_to_go, hpc, hended]
      split
      · exact Nat.lt_succ_self 3
      · rename_i hstarted
        simp [Client.lock_to_go, hstarted]
    · rw [hleft rfl, lock_to_go, hpc]
      simp only [Client.lock_to_go]
      split <;> decide
  | wait_done timed_out =>
    simp only [hpc] at h
    split at h <;> cases h
    · rename_i hends
      rw [lock_to_go_move, lock_to_go, hpc]
      cases hended : Ended s c with
      | true => simp [Client.lock_to_go]
      | false =>
        rw [Ended, Bool.or_eq_false_iff] at hended
        have htimed_out : timed_out = true := by simpa [hended.1, hended.2] using hends
        simp [Client.lock_to_go, htimed_out]
    · rw [hleft rfl, lock_to_go, hpc]
      simp only [Client.lock_to_go]
      split
      · decide
      · split <;> decide
  | wait_start timed_out =>
    have hpos : 0 < lock_to_go s c := by
      rw [lock_to_go, hpc]
      simp only [Client.lock_to_go]
      split
      · decide
      · split <;> decide
    simp only [hpc] at h
    split at h
    · rename_i hends
      cases h
      rw [lock_to_go_move, lock_to_go, hpc]
      cases hended : Ended s c with
      | true => simp [Client.lock_to_go]
      | false =>
        rw [Ended, Bool.or_eq_false_iff] at hended
        have hstarted : (s.cmds c).started = true := by simpa [hended.1, hended.2] using hends
        simp [Client.lock_to_go, hstarted]
    · split at h <;> cases h
      · rwa [hleft rfl]
      · rwa [hleft rfl]
  | _ => simp [hpc, Client.Locks] at hlocks

theorem lock_to_go_step {a : Action} {c : CallId} (hs : Locked s) (hlocks : (s.clients c).Locks)
    (h : step s a = some t) :
    lock_to_go t c + (if a.of_call c then 1 else 0) ≤ lock_to_go s c := by
  have hmutex : (s.cmds c).done_mutex = true := (hs c).trans hlocks
  cases ha : a.of_call c with
  | false =>
    rw [if_neg Bool.false_ne_true, Nat.add_zero, lock_to_go, lock_to_go, clients_of_others h ha,
      cmds_of_locked h hmutex ha]
    by_cases hkept : t.running_ = s.running_
    · rw [Ended, Ended, hkept, cmds_of_locked h hmutex ha]
    · have hstopped : Ended t c = true := by
        have hrunning : t.running_ = false := by
          cases hs : s.running_ with
          | false => exact (others_step h).1 hs
          | true => simpa [hs] using hkept
        simp [Ended, hrunning]
      rw [hstopped]
      exact Client.lock_to_go_over _ _ _
  | true =>
    rw [if_pos rfl]
    cases a with
    | client c' =>
      obtain rfl : c' = c := of_decide_eq_true ha
      exact lock_to_go_client hlocks h
    | call c' type input =>
      obtain rfl : c' = c := of_decide_eq_true ha
      simp only [step] at h
      split at h <;> cases h
      rename_i habsent
      simp [habsent, Client.Locks] at hlocks
    | wake c' timed_out =>
      obtain rfl : c' = c := of_decide_eq_true ha
      simp only [step, Server.wake] at h
      split at h
      · cases h
      · exact absurd hmutex ‹_›
    | _ => cases ha

end

/-! ## What holds of every state -/

/-- What the steps keep about the threads. -/
structure Steady (s : Server) : Prop where
  locked : Locked s
  stops_once : StopsOnce s
  capacity : s.pending_commands_.length ≤ kMcpDefaultMaxQueue
  stops : ∀ who, (s.stops who).to_go ≤ kMcpDefaultMaxQueue + 3

theorem steady_step {s t : Server} {a : Action} (hs : Steady s) (h : step s a = some t) :
    Steady t where
  locked := locked_step hs.locked h
  stops_once := stopsOnce_step hs.stops_once h
  capacity := capacity_step hs.capacity h
  stops who :=
    (Nat.le_of_add_right_le (stops_to_go hs.capacity hs.stops_once h who)).trans (hs.stops who)

theorem steady_start (query_cb_ : Bool) : Steady (.start query_cb_) where
  locked _ := rfl
  stops_once := Or.inl ⟨rfl, nofun⟩
  capacity := Nat.zero_le _
  stops _ := Nat.le_refl _

theorem steady_of_run {query_cb_ : Bool} {as : List Action} {s : Server}
    (hrun : run step (.start query_cb_) as = some s) : Steady s :=
  run_invariant (fun _ _ _ => steady_step) (steady_start query_cb_) hrun

/-- No thread is stuck: a call can go on by itself, the drainer and a call of `stop` can go on or
wait for a mutex, and who has a mutex can go on and gives it back within five steps. -/
structure Live (s : Server) : Prop where
  calls : ∀ c, (s.clients c).InFlight → CanStep s (Action.of_call c)
  drainer : s.drainer ≠ .finished → CanStep s Action.of_drainer ∨
    (∃ c ∈ s.drainer.hand, (s.clients c).Locks) ∨ (s.stops .drainer).InFlight
  stops : ∀ who, (s.stops who).InFlight → CanStep s (Action.of_stop who) ∨
    ∃ c ∈ (s.stops who).taken, (s.clients c).Locks
  lets_go : ∀ c, ∀ bs t, Along step (fun u _ => (u.clients c).Locks) s bs →
    run step s bs = some t → bs.countP (Action.of_call c) ≤ 5

theorem lets_go_of_locked {s t : Server} (hs : Locked s) (c : CallId) {bs : List Action}
    (halong : Along step (fun u _ => (u.clients c).Locks) s bs) (hrun : run step s bs = some t) :
    bs.countP (Action.of_call c) ≤ 5 := by
  have hcount := run_rank (I := Locked) (Action.of_call c) (fun u => lock_to_go u c)
    (fun u a v hu hlocks h => ⟨locked_step hu h, lock_to_go_step hu hlocks h⟩) hs halong hrun
  have hbound := lock_to_go_le s c
  omega

/-- In every state that the server can reach, no thread is stuck. -/
theorem no_thread_is_stuck {query_cb_ : Bool} {as : List Action} {s : Server}
    (hrun : run step (.start query_cb_) as = some s) : Live s := by
  have hs := steady_of_run hrun
  exact ⟨fun c => call_can_step hs.locked, drainer_can_step hs.locked hs.stops_once,
    fun who => stop_can_step hs.locked, fun c bs t => lets_go_of_locked hs.locked c⟩

/-- A call locks its mutex when the drainer has popped its command. -/
def lockedCall : List Action :=
  [.call 0 .Query (Bytes.lit "SELECT 1"), .client 0, .client 0, .drain, .interrupt false, .drain,
    .client 0]

theorem the_drainer_waits_for_a_call :
    ∃ s, run step (.start true) lockedCall = some s ∧ s.drainer = .admitting 0 ∧
      (s.clients 0).Locks = true ∧ Live s := by
  have hsome : (run step (.start true) lockedCall).isSome = true := by decide
  obtain ⟨s, hs⟩ := Option.isSome_iff_exists.mp hsome
  have hpc : (run step (.start true) lockedCall).map
      (fun s => (s.drainer, (s.clients 0).Locks)) = some (.admitting 0, true) := by decide
  rw [hs, Option.map_some, Option.some.injEq, Prod.mk.injEq] at hpc
  exact ⟨s, hs, hpc.1, hpc.2, no_thread_is_stuck hs⟩

end r2sql.mcp
