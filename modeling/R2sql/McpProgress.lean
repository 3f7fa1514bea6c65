-- How far the threads of the MCP server have to go: what a stopped server still
-- does, and how long a command waits in the queue.
import R2sql.McpMutexes

namespace r2sql.mcp

open runs

/-! ## A server that has stopped -/

/-- The steps that a call takes at most, once the server has stopped. -/
def Client.to_go : Client → Nat
  | .returned _ _ => 0
  | .called _ _ | .erasing | .unfinished => 1
  | .absent | .left => 2
  | .looping => 3
  | .pushed | .wait_done _ | .wait_start _ => 4
  | .made | .blocked_done | .blocked_start => 5

/-- The steps that the drainer takes at most, once the server has stopped. -/
def Drainer.to_go : Drainer → Nat
  | .finished => 0
  | .checking | .stopping => 1
  | .finishing _ _ => 2
  | .executing _ => 3
  | .starting _ => 4
  | .admitting _ => 5
  | .popping => 6
  | .interruptible => 7

/-- The callbacks that the drainer begins at most, once the server has stopped. -/
def Drainer.to_begin : Drainer → Nat
  | .interruptible | .popping | .admitting _ | .starting _ => 1
  | _ => 0

/-- On a stopped server, each step of a call brings it closer to its return. -/
theorem call_to_go {s t : Server} {c : CallId} (hstopped : s.running_ = false)
    (h : s.queue_and_wait c = some t) : (t.clients c).to_go < (s.clients c).to_go := by
  have hmoved : ∀ {u : Server} {pc : Client}, pc.to_go < (s.clients c).to_go →
      ((u.move c pc).clients c).to_go < (s.clients c).to_go := by
    intro u pc hpc
    rwa [Server.clients_move, if_pos rfl]
  unfold Server.queue_and_wait at h
  cases hpc : s.clients c with
  | absent | blocked_done | blocked_start | returned => simp [hpc] at h
  | called type input =>
    simp only [hpc, hstopped] at h
    cases h
    exact hpc ▸ hmoved (by rw [hpc]; exact Nat.zero_lt_one)
  | made =>
    simp only [hpc] at h
    split at h <;> cases h <;> exact hpc ▸ hmoved (by rw [hpc]; simp [Client.to_go])
  | pushed =>
    simp only [hpc] at h
    split at h <;> cases h
    exact hpc ▸ hmoved (by rw [hpc]; decide)
  | looping =>
    simp only [hpc, hstopped, Bool.and_false] at h
    cases h
    exact hpc ▸ hmoved (by rw [hpc]; decide)
  | wait_done timed_out | wait_start timed_out =>
    simp only [hpc, hstopped, Bool.not_false, Bool.or_true, Bool.true_or, if_true,
      Option.some.injEq] at h
    subst h
    exact hpc ▸ hmoved (by rw [hpc]; simp [Client.to_go])
  | erasing =>
    simp only [hpc, Option.some.injEq] at h
    subst h
    exact hpc ▸ hmoved (by rw [hpc]; simp [Client.to_go])
  | left | unfinished =>
    simp only [hpc] at h
    split at h <;> cases h <;> exact hpc ▸ hmoved (by rw [hpc]; simp [Client.to_go])

theorem clients_to_go {s t : Server} {a : Action} (hstopped : s.running_ = false) (c : CallId)
    (h : step s a = some t) :
    (t.clients c).to_go + (if a.of_call c then 1 else 0) ≤ (s.clients c).to_go := by
  cases ha : a.of_call c with
  | false => rw [clients_of_others h ha, if_neg Bool.false_ne_true, Nat.add_zero]
  | true =>
    rw [if_pos rfl]
    cases a with
    | call c' type input =>
      obtain rfl : c' = c := of_decide_eq_true ha
      simp only [step] at h
      split at h <;> cases h
      rename_i habsent
      rw [Server.clients_move, if_pos rfl, habsent]
      exact Nat.le_refl _
    | client c' =>
      obtain rfl : c' = c := of_decide_eq_true ha
      exact call_to_go hstopped h
    | wake c' timed_out =>
      obtain rfl : c' = c := of_decide_eq_true ha
      simp only [step, Server.wake] at h
      split at h
      · cases h
      · split at h <;> cases h
        all_goals
          rename_i hpc
          rw [Server.clients_move, if_pos rfl, hpc]
          exact Nat.le_refl _
    | _ => cases ha

theorem drainer_to_go {s t : Server} {a : Action} (hstopped : s.running_ = false)
    (h : step s a = some t) :
    t.drainer.to_go + (if a.of_drainer then 1 else 0) ≤ s.drainer.to_go := by
  have hturn := drainerTurn_of_step h
  cases ha : a.of_drainer with
  | false =>
    rw [ha, if_neg Bool.false_ne_true] at hturn
    rw [hturn.1, if_neg Bool.false_ne_true, Nat.add_zero]
  | true =>
    rw [ha, if_pos rfl] at hturn
    rw [if_pos rfl]
    cases hturn with
    | checked hd hd' =>
      rw [hd, hd', hstopped]
      exact Nat.le_refl _
    | _ =>
      rename_i hd hd' _ _
      simp [hd, hd', Drainer.to_go]

theorem begun_to_go {s t : Server} {a : Action} (hstopped : s.running_ = false)
    (h : step s a = some t) :
    s.begun <+: t.begun ∧
      t.begun.length + t.drainer.to_begin ≤ s.begun.length + s.drainer.to_begin := by
  have hturn := drainerTurn_of_step h
  split at hturn
  · cases hturn with
    | checked hd hd' hpending hbegun =>
      rw [hd, hd', hbegun, hstopped]
      exact ⟨List.prefix_refl _, Nat.le_refl _⟩
    | begins hd hd' hpending hbegun =>
      rw [hd, hd', hbegun, List.length_append]
      exact ⟨List.prefix_append _ _, Nat.le_refl _⟩
    | _ =>
      rename_i hd hd' _ hbegun
      rw [hd, hd', hbegun]
      exact ⟨List.prefix_refl _, by simp [Drainer.to_begin]⟩
  · rw [hturn.1, hturn.2.1]
    exact ⟨List.prefix_refl _, Nat.le_refl _⟩

/-! ## After a stop -/

/-- A stopped server comes to rest: from here a call takes at most five steps before it has
returned, the drainer at most seven before it has ended, a call of `stop` at most 67 before it has
returned, and at most one more callback begins. -/
structure ComesToRest (s : Server) (bs : List Action) (t : Server) : Prop where
  calls : ∀ c, bs.countP (Action.of_call c) ≤ 5 ∧
    (bs.countP (Action.of_call c) = 5 → ∃ b r, t.clients c = .returned b r)
  drainer : bs.countP Action.of_drainer ≤ 7 ∧
    (bs.countP Action.of_drainer = 7 → t.drainer = .finished)
  stops : ∀ who, bs.countP (Action.of_stop who) ≤ 67 ∧
    (bs.countP (Action.of_stop who) = 67 → t.stops who = .returned)
  begun : ∃ more, t.begun = s.begun ++ more ∧ more.length ≤ 1

theorem Client.to_go_le (pc : Client) : pc.to_go ≤ 5 := by
  cases pc <;> simp [Client.to_go]

theorem Client.returned_of_to_go {pc : Client} (h : pc.to_go = 0) : ∃ b r, pc = .returned b r := by
  cases pc with
  | returned b r => exact ⟨b, r, rfl⟩
  | _ => cases h

theorem Drainer.to_go_le (d : Drainer) : d.to_go ≤ 7 := by
  cases d <;> simp [Drainer.to_go]

theorem Drainer.finished_of_to_go {d : Drainer} (h : d.to_go = 0) : d = .finished := by
  cases d with
  | finished => rfl
  | _ => cases h

theorem Stop.returned_of_to_go {pc : Stop} (h : pc.to_go = 0) : pc = .returned := by
  cases pc with
  | returned => rfl
  | _ => cases h

/-- A bound on the steps that a thread has taken, from what it has to go before and after. -/
theorem bound_of_to_go {n before after count : Nat} (hcount : after + count ≤ before)
    (hbefore : before ≤ n) : count ≤ n ∧ (count = n → after = 0) := by
  omega

/-- Once the server has stopped, every thread is close to its end. -/
theorem a_stopped_server_comes_to_rest {query_cb_ : Bool} {as bs : List Action} {s t : Server}
    (hrun : run step (.start query_cb_) as = some s) (hstopped : s.running_ = false)
    (hlater : run step s bs = some t) : ComesToRest s bs t := by
  have hs := steady_of_run hrun
  have halong : Along step (fun _ _ => True) s bs := along_of_forall (fun _ _ => trivial) s bs
  have hkept : ∀ {u v : Server} {a : Action}, u.running_ = false → step u a = some v →
      v.running_ = false := fun hu h => (others_step h).1 hu
  refine ⟨fun c => ?_, ?_, fun who => ?_, ?_⟩
  · have hcount := run_rank (I := fun u => u.running_ = false) (Action.of_call c)
      (fun u => (u.clients c).to_go)
      (fun u a v hu _ h => ⟨hkept hu h, clients_to_go hu c h⟩) hstopped halong hlater
    obtain ⟨hle, hend⟩ := bound_of_to_go hcount (s.clients c).to_go_le
    exact ⟨hle, fun heq => Client.returned_of_to_go (hend heq)⟩
  · have hcount := run_rank (I := fun u => u.running_ = false) Action.of_drainer
      (fun u => u.drainer.to_go)
      (fun u a v hu _ h => ⟨hkept hu h, drainer_to_go hu h⟩) hstopped halong hlater
    obtain ⟨hle, hend⟩ := bound_of_to_go hcount s.drainer.to_go_le
    exact ⟨hle, fun heq => Drainer.finished_of_to_go (hend heq)⟩
  · have hcount := run_rank (I := Steady) (Action.of_stop who) (fun u => (u.stops who).to_go)
      (fun u a v hu _ h => ⟨steady_step hu h, stops_to_go hu.capacity hu.stops_once h who⟩) hs
      halong hlater
    obtain ⟨hle, hend⟩ := bound_of_to_go hcount (hs.stops who)
    exact ⟨hle, fun heq => Stop.returned_of_to_go (hend heq)⟩
  · have hbegun : s.begun <+: t.begun ∧ t.running_ = false ∧
        t.begun.length + t.drainer.to_begin ≤ s.begun.length + s.drainer.to_begin := by
      refine run_invariant (I := fun u => s.begun <+: u.begun ∧ u.running_ = false ∧
        u.begun.length + u.drainer.to_begin ≤ s.begun.length + s.drainer.to_begin) ?_
        ⟨List.prefix_refl _, hstopped, Nat.le_refl _⟩ hlater
      rintro u a v ⟨hstart, hu, hle⟩ h
      obtain ⟨hmore, hless⟩ := begun_to_go hu h
      exact ⟨hstart.trans hmore, hkept hu h, hless.trans hle⟩
    obtain ⟨⟨more, hmore⟩, -, hle⟩ := hbegun
    refine ⟨more, hmore.symm, ?_⟩
    have hone : s.drainer.to_begin ≤ 1 := by
      cases s.drainer <;> simp [Drainer.to_begin]
    rw [← hmore, List.length_append] at hle
    omega

/-- A server that stops while a command is in its queue. -/
def stoppedQueue : List Action :=
  [.call 0 .Query (Bytes.lit "SELECT 1"), .client 0, .client 0, .call_stop 0, .stop (.caller 0)]

/-- The steps of the call, of the drainer and of the call of `stop` after that. -/
def afterStop : List Action :=
  [.client 0, .drain, .client 0, .stop (.caller 0), .client 0, .stop (.caller 0), .client 0,
    .stop (.caller 0)]

theorem a_stopped_queue_comes_to_rest :
    ∃ s t, run step (.start true) stoppedQueue = some s ∧ run step s afterStop = some t ∧
      t.drainer = .finished ∧ ComesToRest s afterStop t := by
  have hsome : (run step (.start true) (stoppedQueue ++ afterStop)).isSome = true := by decide
  obtain ⟨t, ht⟩ := Option.isSome_iff_exists.mp hsome
  obtain ⟨s, hs, hst⟩ := run_append_iff.mp ht
  have hrunning : (run step (.start true) stoppedQueue).map Server.running_ = some false := by
    decide
  have hd : (run step (.start true) (stoppedQueue ++ afterStop)).map Server.drainer =
      some .finished := by decide
  rw [hs, Option.map_some, Option.some.injEq] at hrunning
  rw [ht, Option.map_some, Option.some.injEq] at hd
  exact ⟨s, t, hs, hst, hd, a_stopped_server_comes_to_rest hs hrunning hst⟩

/-! ## In the queue -/

/-- The steps of the drainer until it pops a command or ends, at most. -/
def Drainer.to_pop : Drainer → Nat
  | .finished => 0
  | .stopping | .popping => 1
  | .interruptible => 2
  | .checking => 3
  | .finishing _ _ => 4
  | .executing _ => 5
  | .starting _ => 6
  | .admitting _ => 7

/-- The steps of the drainer until it pops the command, at most. -/
def to_pop (c : CallId) (s : Server) : Nat :=
  if c ∈ s.pending_commands_ then 8 * s.pending_commands_.idxOf c + s.drainer.to_pop else 0

theorem idxOf_erase_le {c d : CallId} (hne : c ≠ d) (l : List CallId) :
    (l.erase d).idxOf c ≤ l.idxOf c := by
  induction l with
  | nil => exact Nat.le_refl _
  | cons a l ih =>
    by_cases ha : a = d
    · subst ha
      rw [List.erase_cons_head, List.idxOf_cons_ne _ (Ne.symm hne)]
      exact Nat.le_succ _
    · rw [List.erase_cons_tail (by simpa using ha), List.idxOf_cons, List.idxOf_cons]
      cases a == c with
      | true => exact Nat.le_refl _
      | false => exact Nat.succ_le_succ ih

theorem to_pop_le (c : CallId) (s : Server) :
    to_pop c s ≤ 8 * s.pending_commands_.idxOf c + 7 := by
  have hd : s.drainer.to_pop ≤ 7 := by
    cases s.drainer <;> simp [Drainer.to_pop]
  unfold to_pop
  split
  · omega
  · exact Nat.zero_le _

theorem place_step {s t : Server} {a : Action} (hflow : Flow s) {c : CallId}
    (hc : c ∈ s.pending_commands_) (hc' : c ∈ t.pending_commands_) (h : step s a = some t) :
    t.pending_commands_.idxOf c ≤ s.pending_commands_.idxOf c := by
  have hnodup : s.pending_commands_.Nodup :=
    (List.nodup_append.mp (hflow.begun.nodup hflow.pushed_nodup)).2.1
  cases moves_of_step h with
  | stay hpushed hpending | drop hdrainer hpushed hpending => rw [hpending]
  | push hpc hroom hpushed hpending => rw [hpending, List.idxOf_append_of_mem hc]
  | @expire d hpushed hpending =>
    rw [hpending] at hc' ⊢
    apply idxOf_erase_le
    rintro rfl
    exact hnodup.not_mem_erase hc'
  | @pop d hpushed hpending =>
    rw [hpending] at hnodup
    have hne : d ≠ c := by
      rintro rfl
      exact (List.nodup_cons.mp hnodup).1 hc'
    rw [hpending, List.idxOf_cons_ne _ hne]
    exact Nat.le_succ _
  | swap hpushed hpending =>
    rw [hpending] at hc'
    cases hc'

theorem to_pop_step {s t : Server} {a : Action} (hflow : Flow s) {c : CallId}
    (hc : c ∈ s.pending_commands_) (h : step s a = some t) :
    to_pop c t + (if a.of_drainer then 1 else 0) ≤ to_pop c s := by
  have hturn := drainerTurn_of_step h
  have hplace := fun hc' => place_step hflow hc hc' h
  unfold to_pop
  rw [if_pos hc]
  cases ha : a.of_drainer with
  | false =>
    rw [ha, if_neg Bool.false_ne_true] at hturn
    rw [if_neg Bool.false_ne_true, hturn.1]
    split
    · have := hplace ‹_›
      omega
    · omega
  | true =>
    rw [ha, if_pos rfl] at hturn
    rw [if_pos rfl]
    cases hturn with
    | gives_up hempty =>
      rw [hempty] at hc
      cases hc
    | @pops d hd hd' hpending =>
      rw [hd, hd']
      split
      · rename_i hc'
        have hnodup : s.pending_commands_.Nodup :=
          (List.nodup_append.mp (hflow.begun.nodup hflow.pushed_nodup)).2.1
        rw [hpending] at hnodup
        have hne : d ≠ c := by
          rintro rfl
          exact (List.nodup_cons.mp hnodup).1 hc'
        rw [hpending, List.idxOf_cons_ne _ hne]
        simp only [Drainer.to_pop]
        omega
      · simp only [Drainer.to_pop]
        omega
    | checked hd hd' hpending =>
      rw [hd, hd', hpending, if_pos hc]
      split <;> simp [Drainer.to_pop]
    | stops hstops hd hd' hpending =>
      rw [hd, hd', hpending, if_pos hc]
      exact Nat.le_refl _
    | _ =>
      rename_i hd hd' hpending _
      rw [hd, hd', hpending, if_pos hc]
      simp only [Drainer.to_pop]
      omega

/-- As long as a command is in the queue, the drainer takes at most eight steps for each command
before it, and seven more. -/
theorem a_command_waits_for_those_before_it {query_cb_ : Bool} {as bs : List Action}
    {s t : Server} (hrun : run step (.start query_cb_) as = some s) {c : CallId}
    (hwaits : Along step (fun u _ => c ∈ u.pending_commands_) s bs)
    (hlater : run step s bs = some t) :
    bs.countP Action.of_drainer ≤ 8 * s.pending_commands_.idxOf c + 7 := by
  have hflow := (sound_of_run hrun).flow
  have hcount := run_rank (I := Flow) Action.of_drainer (to_pop c)
    (fun u a v hu hc h => ⟨flow_step hu h, to_pop_step hu hc h⟩) hflow hwaits hlater
  have hbound := to_pop_le c s
  omega

/-- Two commands in the queue. -/
def twoCalls : List Action :=
  [.call 0 .Query (Bytes.lit "SELECT 1"), .client 0, .client 0,
    .call 1 .Query (Bytes.lit "SELECT 2"), .client 1, .client 1]

/-- The drainer pops and admits the first one. -/
def firstPopped : List Action := [.drain, .interrupt false, .drain, .drain, .drain]

theorem the_second_command_waits_for_the_first :
    ∃ s, run step (.start true) twoCalls = some s ∧ s.pending_commands_ = [0, 1] ∧
      firstPopped.countP Action.of_drainer ≤ 8 * [0, 1].idxOf 1 + 7 := by
  have hsome : (run step (.start true) (twoCalls ++ firstPopped)).isSome = true := by decide
  obtain ⟨t, ht⟩ := Option.isSome_iff_exists.mp hsome
  obtain ⟨s, hs, hst⟩ := run_append_iff.mp ht
  have hpending : (run step (.start true) twoCalls).map Server.pending_commands_ =
      some [0, 1] := by decide
  have hwaits : (run step (.start true) twoCalls).map
      (fun s => alongTest step (fun u _ => decide (1 ∈ u.pending_commands_)) s firstPopped) =
        some true := by decide
  rw [hs, Option.map_some, Option.some.injEq] at hpending hwaits
  have hbound := a_command_waits_for_those_before_it (c := 1) hs
    (along_of_test (fun _ _ => of_decide_eq_true) hwaits) hst
  rw [hpending] at hbound
  exact ⟨s, hs, hpending, hbound⟩

end r2sql.mcp
