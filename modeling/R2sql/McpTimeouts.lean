-- What becomes of a command whose call timed out: its callback has not begun
-- before the call returns, and does not begin after it.
import R2sql.McpReturns

namespace r2sql.mcp

open runs

/-! ## The way out of a wait -/

/-- The text that a return other than the last one gives. -/
def Branch.text : Branch → Bytes
  | .not_running => Bytes.lit "Error: MCP server is not running"
  | .full => Bytes.lit "Error: MCP queue is full"
  | .timed_out | .unfinished => Bytes.lit "Error: MCP request timed out in queue"
  | .stopped => Bytes.lit "Error: MCP server stopped"
  | .completed => []

/-- The call has left its wait. -/
def Client.Outside : Client → Bool
  | .left | .unfinished | .returned _ _ => true
  | _ => false

/-- What a step of a call does to the server and to its own place in the text. -/
structure ClientTurn (s : Server) (c : CallId) (t : Server) : Prop where
  running : t.running_ = s.running_
  others : ∀ c', c' ≠ c → t.clients c' = s.clients c'
  left : t.clients c = .left → (t.cmds c).completed = true ∨ t.running_ = false
  unfinished : t.clients c = .unfinished → s.clients c = .left ∧ (s.cmds c).completed = false
  returned : ∀ r, t.clients c = .returned .unfinished r →
    s.clients c = .unfinished ∧ s.running_ = true
  text : ∀ b r, t.clients c = .returned b r → b ≠ .completed → r.payload = b.text

theorem ClientTurn.moved {s t : Server} {c : CallId} {pc : Client}
    (hrunning : t.running_ = s.running_) (hclients : t.clients = s.clients) (hleft : pc ≠ .left)
    (hunfinished : pc ≠ .unfinished) (hreturned : ∀ r, pc ≠ .returned .unfinished r)
    (htext : ∀ b r, pc = .returned b r → b ≠ .completed → r.payload = b.text) :
    ClientTurn s c (t.move c pc) := by
  have hpc : (t.move c pc).clients c = pc := by rw [Server.clients_move, if_pos rfl]
  refine ⟨hrunning, fun c' hne => ?_, fun h => absurd (hpc ▸ h) hleft,
    fun h => absurd (hpc ▸ h) hunfinished, fun r h => absurd (hpc ▸ h) (hreturned r),
    fun b r h => htext b r (hpc ▸ h)⟩
  rw [Server.clients_move, if_neg hne, hclients]

theorem ClientTurn.moved_within {s t : Server} {c : CallId} {pc : Client}
    (hrunning : t.running_ = s.running_) (hclients : t.clients = s.clients)
    (hwithin : pc.Outside = false) : ClientTurn s c (t.move c pc) := by
  apply ClientTurn.moved hrunning hclients
  · rintro rfl
    cases hwithin
  · rintro rfl
    cases hwithin
  · rintro r rfl
    cases hwithin
  · rintro b r rfl
    cases hwithin

theorem ClientTurn.moved_returned {s t : Server} {c : CallId} {b : Branch} {r : McpQueueResult}
    (hrunning : t.running_ = s.running_) (hclients : t.clients = s.clients)
    (hbranch : b ≠ .unfinished) (htext : b ≠ .completed → r.payload = b.text) :
    ClientTurn s c (t.move c (.returned b r)) := by
  apply ClientTurn.moved hrunning hclients
  · simp
  · simp
  · simp [hbranch]
  · rintro _ _ ⟨⟩
    exact htext

theorem turn_of_queue_and_wait {s t : Server} {c : CallId} (h : s.queue_and_wait c = some t) :
    ClientTurn s c t := by
  unfold Server.queue_and_wait at h
  cases hpc : s.clients c with
  | absent | blocked_done | blocked_start | returned => simp [hpc] at h
  | called | made | pushed | wait_done =>
    simp only [hpc] at h
    split at h <;> cases h
    all_goals
      first
      | exact .moved_within rfl rfl rfl
      | exact .moved_returned rfl rfl (by simp) fun _ => rfl
  | looping =>
    simp only [hpc] at h
    split at h <;> cases h
    · split <;> exact .moved_within rfl rfl rfl
    · rename_i hexit
      refine ⟨rfl, fun c' hne => Function.update_of_ne hne _ _, fun _ => ?_, ?_, ?_, ?_⟩
      · simpa [Server.move, Server.set_mutex, Server.set_cmd, imp_iff_not_or] using hexit
      all_goals simp [Server.move]
  | wait_start timed_out =>
    simp only [hpc] at h
    split at h
    · cases h
      exact .moved_within rfl rfl rfl
    · split at h <;> cases h <;> exact .moved_within rfl rfl rfl
  | erasing =>
    simp only [hpc, Option.some.injEq] at h
    subst h
    exact .moved_returned rfl rfl (by simp) fun _ => rfl
  | left =>
    simp only [hpc] at h
    split at h <;> cases h
    · exact .moved_returned rfl rfl (by simp) fun hb => absurd rfl hb
    · rename_i hcompleted
      refine ⟨rfl, fun c' hne => Function.update_of_ne hne _ _, ?_, fun _ => ⟨hpc, ?_⟩, ?_, ?_⟩
      · simp [Server.move]
      · simpa using hcompleted
      all_goals simp [Server.move]
  | unfinished =>
    simp only [hpc] at h
    split at h <;> cases h
    · exact .moved_returned rfl rfl (by simp) fun _ => rfl
    · rename_i hrunning
      refine ⟨rfl, fun c' hne => Function.update_of_ne hne _ _, ?_, ?_, fun _ _ => ⟨hpc, ?_⟩,
        fun b r hr _ => ?_⟩
      · simp [Server.move]
      · simp [Server.move]
      · simpa using hrunning
      · rw [Server.clients_move, if_pos rfl] at hr
        cases hr
        rfl

/-! ## A server that stopped stays stopped -/

theorem running_of_run_until_stopped {s t : Server} (h : s.run_until_stopped = some t) :
    t.running_ = s.running_ ∧ t.clients = s.clients := by
  unfold Server.run_until_stopped at h
  cases hd : s.drainer with
  | interruptible | executing | finished => simp [hd] at h
  | checking =>
    simp only [hd, Option.some.injEq] at h
    exact h ▸ ⟨rfl, rfl⟩
  | stopping | popping | starting =>
    simp only [hd] at h
    split at h <;> cases h <;> exact ⟨rfl, rfl⟩
  | admitting =>
    simp only [hd] at h
    split at h
    · cases h
    · split at h
      · cases h
        exact ⟨rfl, rfl⟩
      · split at h <;> cases h <;> exact ⟨rfl, rfl⟩
  | finishing =>
    simp only [hd] at h
    split at h
    · cases h
    · split at h <;> cases h <;> exact ⟨rfl, rfl⟩

theorem running_of_stop {s t : Server} {who : Stopper} (h : s.stop who = some t) :
    (t.running_ = s.running_ ∨ t.running_ = false) ∧ t.clients = s.clients := by
  unfold Server.stop at h
  split at h
  · cases h
    exact ⟨Or.inr rfl, rfl⟩
  · cases h
    exact ⟨Or.inl rfl, rfl⟩
  · cases h
    exact ⟨Or.inl rfl, rfl⟩
  · dsimp only at h
    split at h
    · cases h
    · split at h <;> cases h <;> exact ⟨Or.inl rfl, rfl⟩
  · cases h

/-- Nothing starts the server again, and a call leaves its wait by a step of its own. -/
theorem others_step {s t : Server} {a : Action} (h : step s a = some t) :
    (s.running_ = false → t.running_ = false) ∧ ∀ c, a = .client c ∨
      ((t.clients c).Outside → s.clients c = t.clients c) := by
  have hrun : ∀ {u : Server}, u.running_ = s.running_ ∨ u.running_ = false →
      s.running_ = false → u.running_ = false :=
    fun hu hq => hu.elim (fun hkept => hkept.trans hq) id
  cases a with
  | call c₀ type input =>
    simp only [step] at h
    split at h <;> cases h
    refine ⟨id, fun c => Or.inr ?_⟩
    rw [Server.clients_move]
    split
    · exact fun hout => absurd hout Bool.false_ne_true
    · exact fun _ => rfl
  | client c₀ =>
    have hturn := turn_of_queue_and_wait h
    refine ⟨hrun (Or.inl hturn.running), fun c => ?_⟩
    by_cases h0 : c = c₀
    · exact Or.inl (h0 ▸ rfl)
    · exact Or.inr fun _ => (hturn.others c h0).symm
  | wake c₀ timed_out =>
    simp only [step, Server.wake] at h
    split at h
    · cases h
    · split at h <;> cases h
      all_goals
        refine ⟨id, fun c => Or.inr ?_⟩
        rw [Server.clients_move]
        split
        · exact fun hout => absurd hout Bool.false_ne_true
        · exact fun _ => rfl
  | drain =>
    obtain ⟨hrunning, hclients⟩ := running_of_run_until_stopped h
    exact ⟨hrun (Or.inl hrunning), fun c => Or.inr fun _ => (congrFun hclients c).symm⟩
  | stop who =>
    obtain ⟨hrunning, hclients⟩ := running_of_stop h
    exact ⟨hrun hrunning, fun c => Or.inr fun _ => (congrFun hclients c).symm⟩
  | interrupt asked =>
    simp only [step, Server.interrupt] at h
    split at h
    · split at h <;> cases h <;> exact ⟨id, fun c => Or.inr fun _ => rfl⟩
    · cases h
  | give_up | call_stop i =>
    simp only [step, Server.give_up] at h
    split at h <;> cases h
    exact ⟨id, fun c => Or.inr fun _ => rfl⟩
  | callback ending =>
    simp only [step, Server.callback] at h
    split at h <;> cases h <;> exact ⟨id, fun c => Or.inr fun _ => rfl⟩

theorem completed_step {s t : Server} {a : Action} (h : step s a = some t) {c : CallId}
    (hmade : ∀ type input, s.clients c ≠ .called type input)
    (hcompleted : (s.cmds c).completed = true) : (t.cmds c).completed = true := by
  have hset : ∀ (c₀ : CallId) (cmd : McpPendingCommand),
      ((s.cmds c₀).completed = true → cmd.completed = true) →
      ((s.set_cmd c₀ cmd).cmds c).completed = true := by
    intro c₀ cmd hcmd
    rw [Server.cmds_set_cmd]
    split
    · rename_i h0
      exact hcmd (h0 ▸ hcompleted)
    · exact hcompleted
  cases effect_of_step h with
  | @make c₀ type input hpc =>
    have h0 : c ≠ c₀ := by
      rintro rfl
      exact hmade type input hpc
    have hcmd : ((s.set_cmd c₀ (.make type input)).cmds c) = s.cmds c := by
      rw [Server.cmds_set_cmd, if_neg h0]
    exact (congrArg McpPendingCommand.completed hcmd).trans hcompleted
  | wait held | cancel | allow => exact hset _ _ id
  | reject | finish | complete => exact hset _ _ fun _ => rfl
  | _ => exact hcompleted

/-- Where a call is that left its wait: its command is completed or the server stopped, so the last
return of its text, with the text of a timeout, is never taken. -/
structure Exits (s : Server) : Prop where
  left : ∀ c, s.clients c = .left → (s.cmds c).completed = true ∨ s.running_ = false
  unfinished : ∀ c, s.clients c = .unfinished → s.running_ = false
  returned : ∀ c r, s.clients c ≠ .returned .unfinished r
  text : ∀ c b r, s.clients c = .returned b r → b ≠ .completed → r.payload = b.text

theorem exits_start (query_cb_ : Bool) : Exits (.start query_cb_) := ⟨nofun, nofun, nofun, nofun⟩

theorem exits_step {s t : Server} {a : Action} (hs : Exits s) (h : step s a = some t) :
    Exits t := by
  obtain ⟨hstopped, hothers⟩ := others_step h
  constructor
  · intro c hc
    rcases hothers c with rfl | hsame
    · exact (turn_of_queue_and_wait h).left hc
    · have hbefore : s.clients c = .left := (hsame (by rw [hc]; rfl)).trans hc
      exact (hs.left c hbefore).imp (completed_step h (by simp [hbefore])) hstopped
  · intro c hc
    rcases hothers c with rfl | hsame
    · have hturn := turn_of_queue_and_wait h
      obtain ⟨hleft, hcompleted⟩ := hturn.unfinished hc
      have hdone := (hs.left c hleft).resolve_left (by rw [hcompleted]; exact Bool.false_ne_true)
      exact hstopped hdone
    · exact hstopped (hs.unfinished c ((hsame (by rw [hc]; rfl)).trans hc))
  · intro c r hc
    rcases hothers c with rfl | hsame
    · obtain ⟨hunfinished, hrunning⟩ := (turn_of_queue_and_wait h).returned r hc
      rw [hs.unfinished c hunfinished] at hrunning
      cases hrunning
    · exact hs.returned c r ((hsame (by rw [hc]; rfl)).trans hc)
  · intro c b r hc
    rcases hothers c with rfl | hsame
    · exact (turn_of_queue_and_wait h).text b r hc
    · exact hs.text c b r ((hsame (by rw [hc]; rfl)).trans hc)

/-! ## Callbacks begin for started commands -/

/-- A command whose callback has begun is started. -/
def StartedBegun (s : Server) : Prop := ∀ e ∈ s.begun, (s.cmds e.1).started = true

theorem startedBegun_step {s t : Server} {a : Action} (hflow : Flow s) (hdecided : Decided s)
    (hs : StartedBegun s) (h : step s a = some t) : StartedBegun t := by
  have hset : ∀ (c₀ : CallId) (cmd : McpPendingCommand),
      ((s.cmds c₀).started = true → cmd.started = true) →
      ∀ e ∈ s.begun, ((s.set_cmd c₀ cmd).cmds e.1).started = true := by
    intro c₀ cmd hcmd e he
    rw [Server.cmds_set_cmd]
    split
    · rename_i h0
      exact hcmd (h0 ▸ hs e he)
    · exact hs e he
  cases effect_of_step h with
  | @make c₀ type input hpc =>
    intro e he
    have hpushed : e.1 ∈ s.pushed := by
      apply hflow.begun.subset
      rw [List.append_assoc]
      exact List.mem_append_left _ (List.mem_map_of_mem he)
    have h0 : e.1 ≠ c₀ := by
      rintro rfl
      rw [hflow.pushed_iff, hpc] at hpushed
      cases hpushed
    have hcmd : ((s.set_cmd c₀ (.make type input)).cmds e.1) = s.cmds e.1 := by
      rw [Server.cmds_set_cmd, if_neg h0]
    exact (congrArg McpPendingCommand.started hcmd).trans (hs e he)
  | wait held | cancel | reject | finish | complete => exact hset _ _ id
  | allow => exact hset _ _ fun _ => rfl
  | @begin a c₀ hd hcb =>
    intro e he
    rcases List.mem_append.mp he with he | he
    · exact hs e he
    · rw [List.mem_singleton.mp he]
      exact hdecided.starting_started c₀ hd
  | _ => exact hs

/-! ## The law -/

/-- All that the steps keep about timeouts. -/
structure Timely (s : Server) : Prop where
  sound : Sound s
  decided : Decided s
  exits : Exits s
  begun : StartedBegun s

theorem timely_start (query_cb_ : Bool) : Timely (.start query_cb_) :=
  ⟨sound_start query_cb_, decided_start query_cb_, exits_start query_cb_, nofun⟩

theorem timely_step {s t : Server} {a : Action} (hs : Timely s) (h : step s a = some t) :
    Timely t where
  sound := sound_step hs.sound h
  decided := decided_step hs.sound.flow hs.decided h
  exits := exits_step hs.exits h
  begun := startedBegun_step hs.sound.flow hs.decided hs.begun h

/-- A call that timed out has a canceled command, so no callback has begun for it. -/
theorem not_begun_of_timed_out {s : Server} (hs : Timely s) {c : CallId} {r : McpQueueResult}
    (hc : s.clients c = .returned .timed_out r) : c ∉ s.begun.map Prod.fst := by
  intro hmem
  obtain ⟨e, he, rfl⟩ := List.mem_map.mp hmem
  have hcanceled := hs.decided.timed_out_canceled e.1 (by rw [hc]; rfl)
  rw [hs.decided.started_live e.1 (hs.begun e he)] at hcanceled
  cases hcanceled

/-- The text of a call that timed out. -/
def timed_out_text : Bytes := Bytes.lit "Error: MCP request timed out in queue"

/-- A call that returns that text timed out, or its callback gave the text. -/
theorem timed_out_of_text {s : Server} (hs : Timely s) {c : CallId} {b : Branch}
    {r : McpQueueResult} (hc : s.clients c = .returned b r) (htext : r.payload = timed_out_text) :
    b = .timed_out ∨ b = .completed ∧ (c, timed_out_text) ∈ s.produced := by
  cases b with
  | timed_out => exact Or.inl rfl
  | completed =>
    right
    obtain ⟨hdone, rfl⟩ := (hs.sound.owns c).answered r hc
    have hresult : (s.cmds c).result = timed_out_text := htext
    rcases (hs.sound.owns c).result hdone with hcanceled | hstopped | hproduced
    · have hq := (hs.sound.owns c).canceled hcanceled
      rw [hc] at hq
      cases hq
    · rw [hresult] at hstopped
      exact absurd hstopped (by decide)
    · rw [hresult] at hproduced
      exact ⟨rfl, hproduced⟩
  | unfinished => exact absurd hc (hs.exits.returned c r)
  | not_running | full | stopped =>
    have hbranch := hs.exits.text c _ r hc (by decide)
    rw [htext] at hbranch
    exact absurd hbranch (by decide)

/-- A timeout in the queue: no command is started and canceled, and a call that returns the text of
a timeout (other than as the result of its own callback) has no callback before it returns and none
later. -/
structure NeverExecutes (s t : Server) : Prop where
  decided : ∀ c, ¬ ((s.cmds c).started = true ∧ (s.cmds c).canceled = true)
  before : ∀ c b r, s.clients c = .returned b r → r.payload = timed_out_text →
    c ∉ s.begun.map Prod.fst ∨ b = .completed ∧ (c, timed_out_text) ∈ s.produced
  after : ∀ c b r, s.clients c = .returned b r → r.payload = timed_out_text →
    c ∉ t.begun.map Prod.fst ∨ b = .completed ∧ (c, timed_out_text) ∈ s.produced

/-- In every interleaving, a command whose call timed out is never executed. -/
theorem a_timed_out_command_never_executes {query_cb_ : Bool} {as bs : List Action} {s t : Server}
    (hrun : run step (.start query_cb_) as = some s) (hlater : run step s bs = some t) :
    NeverExecutes s t := by
  have hs : Timely s :=
    run_invariant (fun _ _ _ => timely_step) (timely_start query_cb_) hrun
  have ht : Timely t := run_invariant (fun _ _ _ => timely_step) hs hlater
  have hstays : ∀ c b r, s.clients c = .returned b r → t.clients c = .returned b r :=
    fun c b r hc => run_invariant (I := fun u => u.clients c = .returned b r)
      (fun _ _ _ hu hstep => returned_step hstep hu) hc hlater
  constructor
  · rintro c ⟨hstarted, hcanceled⟩
    rw [hs.decided.started_live c hstarted] at hcanceled
    cases hcanceled
  · intro c b r hc htext
    refine (timed_out_of_text hs hc htext).imp_left ?_
    rintro rfl
    exact not_begun_of_timed_out hs hc
  · intro c b r hc htext
    refine (timed_out_of_text hs hc htext).imp_left ?_
    rintro rfl
    exact not_begun_of_timed_out ht (hstays c _ r hc)

/-- A call whose time runs out before the drainer has looked into the queue. -/
def timedOutCall : List Action :=
  [.call 0 .Query (Bytes.lit "SELECT 1"), .client 0, .client 0, .client 0, .client 0, .client 0,
    .wake 0 true, .client 0, .client 0]

theorem a_call_that_times_out_never_executes :
    ∃ s t, s.clients 0 = .returned .timed_out (failure "Error: MCP request timed out in queue") ∧
      run step s [.drain, .interrupt false, .give_up] = some t ∧ NeverExecutes s t := by
  have hsome : (run step (.start true)
      (timedOutCall ++ [.drain, .interrupt false, .give_up])).isSome = true := by decide
  obtain ⟨t, ht⟩ := Option.isSome_iff_exists.mp hsome
  obtain ⟨s, hs, hst⟩ := run_append_iff.mp ht
  have hpc : (run step (.start true) timedOutCall).map (fun s => s.clients 0) =
      some (.returned .timed_out (failure "Error: MCP request timed out in queue")) := by decide
  rw [hs, Option.map_some, Option.some.injEq] at hpc
  exact ⟨s, t, hpc, hst, a_timed_out_command_never_executes hs hst⟩

end r2sql.mcp
