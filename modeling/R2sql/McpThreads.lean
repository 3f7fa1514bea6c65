-- The threads of the MCP server one by one: whose step a step is, what it leaves
-- to the others, and how the calls of stop go on.
import R2sql.McpOrder
import R2sql.McpTimeouts

namespace r2sql.mcp

open runs

/-! ## Whose step it is -/

/-- The step of one call of `queue_and_wait`. -/
def Action.of_call (c : CallId) : Action → Bool
  | .call c' _ _ | .client c' | .wake c' _ => c' = c
  | _ => false

/-- A step of the loop of `run_until_stopped`, outside its own call of `stop`. -/
def Action.of_drainer : Action → Bool
  | .drain | .interrupt _ | .give_up | .callback _ => true
  | _ => false

/-- A step of a call of `stop`. -/
def Action.of_stop (who : Stopper) : Action → Bool
  | .stop who' => who' = who
  | _ => false

/-- What a step of the drainer does to it and to the queue. -/
inductive DrainerTurn (s t : Server) : Prop
  | checked (hd : s.drainer = .checking)
      (hd' : t.drainer = if s.running_ then .interruptible else .finished)
      (hpending : t.pending_commands_ = s.pending_commands_) (hbegun : t.begun = s.begun)
  | stops (hstops : t.stops .drainer = .storing) (hd : s.drainer = .interruptible)
      (hd' : t.drainer = .stopping) (hpending : t.pending_commands_ = s.pending_commands_)
      (hbegun : t.begun = s.begun)
  | waits (hd : s.drainer = .interruptible) (hd' : t.drainer = .popping)
      (hpending : t.pending_commands_ = s.pending_commands_) (hbegun : t.begun = s.begun)
  | stopped (hd : s.drainer = .stopping) (hd' : t.drainer = .finished)
      (hpending : t.pending_commands_ = s.pending_commands_) (hbegun : t.begun = s.begun)
  | gives_up (hempty : s.pending_commands_ = []) (hd : s.drainer = .popping)
      (hd' : t.drainer = .checking) (hpending : t.pending_commands_ = s.pending_commands_)
      (hbegun : t.begun = s.begun)
  | pops {c} (hd : s.drainer = .popping) (hd' : t.drainer = .admitting c)
      (hpending : s.pending_commands_ = c :: t.pending_commands_) (hbegun : t.begun = s.begun)
  | admits {c} (hd : s.drainer = .admitting c) (hd' : t.drainer = .starting c)
      (hpending : t.pending_commands_ = s.pending_commands_) (hbegun : t.begun = s.begun)
  | rejects {c} (hd : s.drainer = .admitting c) (hd' : t.drainer = .checking)
      (hpending : t.pending_commands_ = s.pending_commands_) (hbegun : t.begun = s.begun)
  | begins {c} (hd : s.drainer = .starting c) (hd' : t.drainer = .executing c)
      (hpending : t.pending_commands_ = s.pending_commands_)
      (hbegun : t.begun = s.begun ++ [(c, (s.cmds c).input)])
  | has_no_handler {c result} (hd : s.drainer = .starting c) (hd' : t.drainer = .finishing c result)
      (hpending : t.pending_commands_ = s.pending_commands_) (hbegun : t.begun = s.begun)
  | ends {c result} (hd : s.drainer = .executing c) (hd' : t.drainer = .finishing c result)
      (hpending : t.pending_commands_ = s.pending_commands_) (hbegun : t.begun = s.begun)
  | escapes {c} (hd : s.drainer = .executing c) (hd' : t.drainer = .finished)
      (hpending : t.pending_commands_ = s.pending_commands_) (hbegun : t.begun = s.begun)
  | finishes {c result} (hd : s.drainer = .finishing c result) (hd' : t.drainer = .checking)
      (hpending : t.pending_commands_ = s.pending_commands_) (hbegun : t.begun = s.begun)

theorem turn_of_run_until_stopped {s t : Server} (h : s.run_until_stopped = some t) :
    DrainerTurn s t := by
  unfold Server.run_until_stopped at h
  cases hd : s.drainer with
  | interruptible | executing | finished => simp [hd] at h
  | checking =>
    simp only [hd, Option.some.injEq] at h
    subst h
    exact .checked hd rfl rfl rfl
  | stopping =>
    simp only [hd] at h
    split at h <;> cases h
    exact .stopped hd rfl rfl rfl
  | popping =>
    simp only [hd] at h
    split at h <;> cases h
    exact .pops hd rfl ‹_› rfl
  | admitting c =>
    simp only [hd] at h
    split at h
    · cases h
    · split at h
      · cases h
        exact .admits hd rfl rfl rfl
      · split at h <;> cases h <;> exact .rejects hd rfl rfl rfl
  | starting c =>
    simp only [hd] at h
    split at h <;> cases h
    · exact .begins hd rfl rfl rfl
    · exact .has_no_handler hd rfl rfl rfl
  | finishing c result =>
    simp only [hd] at h
    split at h
    · cases h
    · split at h <;> cases h <;> exact .finishes hd rfl rfl rfl

/-- The steps of the drainer, and what the other threads leave alone. -/
theorem drainerTurn_of_step {s t : Server} {a : Action} (h : step s a = some t) :
    if a.of_drainer then DrainerTurn s t
    else t.drainer = s.drainer ∧ t.begun = s.begun ∧ t.produced = s.produced := by
  cases a with
  | call c type input | call_stop i =>
    simp only [step] at h
    split at h <;> cases h
    exact ⟨rfl, rfl, rfl⟩
  | client c =>
    have hkept : t.drainer = s.drainer ∧ t.begun = s.begun ∧ t.produced = s.produced := by
      simp only [step] at h
      unfold Server.queue_and_wait at h
      cases hpc : s.clients c <;> simp only [hpc] at h
      all_goals
        first
        | cases h
        | (split at h <;> first | cases h | (split at h <;> cases h))
      all_goals exact ⟨rfl, rfl, rfl⟩
    exact hkept
  | wake c timed_out =>
    simp only [step, Server.wake] at h
    split at h
    · cases h
    · split at h <;> cases h <;> exact ⟨rfl, rfl, rfl⟩
  | drain => exact turn_of_run_until_stopped h
  | interrupt asked =>
    simp only [step, Server.interrupt] at h
    split at h
    · rename_i hd
      split at h <;> cases h
      · refine DrainerTurn.stops ?_ hd rfl rfl rfl
        exact Function.update_self Stopper.drainer Stop.storing s.stops
      · exact DrainerTurn.waits hd rfl rfl rfl
    · cases h
  | give_up =>
    simp only [step, Server.give_up] at h
    split at h <;> cases h
    rename_i hd
    exact DrainerTurn.gives_up hd.2 hd.1 rfl rfl rfl
  | callback ending =>
    simp only [step, Server.callback] at h
    split at h <;> cases h
    · exact DrainerTurn.ends ‹_› rfl rfl rfl
    · exact DrainerTurn.ends ‹_› rfl rfl rfl
    · exact DrainerTurn.escapes ‹_› rfl rfl rfl
  | stop who =>
    have hkept : t.drainer = s.drainer ∧ t.begun = s.begun ∧ t.produced = s.produced := by
      simp only [step] at h
      unfold Server.stop at h
      split at h
      · cases h
        exact ⟨rfl, rfl, rfl⟩
      · cases h
        exact ⟨rfl, rfl, rfl⟩
      · cases h
        exact ⟨rfl, rfl, rfl⟩
      · dsimp only at h
        split at h
        · cases h
        · split at h <;> cases h <;> exact ⟨rfl, rfl, rfl⟩
      · cases h
    exact hkept

theorem clients_of_others {s t : Server} {a : Action} (h : step s a = some t) {c : CallId}
    (ha : a.of_call c = false) : t.clients c = s.clients c := by
  have hother : ∀ {c' : CallId} {pc : Client} {u : Server}, decide (c' = c) = false →
      u.clients = s.clients → (u.move c' pc).clients c = s.clients c := by
    intro c' pc u hne hu
    rw [Server.clients_move, if_neg fun heq => of_decide_eq_false hne heq.symm, hu]
  cases a with
  | call c' type input =>
    simp only [step] at h
    split at h <;> cases h
    exact hother ha rfl
  | client c' =>
    exact (turn_of_queue_and_wait h).others c fun heq => of_decide_eq_false ha heq.symm
  | wake c' timed_out =>
    simp only [step, Server.wake] at h
    split at h
    · cases h
    · split at h <;> cases h <;> exact hother ha rfl
  | drain => exact congrFun (running_of_run_until_stopped h).2 c
  | stop who => exact congrFun (running_of_stop h).2 c
  | interrupt asked =>
    simp only [step, Server.interrupt] at h
    split at h
    · split at h <;> cases h <;> rfl
    · cases h
  | give_up | call_stop i =>
    simp only [step, Server.give_up] at h
    split at h <;> cases h
    rfl
  | callback ending =>
    simp only [step, Server.callback] at h
    split at h <;> cases h <;> rfl

theorem cmds_set_cmd_ne {s : Server} {c₀ c : CallId} {cmd : McpPendingCommand} (hne : c ≠ c₀) :
    (s.set_cmd c₀ cmd).cmds c = s.cmds c := by
  rw [Server.cmds_set_cmd, if_neg hne]

/-! ## The calls of `stop` -/

/-- The steps that a call of `stop` takes at most. -/
def Stop.to_go : Stop → Nat
  | .absent | .storing => kMcpDefaultMaxQueue + 3
  | .swapping => kMcpDefaultMaxQueue + 2
  | .completing pending => pending.length + 1
  | .returned => 0

/-- The drainer calls `stop` once, where it is interrupted. -/
def StopsOnce (s : Server) : Prop :=
  s.stops .drainer = .absent ∧ s.drainer ≠ .stopping ∨
    s.stops .drainer ≠ .absent ∧ (s.drainer = .stopping ∨ s.drainer = .finished)

theorem stop_to_go {s t : Server} {who : Stopper} (h : s.stop who = some t) :
    ∃ pc, t.stops = (s.move_stop who pc).stops ∧ pc ≠ .absent ∧
      (s.pending_commands_.length ≤ kMcpDefaultMaxQueue → pc.to_go < (s.stops who).to_go) := by
  unfold Server.stop at h
  split at h
  · rename_i hpc
    cases h
    exact ⟨_, rfl, nofun, fun _ => by rw [hpc]; decide⟩
  · rename_i hpc
    cases h
    refine ⟨_, rfl, nofun, fun hcapacity => ?_⟩
    rw [hpc]
    simp only [Stop.to_go]
    omega
  · rename_i hpc
    cases h
    exact ⟨_, rfl, nofun, fun _ => by rw [hpc]; decide⟩
  · rename_i c rest hpc
    have hless : (Stop.completing rest).to_go < (s.stops who).to_go := by
      rw [hpc]
      simp [Stop.to_go]
    dsimp only at h
    split at h
    · cases h
    · split at h <;> cases h
      · exact ⟨_, rfl, nofun, fun _ => hless⟩
      · exact ⟨_, rfl, nofun, fun _ => hless⟩
  · cases h

/-- The calls of `stop` move by their own steps, and where the drainer is interrupted. -/
theorem stops_of_others {s t : Server} {a : Action} (h : step s a = some t)
    (ha : ∀ i who asked, a ≠ .call_stop i ∧ a ≠ .stop who ∧ a ≠ .interrupt asked) :
    t.stops = s.stops := by
  cases a with
  | call c type input =>
    simp only [step] at h
    split at h <;> cases h
    rfl
  | client c =>
    simp only [step] at h
    unfold Server.queue_and_wait at h
    cases hpc : s.clients c <;> simp only [hpc] at h
    all_goals
      first
      | cases h
      | (split at h <;> first | cases h | (split at h <;> cases h))
    all_goals rfl
  | wake c timed_out =>
    simp only [step, Server.wake] at h
    split at h
    · cases h
    · split at h <;> cases h <;> rfl
  | drain =>
    simp only [step] at h
    unfold Server.run_until_stopped at h
    cases hd : s.drainer <;> simp only [hd] at h
    all_goals
      first
      | cases h
      | (split at h <;>
          first | cases h | (split at h <;> first | cases h | (split at h <;> cases h)))
    all_goals rfl
  | give_up =>
    simp only [step, Server.give_up] at h
    split at h <;> cases h
    rfl
  | callback ending =>
    simp only [step, Server.callback] at h
    split at h <;> cases h <;> rfl
  | call_stop i => exact absurd rfl (ha i .drainer true).1
  | stop who => exact absurd rfl (ha 0 who true).2.1
  | interrupt asked => exact absurd rfl (ha 0 .drainer asked).2.2

theorem stopsOnce_step {s t : Server} {a : Action} (honce : StopsOnce s) (h : step s a = some t) :
    StopsOnce t := by
  have hturn := drainerTurn_of_step h
  have habsent : s.drainer ≠ .stopping → s.drainer ≠ .finished → s.stops .drainer = .absent :=
    fun hstopping hfinished =>
      (honce.resolve_right fun hlast => hlast.2.elim hstopping hfinished).1
  have hkept : t.stops .drainer = s.stops .drainer → StopsOnce t := by
    intro hstops
    unfold StopsOnce
    rw [hstops]
    split at hturn
    · cases hturn with
      | checked hd hd' =>
        refine Or.inl ⟨habsent (by simp [hd]) (by simp [hd]), ?_⟩
        rw [hd']
        split <;> simp
      | stops hcalled hd hd' =>
        -- then the call of `stop` has just begun
        rw [hstops, habsent (by simp [hd]) (by simp [hd])] at hcalled
        cases hcalled
      | stopped hd hd' =>
        exact Or.inr ⟨(honce.resolve_left fun hother => hother.2 hd).1, Or.inr hd'⟩
      | _ =>
        rename_i hd hd' _ _
        exact Or.inl ⟨habsent (by simp [hd]) (by simp [hd]), by simp [hd']⟩
    · rwa [hturn.1]
  cases a with
  | interrupt asked =>
    simp only [step, Server.interrupt] at h
    split at h
    · split at h <;> cases h
      · exact Or.inr ⟨by rw [Server.stops_move_stop, if_pos rfl]; simp, Or.inl rfl⟩
      · exact hkept rfl
    · cases h
  | call_stop i =>
    simp only [step] at h
    split at h <;> cases h
    apply hkept
    rw [Server.stops_move_stop, if_neg (by simp)]
  | stop who =>
    obtain ⟨pc, hstops, hpc, -⟩ := stop_to_go h
    by_cases heq : who = .drainer
    · subst heq
      rcases honce with ⟨habsent, -⟩ | ⟨-, hlast⟩
      · simp only [step] at h
        unfold Server.stop at h
        rw [habsent] at h
        cases h
      · refine Or.inr ⟨?_, hturn.1 ▸ hlast⟩
        rw [hstops, Server.stops_move_stop, if_pos rfl]
        exact hpc
    · apply hkept
      rw [hstops, Server.stops_move_stop, if_neg (Ne.symm heq)]
  | _ => exact hkept (congrFun (stops_of_others h (by simp)) _)

theorem stops_to_go {s t : Server} {a : Action}
    (hcapacity : s.pending_commands_.length ≤ kMcpDefaultMaxQueue) (honce : StopsOnce s)
    (h : step s a = some t) (who : Stopper) :
    (t.stops who).to_go + (if a.of_stop who then 1 else 0) ≤ (s.stops who).to_go := by
  have hkept : t.stops who = s.stops who → a.of_stop who = false →
      (t.stops who).to_go + (if a.of_stop who then 1 else 0) ≤ (s.stops who).to_go := by
    intro hstops ha
    rw [hstops, ha]
    exact Nat.le_refl _
  -- a call of `stop` that begins has all its steps before it
  have hbegins : ∀ who', s.stops who' = .absent → a.of_stop who = false →
      t.stops = (s.move_stop who' .storing).stops →
      (t.stops who).to_go + (if a.of_stop who then 1 else 0) ≤ (s.stops who).to_go := by
    intro who' habsent ha hstops
    rw [hstops, Server.stops_move_stop, ha]
    split
    · rename_i heq
      rw [heq, habsent]
      exact Nat.le_refl _
    · exact Nat.le_refl _
  cases a with
  | stop who' =>
    obtain ⟨pc, hstops, -, hless⟩ := stop_to_go h
    rw [hstops, Server.stops_move_stop]
    by_cases heq : who = who'
    · subst heq
      simpa [Action.of_stop] using hless hcapacity
    · simp [Action.of_stop, heq, Ne.symm heq]
  | call_stop i =>
    simp only [step] at h
    split at h <;> cases h
    exact hbegins _ ‹_› rfl rfl
  | interrupt asked =>
    simp only [step, Server.interrupt] at h
    split at h
    · rename_i hd
      split at h <;> cases h
      · refine hbegins .drainer (honce.resolve_right ?_).1 rfl rfl
        rw [hd]
        simp
      · exact hkept rfl rfl
    · cases h
  | _ => exact hkept (congrFun (stops_of_others h (by simp)) _) rfl

end r2sql.mcp
