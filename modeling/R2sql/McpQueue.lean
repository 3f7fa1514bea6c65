-- The laws of the command queue, over every interleaving of its threads:
-- who runs which command, who gets which result, and what a call leaves
-- behind when it returns.
import R2sql.McpServer
import R2sql.Lib.Runs

namespace r2sql.mcp

open runs

/-! ## What a step can do -/

/-- The call has pushed its command and has not decided what it returns. -/
def Client.Waiting : Client → Bool
  | .pushed | .looping | .wait_done _ | .wait_start _ | .blocked_done | .blocked_start | .left
  | .unfinished => true
  | _ => false

/-- The loop is between two commands. -/
def Drainer.Idle : Drainer → Bool
  | .checking | .interruptible | .stopping | .popping | .finished => true
  | _ => false

/-- The commands that a call of `stop` swapped out of the queue and has not completed. -/
def Stop.taken : Stop → List CallId
  | .completing pending => pending
  | _ => []

/-- The text that the queue makes of the end of a callback, where there is one. -/
def Ending.payload : Ending → Option Bytes
  | .returned text => some text
  | .threw what => some (Bytes.lit "Error: " ++ what)
  | .escaped => none

/-- The step gives a command its result: the callback that the drainer runs for it ends so, or there
is no callback to run. -/
inductive Gives (s : Server) : Action → CallId → Bytes → Prop
  | callback {c ending text} (hd : s.drainer = .executing c) (h : ending.payload = some text) :
    Gives s (.callback ending) c text
  | no_handler {c} (hd : s.drainer = .starting c) (hcb : s.query_cb_ = false) :
    Gives s .drain c (Bytes.lit "Error: No handler for command type")

/-- What a step does to the server, for the steps that the laws tell apart. -/
inductive Effect (s : Server) : Action → Server → Prop
  | call {c type input} (hpc : s.clients c = .absent) :
    Effect s (.call c type input)
      ({ s with calls := s.calls ++ [(c, input)] }.move c (.called type input))
  | refuse {c type input r} (hpc : s.clients c = .called type input) :
    Effect s (.client c) (s.move c (.returned .not_running r))
  | make {c type input} (hpc : s.clients c = .called type input) :
    Effect s (.client c) ((s.set_cmd c (.make type input)).move c .made)
  | full {c r} (hpc : s.clients c = .made) : Effect s (.client c) (s.move c (.returned .full r))
  | push {c} (hpc : s.clients c = .made) :
    Effect s (.client c)
      ({ s with pending_commands_ := s.pending_commands_ ++ [c], pushed := s.pushed ++ [c] }.move c
        .pushed)
  | wait {a c pc} (held : Bool) (hpc : (s.clients c).Waiting) (hpc' : pc.Waiting) :
    Effect s a ((s.set_mutex c held).move c pc)
  | cancel {c} (hpc : (s.clients c).Waiting) (hcompleted : (s.cmds c).completed = false)
      (hstarted : (s.cmds c).started = false) :
    Effect s (.client c)
      ((s.set_cmd c { s.cmds c with canceled := true, done_mutex := false }).move c .erasing)
  | erase {c r} (hpc : s.clients c = .erasing) :
    Effect s (.client c)
      ({ s with pending_commands_ := s.pending_commands_.erase c }.move c (.returned .timed_out r))
  | answer {c} (hpc : s.clients c = .left) (hcompleted : (s.cmds c).completed = true) :
    Effect s (.client c) (s.move c (.returned .completed (answer (s.cmds c))))
  | abandon {c b r} (hpc : s.clients c = .unfinished) (hb : b = .stopped ∨ b = .unfinished) :
    Effect s (.client c) (s.move c (.returned b r))
  | turn {a d} (hd : d.Idle) : Effect s a { s with drainer := d }
  | interrupt {a} :
    Effect s a { s.move_stop .drainer .storing with drainer := .stopping }
  | pop {a c rest} (hd : s.drainer = .popping) (hpending : s.pending_commands_ = c :: rest) :
    Effect s a { s with pending_commands_ := rest, drainer := .admitting c }
  | allow {a c} (hd : s.drainer = .admitting c) (hcompleted : (s.cmds c).completed = false)
      (hcanceled : (s.cmds c).canceled = false) :
    Effect s a { s.set_cmd c { s.cmds c with started := true } with drainer := .starting c }
  | reject {a c} (hd : s.drainer = .admitting c) (hcanceled : (s.cmds c).canceled = true) :
    Effect s a { s.set_cmd c { s.cmds c with completed := true } with drainer := .checking }
  | begin {a c} (hd : s.drainer = .starting c) (hcb : s.query_cb_ = true) :
    Effect s a { s with drainer := .executing c, begun := s.begun ++ [(c, (s.cmds c).input)] }
  | produce {a c} (result : Bytes) (hd : s.drainer = .starting c ∨ s.drainer = .executing c)
      (hgives : Gives s a c result) :
    Effect s a { s with drainer := .finishing c result, produced := s.produced ++ [(c, result)] }
  | finish {a c result} (hd : s.drainer = .finishing c result)
      (hcompleted : (s.cmds c).completed = false) :
    Effect s a
      { s.set_cmd c { s.cmds c with result := result, completed := true } with
        drainer := .checking }
  | stop_turn {a who pc} (running : Bool) (hpc : pc.taken ⊆ (s.stops who).taken) :
    Effect s a { s.move_stop who pc with running_ := running }
  | swap {a who} :
    Effect s a
      { s.move_stop who (.completing s.pending_commands_) with pending_commands_ := [] }
  | complete {a who c rest} (hpc : s.stops who = .completing (c :: rest))
      (hcompleted : (s.cmds c).completed = false) :
    Effect s a ((s.set_cmd c { s.cmds c with
        result := Bytes.lit "Error: MCP server stopped", completed := true }).move_stop
      who (.completing rest))

theorem set_mutex_self (s : Server) (c : CallId) : s.set_mutex c (s.cmds c).done_mutex = s := by
  simp [Server.set_mutex, Server.set_cmd]

theorem effect_of_queue_and_wait {s t : Server} {c : CallId} (h : s.queue_and_wait c = some t) :
    Effect s (.client c) t := by
  have hkeep : ∀ pc : Client, (s.clients c).Waiting → pc.Waiting →
      Effect s (.client c) (s.move c pc) := by
    intro pc hpc hpc'
    have heffect : Effect s (.client c) ((s.set_mutex c (s.cmds c).done_mutex).move c pc) :=
      .wait _ hpc hpc'
    rwa [set_mutex_self] at heffect
  unfold Server.queue_and_wait at h
  cases hpc : s.clients c with
  | absent | blocked_done | blocked_start | returned => simp [hpc] at h
  | called type input =>
    simp only [hpc] at h
    split at h <;> cases h
    · exact .make hpc
    · exact .refuse hpc
  | made =>
    simp only [hpc] at h
    split at h <;> cases h
    · exact .full hpc
    · exact .push hpc
  | pushed =>
    simp only [hpc] at h
    split at h <;> cases h
    exact .wait _ (by rw [hpc]; rfl) rfl
  | looping =>
    simp only [hpc] at h
    split at h <;> cases h
    · apply hkeep _ (by rw [hpc]; rfl)
      split <;> rfl
    · exact .wait _ (by rw [hpc]; rfl) rfl
  | wait_done timed_out =>
    simp only [hpc] at h
    split at h <;> cases h
    · exact hkeep _ (by rw [hpc]; rfl) rfl
    · exact .wait _ (by rw [hpc]; rfl) rfl
  | wait_start timed_out =>
    simp only [hpc] at h
    split at h
    · cases h
      exact hkeep _ (by rw [hpc]; rfl) rfl
    · rename_i hpred
      simp only [Bool.or_eq_true, Bool.not_eq_true', not_or, Bool.not_eq_true] at hpred
      split at h <;> cases h
      · rw [if_pos (by simp [hpred.1.1, hpred.1.2])]
        exact .cancel (by rw [hpc]; rfl) hpred.1.1 hpred.1.2
      · exact .wait _ (by rw [hpc]; rfl) rfl
  | erasing =>
    simp only [hpc, Option.some.injEq] at h
    subst h
    exact .erase hpc
  | left =>
    simp only [hpc] at h
    split at h <;> cases h
    · exact .answer hpc ‹_›
    · exact hkeep _ (by rw [hpc]; rfl) rfl
  | unfinished =>
    simp only [hpc] at h
    split at h <;> cases h
    · exact .abandon hpc (Or.inl rfl)
    · exact .abandon hpc (Or.inr rfl)

theorem effect_of_run_until_stopped {s t : Server} (h : s.run_until_stopped = some t) :
    Effect s .drain t := by
  unfold Server.run_until_stopped at h
  cases hd : s.drainer with
  | interruptible | executing | finished => simp [hd] at h
  | checking =>
    simp only [hd, Option.some.injEq] at h
    subst h
    apply Effect.turn
    split <;> rfl
  | stopping =>
    simp only [hd] at h
    split at h <;> cases h
    exact .turn rfl
  | popping =>
    simp only [hd] at h
    split at h <;> cases h
    exact .pop hd ‹_›
  | admitting c =>
    simp only [hd, Bool.and_eq_true, Bool.not_eq_true'] at h
    split at h
    · cases h
    · split at h
      · rename_i hadmit
        cases h
        exact .allow hd hadmit.1 hadmit.2
      · split at h <;> cases h
        · rename_i hreject
          exact .reject hd hreject.2
        · exact .turn rfl
  | starting c =>
    simp only [hd] at h
    split at h <;> cases h
    · rename_i hquery
      exact .begin hd hquery.2
    · rename_i hnone
      -- There is one type of command, so the callback is what is missing.
      have htype : (s.cmds c).type = .Query := by
        cases (s.cmds c).type
        rfl
      have hcb : s.query_cb_ = false := by simpa [htype] using hnone
      exact .produce _ (Or.inl hd) (.no_handler hd hcb)
  | finishing c result =>
    simp only [hd, Bool.not_eq_true'] at h
    split at h
    · cases h
    · split at h <;> cases h
      · exact .finish hd ‹_›
      · exact .turn rfl

theorem effect_of_stop {s t : Server} {who : Stopper} (h : s.stop who = some t) :
    Effect s (.stop who) t := by
  have hkeep : ∀ pc : Stop, pc.taken ⊆ (s.stops who).taken →
      Effect s (.stop who) (s.move_stop who pc) := fun pc hpc => .stop_turn s.running_ hpc
  unfold Server.stop at h
  split at h
  · cases h
    exact .stop_turn false (by simp [Stop.taken])
  · cases h
    exact .swap
  · cases h
    exact hkeep _ (by simp [Stop.taken])
  · rename_i c rest hpc
    simp only [Bool.not_eq_true'] at h
    split at h
    · cases h
    · split at h <;> cases h
      · exact .complete hpc ‹_›
      · exact hkeep _ (by simp [hpc, Stop.taken])
  · cases h

/-- Every step has its effect. -/
theorem effect_of_step {s t : Server} {a : Action} (h : step s a = some t) : Effect s a t := by
  cases a with
  | call c type input =>
    simp only [step] at h
    split at h <;> cases h
    exact .call ‹_›
  | client c => exact effect_of_queue_and_wait h
  | wake c timed_out =>
    simp only [step, Server.wake] at h
    split at h
    · cases h
    · split at h <;> cases h
      · rename_i hpc
        exact .wait _ (by rw [hpc]; rfl) rfl
      · rename_i hpc
        exact .wait _ (by rw [hpc]; rfl) rfl
  | drain => exact effect_of_run_until_stopped h
  | interrupt asked =>
    simp only [step, Server.interrupt] at h
    split at h
    · split at h <;> cases h
      · exact .interrupt
      · exact .turn rfl
    · cases h
  | give_up =>
    simp only [step, Server.give_up] at h
    split at h <;> cases h
    exact .turn rfl
  | callback ending =>
    simp only [step, Server.callback] at h
    split at h <;> cases h
    · rename_i hd
      exact .produce _ (Or.inr hd) (.callback hd rfl)
    · rename_i hd
      exact .produce _ (Or.inr hd) (.callback hd rfl)
    · exact .turn rfl
  | call_stop i =>
    simp only [step] at h
    split at h <;> cases h
    exact .stop_turn s.running_ (by simp [Stop.taken])
  | stop who => exact effect_of_stop h

/-! ## One command is in one place -/

/-- The call has pushed its command. -/
def Client.HasPushed : Client → Bool
  | .absent | .called _ _ | .made | .returned .not_running _ | .returned .full _ => false
  | _ => true

/-- The command that the drainer has popped, before its callback begins. -/
def Drainer.waiting : Drainer → List CallId
  | .admitting c | .starting c => [c]
  | _ => []

/-- The command that the drainer has popped, before it has a result. -/
def Drainer.unproduced : Drainer → List CallId
  | .admitting c | .starting c | .executing c => [c]
  | _ => []

theorem hasPushed_of_waiting {pc : Client} (h : pc.Waiting) : pc.HasPushed := by
  cases pc <;> first | rfl | cases h

theorem waiting_of_idle {d : Drainer} (h : d.Idle) : d.waiting = [] ∧ d.unproduced = [] := by
  cases d <;> first | exact ⟨rfl, rfl⟩ | cases h

/-- The commands pass from the queue through the drainer in the order of their pushes, and none of
them twice. -/
structure Flow (s : Server) : Prop where
  pushed_nodup : s.pushed.Nodup
  pushed_iff : ∀ c, c ∈ s.pushed ↔ (s.clients c).HasPushed
  begun : List.Sublist (s.begun.map Prod.fst ++ s.drainer.waiting ++ s.pending_commands_) s.pushed
  produced :
    List.Sublist (s.produced.map Prod.fst ++ s.drainer.unproduced ++ s.pending_commands_) s.pushed

theorem hasPushed_move {s : Server} {c : CallId} {pc : Client}
    (h : ∀ c', c' ∈ s.pushed ↔ (s.clients c').HasPushed)
    (hpc : pc.HasPushed = (s.clients c).HasPushed) (c' : CallId) :
    c' ∈ s.pushed ↔ ((s.move c pc).clients c').HasPushed := by
  rw [h, Server.clients_move]
  split
  · rename_i hc
    rw [hc, hpc]
  · rfl

theorem flow_start (query_cb_ : Bool) : Flow (.start query_cb_) where
  pushed_nodup := List.nodup_nil
  pushed_iff c := by simp [Server.start, Client.HasPushed]
  begun := List.Sublist.refl _
  produced := List.Sublist.refl _

/-- A list with its middle left out. -/
theorem sublist_without_middle {as bs cs ds : List CallId} (h : List.Sublist (as ++ bs ++ cs) ds) :
    List.Sublist (as ++ cs) ds :=
  (List.sublist_append_left as bs |>.append (List.Sublist.refl cs)).trans h

theorem flow_step {s t : Server} {a : Action} (hs : Flow s) (h : step s a = some t) : Flow t := by
  have hturn : ∀ d : Drainer, d.waiting = [] → d.unproduced = [] →
      List.Sublist (s.begun.map Prod.fst ++ d.waiting ++ s.pending_commands_) s.pushed ∧
      List.Sublist (s.produced.map Prod.fst ++ d.unproduced ++ s.pending_commands_) s.pushed := by
    intro d hd hd'
    rw [hd, hd', List.append_nil, List.append_nil]
    exact ⟨sublist_without_middle hs.begun, sublist_without_middle hs.produced⟩
  cases effect_of_step h with
  | call hpc | refuse hpc | make hpc | full hpc =>
    exact ⟨hs.pushed_nodup, hasPushed_move hs.pushed_iff (by rw [hpc]; rfl), hs.begun, hs.produced⟩
  | @push c hpc =>
    have hfresh : c ∉ s.pushed := by
      rw [hs.pushed_iff, hpc]
      decide
    have hnodup : (s.pushed ++ [c]).Nodup := by
      rw [← List.concat_eq_append, List.nodup_concat]
      exact ⟨hfresh, hs.pushed_nodup⟩
    refine ⟨hnodup, ?_, ?_, ?_⟩
    · intro c'
      show c' ∈ s.pushed ++ [c] ↔ _
      rw [List.mem_append, List.mem_singleton, hs.pushed_iff, Server.clients_move]
      by_cases hc : c' = c
      · simp [hc, Client.HasPushed]
      · simp [hc]
    · show List.Sublist (_ ++ (s.pending_commands_ ++ [c])) (s.pushed ++ [c])
      rw [← List.append_assoc]
      exact hs.begun.append (List.Sublist.refl _)
    · show List.Sublist (_ ++ (s.pending_commands_ ++ [c])) (s.pushed ++ [c])
      rw [← List.append_assoc]
      exact hs.produced.append (List.Sublist.refl _)
  | wait held hpc hpc' =>
    exact ⟨hs.pushed_nodup, hasPushed_move hs.pushed_iff
      (by rw [hasPushed_of_waiting hpc', hasPushed_of_waiting hpc]), hs.begun, hs.produced⟩
  | cancel hpc =>
    exact ⟨hs.pushed_nodup, hasPushed_move hs.pushed_iff
      (by rw [hasPushed_of_waiting hpc]; rfl), hs.begun, hs.produced⟩
  | @erase c _ hpc =>
    exact ⟨hs.pushed_nodup, hasPushed_move hs.pushed_iff (by rw [hpc]; rfl),
      ((List.Sublist.refl _).append (List.erase_sublist)).trans hs.begun,
      ((List.Sublist.refl _).append (List.erase_sublist)).trans hs.produced⟩
  | answer hpc =>
    exact ⟨hs.pushed_nodup, hasPushed_move hs.pushed_iff (by rw [hpc]; rfl), hs.begun, hs.produced⟩
  | abandon hpc hb =>
    refine ⟨hs.pushed_nodup, hasPushed_move hs.pushed_iff ?_, hs.begun, hs.produced⟩
    rw [hpc]
    rcases hb with rfl | rfl <;> rfl
  | turn hd =>
    obtain ⟨hw, hu⟩ := waiting_of_idle hd
    exact ⟨hs.pushed_nodup, hs.pushed_iff, (hturn _ hw hu).1, (hturn _ hw hu).2⟩
  | interrupt =>
    exact ⟨hs.pushed_nodup, hs.pushed_iff, (hturn .stopping rfl rfl).1, (hturn .stopping rfl rfl).2⟩
  | pop hd hpending =>
    have hbegun := hs.begun
    have hproduced := hs.produced
    rw [hd, hpending] at hbegun hproduced
    refine ⟨hs.pushed_nodup, hs.pushed_iff, ?_, ?_⟩
    · simpa [Drainer.waiting] using hbegun
    · simpa [Drainer.unproduced] using hproduced
  | allow hd =>
    have hbegun := hs.begun
    have hproduced := hs.produced
    rw [hd] at hbegun hproduced
    exact ⟨hs.pushed_nodup, hs.pushed_iff, hbegun, hproduced⟩
  | reject hd | finish hd =>
    exact ⟨hs.pushed_nodup, hs.pushed_iff, (hturn .checking rfl rfl).1, (hturn .checking rfl rfl).2⟩
  | begin hd =>
    have hbegun := hs.begun
    have hproduced := hs.produced
    rw [hd] at hbegun hproduced
    refine ⟨hs.pushed_nodup, hs.pushed_iff, ?_, hproduced⟩
    simpa [Drainer.waiting] using hbegun
  | @produce a c result hd =>
    have hproduced := hs.produced
    have hu : s.drainer.unproduced = [c] := by rcases hd with hd | hd <;> rw [hd] <;> rfl
    rw [hu] at hproduced
    refine ⟨hs.pushed_nodup, hs.pushed_iff, (hturn (.finishing c result) rfl rfl).1, ?_⟩
    simpa [Drainer.unproduced] using hproduced
  | stop_turn running hpc => exact ⟨hs.pushed_nodup, hs.pushed_iff, hs.begun, hs.produced⟩
  | swap =>
    exact ⟨hs.pushed_nodup, hs.pushed_iff,
      ((List.Sublist.refl _).append (List.nil_sublist _)).trans hs.begun,
      ((List.Sublist.refl _).append (List.nil_sublist _)).trans hs.produced⟩
  | complete hpc => exact ⟨hs.pushed_nodup, hs.pushed_iff, hs.begun, hs.produced⟩

/-! ## Whose result it is -/

/-- The call has made its command, and has it in the queue or had it there. -/
def Client.HasCommand : Client → Bool
  | .made => true
  | pc => pc.HasPushed

/-- The call has canceled its command. -/
def Client.Canceled : Client → Bool
  | .erasing | .returned .timed_out _ => true
  | _ => false

/-- What is true of the command of one call: it has the input of the call, a canceled command
belongs to a call that timed out, a completed one has a result of its own, and the answer is that
result. -/
structure Owns (s : Server) (c : CallId) : Prop where
  called : ∀ type input, s.clients c = .called type input → (c, input) ∈ s.calls
  input : (s.clients c).HasCommand → (c, (s.cmds c).input) ∈ s.calls
  canceled : (s.cmds c).canceled = true → (s.clients c).Canceled
  result : (s.cmds c).completed = true → (s.cmds c).canceled = true ∨
    (s.cmds c).result = Bytes.lit "Error: MCP server stopped" ∨ (c, (s.cmds c).result) ∈ s.produced
  answered : ∀ r, s.clients c = .returned .completed r →
    (s.cmds c).completed = true ∧ r = answer (s.cmds c)

/-- A step that does not touch the call or its command, and loses nothing of the log. -/
theorem Owns.frame {s t : Server} {c : CallId} (h : Owns s c) (hclient : t.clients c = s.clients c)
    (hcmd : t.cmds c = s.cmds c) (hcalls : s.calls ⊆ t.calls)
    (hproduced : s.produced ⊆ t.produced) :
    Owns t c where
  called type input hpc := hcalls (h.called type input (hclient ▸ hpc))
  input hpc := by
    rw [hcmd]
    exact hcalls (h.input (hclient ▸ hpc))
  canceled hc := by
    rw [hclient]
    exact h.canceled (hcmd ▸ hc)
  result hc := by
    rw [hcmd] at hc ⊢
    exact (h.result hc).imp_right (Or.imp_right fun hmem => hproduced hmem)
  answered r hpc := by
    rw [hcmd]
    exact h.answered r (hclient ▸ hpc)

theorem Owns.moved {s : Server} {c₀ : CallId} {pc : Client} (h : ∀ c, Owns s c)
    (hcalled : ∀ type input, pc = .called type input → (c₀, input) ∈ s.calls)
    (hinput : pc.HasCommand → (c₀, (s.cmds c₀).input) ∈ s.calls)
    (hcanceled : (s.clients c₀).Canceled → pc.Canceled)
    (hanswered : ∀ r, pc = .returned .completed r →
      (s.cmds c₀).completed = true ∧ r = answer (s.cmds c₀)) (c : CallId) :
    Owns (s.move c₀ pc) c := by
  by_cases h0 : c = c₀
  · subst h0
    have hpc : (s.move c pc).clients c = pc := by simp [Server.clients_move]
    refine ⟨fun type input hq => hcalled type input (hpc ▸ hq), fun hq => hinput (hpc ▸ hq),
      fun hq => ?_, (h c).result, fun r hq => hanswered r (hpc ▸ hq)⟩
    rw [hpc]
    exact hcanceled ((h c).canceled hq)
  · exact (h c).frame (by simp [Server.clients_move, h0]) rfl (List.Subset.refl _)
      (List.Subset.refl _)

theorem Owns.recorded {s : Server} {c₀ : CallId} {cmd : McpPendingCommand} (h : ∀ c, Owns s c)
    (hinput : (s.clients c₀).HasCommand → cmd.input = (s.cmds c₀).input)
    (hcanceled : cmd.canceled = true → (s.clients c₀).Canceled)
    (hresult : cmd.completed = true → cmd.canceled = true ∨
      cmd.result = Bytes.lit "Error: MCP server stopped" ∨ (c₀, cmd.result) ∈ s.produced)
    (hanswered : (s.clients c₀).HasCommand → (s.cmds c₀).completed = true →
      cmd.completed = true ∧ cmd.result = (s.cmds c₀).result) (c : CallId) :
    Owns (s.set_cmd c₀ cmd) c := by
  by_cases h0 : c = c₀
  · subst h0
    have hcmd : (s.set_cmd c cmd).cmds c = cmd := by simp [Server.cmds_set_cmd]
    refine ⟨(h c).called, fun hq => ?_, fun hq => hcanceled (hcmd ▸ hq), fun hq => ?_,
      fun r hq => ?_⟩
    · rw [hcmd, hinput hq]
      exact (h c).input hq
    · rw [hcmd] at hq ⊢
      exact hresult hq
    · have hpc : s.clients c = .returned .completed r := hq
      obtain ⟨hdone, hr⟩ := (h c).answered r hpc
      obtain ⟨hdone', hsame⟩ := hanswered (by rw [hpc]; rfl) hdone
      rw [hcmd]
      exact ⟨hdone', by rw [hr, answer, answer, hsame]⟩
  · exact (h c).frame rfl (by simp [Server.cmds_set_cmd, h0]) (List.Subset.refl _)
      (List.Subset.refl _)

/-- The drainer has the result that it is about to give. -/
def HoldsResult (s : Server) : Prop :=
  ∀ c result, s.drainer = .finishing c result → (c, result) ∈ s.produced

theorem holdsResult_step {s t : Server} {a : Action} (hs : HoldsResult s) (h : step s a = some t) :
    HoldsResult t := by
  cases effect_of_step h with
  | @turn a d hd =>
    intro c result hpc
    rw [show d = .finishing c result from hpc] at hd
    cases hd
  | interrupt | pop | allow | reject | begin | finish => exact nofun
  | produce result hd =>
    intro c result' hpc
    cases hpc
    simp
  | _ => exact hs

theorem of_waiting {pc : Client} (h : pc.Waiting) :
    pc.HasCommand = true ∧ pc.Canceled = false ∧ (∀ type input, pc ≠ .called type input) ∧
      ∀ b r, pc ≠ .returned b r := by
  cases pc <;> first | exact ⟨rfl, rfl, nofun, nofun⟩ | cases h

theorem owns_step {s t : Server} {a : Action} (hholds : HoldsResult s) (hs : ∀ c, Owns s c)
    (h : step s a = some t) (c : CallId) : Owns t c := by
  have same : ∀ log : List (CallId × Bytes), log ⊆ log := List.Subset.refl
  have grown : ∀ (log : List (CallId × Bytes)) e, log ⊆ log ++ [e] := fun log e =>
    List.subset_append_left log [e]
  -- A call that has not pushed its command has not canceled it.
  have young : ∀ {c₀ : CallId} {pc : Client}, s.clients c₀ = pc → pc.Canceled = false →
      ∀ pc' : Client, (s.clients c₀).Canceled → pc'.Canceled := by
    intro c₀ pc hpc hyoung pc' hq
    rw [hpc, hyoung] at hq
    cases hq
  cases effect_of_step h with
  | turn | interrupt | pop | begin | stop_turn | swap =>
    exact (hs c).frame rfl rfl (same _) (same _)
  | produce => exact (hs c).frame rfl rfl (same _) (grown _ _)
  | @call c₀ type input hpc =>
    have hlog : ∀ c, Owns { s with calls := s.calls ++ [(c₀, input)] } c := fun c =>
      (hs c).frame rfl rfl (grown _ _) (same _)
    exact Owns.moved hlog (by rintro _ _ ⟨⟩; simp) (by rintro ⟨⟩) (young hpc rfl _)
      (by rintro _ ⟨⟩) c
  | @refuse c₀ type input r hpc =>
    exact Owns.moved hs (by rintro _ _ ⟨⟩) (by rintro ⟨⟩) (young hpc rfl _) (by rintro _ ⟨⟩) c
  | @make c₀ type input hpc =>
    have hcall := (hs c₀).called type input hpc
    have hmade : ∀ c, Owns (s.set_cmd c₀ (.make type input)) c :=
      Owns.recorded hs (fun hq => by rw [hpc] at hq; cases hq) nofun nofun
        fun hq => by rw [hpc] at hq; cases hq
    refine Owns.moved hmade (by rintro _ _ ⟨⟩) (fun _ => ?_) (young hpc rfl _) (by rintro _ ⟨⟩) c
    rw [Server.cmds_set_cmd, if_pos rfl]
    exact hcall
  | @full c₀ r hpc =>
    exact Owns.moved hs (by rintro _ _ ⟨⟩) (by rintro ⟨⟩) (young hpc rfl _) (by rintro _ ⟨⟩) c
  | @push c₀ hpc =>
    have hqueue : ∀ c, Owns { s with
        pending_commands_ := s.pending_commands_ ++ [c₀], pushed := s.pushed ++ [c₀] } c := fun c =>
      (hs c).frame rfl rfl (same _) (same _)
    exact Owns.moved hqueue (by rintro _ _ ⟨⟩) (fun _ => (hs c₀).input (by rw [hpc]; rfl))
      (young hpc rfl _) (by rintro _ ⟨⟩) c
  | @wait a c₀ pc held hpc hpc' =>
    obtain ⟨hcommand, hlive, -, -⟩ := of_waiting hpc
    obtain ⟨-, -, hcalled, hreturned⟩ := of_waiting hpc'
    have hmutex : ∀ c, Owns (s.set_mutex c₀ held) c :=
      Owns.recorded hs (fun _ => rfl) (hs c₀).canceled (hs c₀).result fun _ hdone => ⟨hdone, rfl⟩
    exact Owns.moved hmutex (fun type input hq => absurd hq (hcalled type input))
      (fun _ => (hmutex c₀).input hcommand) (young rfl hlive _)
      (fun r hq => absurd hq (hreturned _ r)) c
  | @cancel c₀ hpc hcompleted hstarted =>
    obtain ⟨hcommand, hlive, -, -⟩ := of_waiting hpc
    have herasing : ∀ c, Owns (s.move c₀ .erasing) c :=
      Owns.moved hs (by rintro _ _ ⟨⟩) (fun _ => (hs c₀).input hcommand) (young rfl hlive _)
        (by rintro _ ⟨⟩)
    have hcanceled : ∀ c, Owns ((s.move c₀ .erasing).set_cmd c₀
        { s.cmds c₀ with canceled := true, done_mutex := false }) c := by
      refine Owns.recorded herasing (fun _ => rfl) (fun _ => ?_) (fun _ => Or.inl rfl) ?_
      · simp [Server.clients_move, Client.Canceled]
      · intro _ hdone
        rw [show (s.cmds c₀).completed = true from hdone] at hcompleted
        cases hcompleted
    exact hcanceled c
  | @erase c₀ r hpc =>
    have hqueue : ∀ c,
        Owns { s with pending_commands_ := s.pending_commands_.erase c₀ } c := fun c =>
      (hs c).frame rfl rfl (same _) (same _)
    exact Owns.moved hqueue (by rintro _ _ ⟨⟩) (fun _ => (hs c₀).input (by rw [hpc]; rfl))
      (fun _ => rfl) (by rintro _ ⟨⟩) c
  | @answer c₀ hpc hcompleted =>
    refine Owns.moved hs (by rintro _ _ ⟨⟩) (fun _ => (hs c₀).input (by rw [hpc]; rfl))
      (young hpc rfl _) ?_ c
    rintro r ⟨⟩
    exact ⟨hcompleted, rfl⟩
  | @abandon c₀ b r hpc hb =>
    have hnot : b ≠ .completed := by rcases hb with rfl | rfl <;> decide
    exact Owns.moved hs (by rintro _ _ ⟨⟩) (fun _ => (hs c₀).input (by rw [hpc]; rfl))
      (young hpc rfl _) (by rintro r ⟨⟩; exact absurd rfl hnot) c
  | @allow a c₀ hd hcompleted hcanceled =>
    have hstarted : ∀ c, Owns (s.set_cmd c₀ { s.cmds c₀ with started := true }) c :=
      Owns.recorded hs (fun _ => rfl) (hs c₀).canceled (hs c₀).result fun _ hdone => ⟨hdone, rfl⟩
    exact (hstarted c).frame rfl rfl (same _) (same _)
  | @reject a c₀ hd hcanceled =>
    have hrejected : ∀ c, Owns (s.set_cmd c₀ { s.cmds c₀ with completed := true }) c :=
      Owns.recorded hs (fun _ => rfl) (hs c₀).canceled (fun _ => Or.inl hcanceled)
        fun _ _ => ⟨rfl, rfl⟩
    exact (hrejected c).frame rfl rfl (same _) (same _)
  | @finish a c₀ result hd hcompleted =>
    have hfinished : ∀ c, Owns (s.set_cmd c₀
        { s.cmds c₀ with result := result, completed := true }) c :=
      Owns.recorded hs (fun _ => rfl) (hs c₀).canceled
        (fun _ => Or.inr (Or.inr (hholds c₀ result hd)))
        fun _ hdone => by rw [hdone] at hcompleted; cases hcompleted
    exact (hfinished c).frame rfl rfl (same _) (same _)
  | @complete a who c₀ rest hpc hcompleted =>
    have hstopped : ∀ c, Owns (s.set_cmd c₀
        { s.cmds c₀ with result := Bytes.lit "Error: MCP server stopped", completed := true }) c :=
      Owns.recorded hs (fun _ => rfl) (hs c₀).canceled (fun _ => Or.inr (Or.inl rfl))
        fun _ hdone => by rw [hdone] at hcompleted; cases hcompleted
    exact (hstopped c).frame rfl rfl (same _) (same _)

/-- A callback begins with the input of its own call. -/
theorem begun_step {s t : Server} {a : Action} (hflow : Flow s) (howns : ∀ c, Owns s c)
    (hs : ∀ e ∈ s.begun, e ∈ s.calls) (h : step s a = some t) : ∀ e ∈ t.begun, e ∈ t.calls := by
  cases effect_of_step h with
  | @call c type input hpc => exact fun e he => List.mem_append_left _ (hs e he)
  | @begin a c hd hcb =>
    intro e he
    rcases List.mem_append.mp he with he | he
    · exact hs e he
    · rw [List.mem_singleton.mp he]
      have hpushed : c ∈ s.pushed := hflow.begun.subset (by simp [hd, Drainer.waiting])
      have hcommand : (s.clients c).HasCommand := by
        have hpc := (hflow.pushed_iff c).mp hpushed
        cases hq : s.clients c <;> rw [hq] at hpc <;> first | exact hpc | rfl
      exact (howns c).input hcommand
  | _ => exact hs

/-- What the steps keep about commands and results. -/
structure Sound (s : Server) : Prop where
  flow : Flow s
  holds : HoldsResult s
  owns : ∀ c, Owns s c
  begun : ∀ e ∈ s.begun, e ∈ s.calls

theorem sound_start (query_cb_ : Bool) : Sound (.start query_cb_) where
  flow := flow_start query_cb_
  holds := nofun
  owns _ := ⟨nofun, nofun, nofun, nofun, nofun⟩
  begun := nofun

theorem sound_step {s t : Server} {a : Action} (hs : Sound s) (h : step s a = some t) :
    Sound t where
  flow := flow_step hs.flow h
  holds := holdsResult_step hs.holds h
  owns := owns_step hs.holds hs.owns h
  begun := begun_step hs.flow hs.owns hs.begun h

theorem sound_of_run {query_cb_ : Bool} {as : List Action} {s : Server}
    (hrun : run step (.start query_cb_) as = some s) : Sound s :=
  run_invariant (fun _ _ _ => sound_step) (sound_start query_cb_) hrun

/-- The log of the calls is what the run says. -/
theorem call_of_log {query_cb_ : Bool} {as : List Action} {s : Server}
    (hrun : run step (.start query_cb_) as = some s) {c : CallId} {input : Bytes}
    (h : (c, input) ∈ s.calls) : ∃ type, Action.call c type input ∈ as := by
  have horigin := run_log Server.calls (fun a e => ∃ type, a = .call e.1 type e.2)
    (fun s a t e hstep he => ?_) hrun h
  · obtain hstart | ⟨a, ha, type, rfl⟩ := horigin
    · cases hstart
    · exact ⟨type, ha⟩
  · cases effect_of_step hstep with
    | @call c type input hpc =>
      rcases List.mem_append.mp he with he | he
      · exact Or.inl he
      · rw [List.mem_singleton.mp he]
        exact Or.inr ⟨type, rfl⟩
    | _ => exact Or.inl he

/-- The log of the results has what the steps of the run gave. -/
theorem gives_of_log {query_cb_ : Bool} {as : List Action} {s : Server}
    (hrun : run step (.start query_cb_) as = some s) {c : CallId} {text : Bytes}
    (h : (c, text) ∈ s.produced) :
    Happens step (fun u a => Gives u a c text) (.start query_cb_) as := by
  have horigin := happens_of_log Server.produced (fun u a e => Gives u a e.1 e.2)
    (fun s a t e hstep he => ?_) hrun h
  · exact horigin.resolve_left List.not_mem_nil
  · cases effect_of_step hstep with
    | produce result hd hgives =>
      rcases List.mem_append.mp he with he | he
      · exact Or.inl he
      · rw [List.mem_singleton.mp he]
        exact Or.inr hgives
    | _ => exact Or.inl he

theorem produced_of_gives {s t : Server} {a : Action} {c : CallId} {text : Bytes}
    (hgives : Gives s a c text) (h : step s a = some t) : (c, text) ∈ t.produced := by
  cases hgives with
  | @callback _ ending _ hd hpayload =>
    simp only [step, Server.callback, hd] at h
    cases ending with
    | escaped => cases hpayload
    | returned =>
      cases hpayload
      cases h
      simp
    | threw =>
      cases hpayload
      cases h
      simp
  | no_handler hd hcb =>
    simp only [step, Server.run_until_stopped, hd] at h
    rw [if_neg (by simp [hcb])] at h
    cases h
    simp

theorem produced_of_run {s t : Server} {as : List Action} {e : CallId × Bytes}
    (he : e ∈ s.produced) (hrun : run step s as = some t) : e ∈ t.produced := by
  refine run_invariant (I := fun s => e ∈ s.produced) (fun s a t hs h => ?_) he hrun
  cases effect_of_step h with
  | produce => exact List.mem_append_left _ hs
  | _ => exact hs

theorem log_of_gives {query_cb_ : Bool} {as : List Action} {s : Server}
    (hrun : run step (.start query_cb_) as = some s) {c : CallId} {text : Bytes}
    (h : Happens step (fun u a => Gives u a c text) (.start query_cb_) as) :
    (c, text) ∈ s.produced := by
  obtain ⟨before, a, u, v, after, -, -, hgives, hv, hafter⟩ := h.split hrun
  exact produced_of_run (produced_of_gives hgives hv) hafter

/-- Each call has its callback at most once and with its own input, and its own result: the one that
a step of the run gave while the drainer had the command. -/
structure RunsOnce (query_cb_ : Bool) (as : List Action) (s : Server) : Prop where
  once : (s.begun.map Prod.fst).Nodup
  own_input : ∀ c input, (c, input) ∈ s.begun → ∃ type, Action.call c type input ∈ as
  results : ∀ c text, (c, text) ∈ s.produced ↔
    Happens step (fun u a => Gives u a c text) (.start query_cb_) as
  one_result : (s.produced.map Prod.fst).Nodup
  own_result : ∀ c r, s.clients c = .returned .completed r →
    r.payload = Bytes.lit "Error: MCP server stopped" ∨
      Happens step (fun u a => Gives u a c r.payload) (.start query_cb_) as
  not_canceled : ∀ c r, s.clients c = .returned .completed r → (s.cmds c).canceled = false
  flag : ∀ c r, s.clients c = .returned .completed r →
    (r.success = true ↔ ¬ Bytes.lit "Error: " <+: r.payload)

/-- In every interleaving, a callback runs at most once for each call, with the input of the call. A
call that returns a result returns its own, or that the server stopped, and never that of a canceled
command. Its flag says whether the result is an error. -/
theorem a_call_runs_once_and_gets_its_own_result {query_cb_ : Bool} {as : List Action} {s : Server}
    (hrun : run step (.start query_cb_) as = some s) : RunsOnce query_cb_ as s := by
  have hs := sound_of_run hrun
  have hfront := (List.sublist_append_left _ _).trans hs.flow.begun
  have hbegun := (List.sublist_append_left _ _).trans hfront
  have hproduced :=
    (List.sublist_append_left _ _).trans ((List.sublist_append_left _ _).trans hs.flow.produced)
  have hlive : ∀ c r, s.clients c = .returned .completed r → (s.cmds c).canceled = false := by
    intro c r hpc
    by_contra hcanceled
    have hq := (hs.owns c).canceled (by simpa using hcanceled)
    rw [hpc] at hq
    cases hq
  refine ⟨hbegun.nodup hs.flow.pushed_nodup, fun c input he => call_of_log hrun (hs.begun _ he),
    fun c text => ⟨gives_of_log hrun, log_of_gives hrun⟩, hproduced.nodup hs.flow.pushed_nodup,
    fun c r hpc => ?_, hlive, fun c r hpc => ?_⟩
  · obtain ⟨hdone, rfl⟩ := (hs.owns c).answered r hpc
    have hresult := ((hs.owns c).result hdone).resolve_left (by
      rw [hlive c _ hpc]
      exact Bool.false_ne_true)
    exact hresult.imp_right (gives_of_log hrun)
  · obtain ⟨-, rfl⟩ := (hs.owns c).answered r hpc
    rw [answer, starts_with_text, Bool.not_eq_true', ← Bool.not_eq_true, List.isPrefixOf_iff_prefix]

/-- One call from its start to its answer, with nobody else there. -/
def oneCall : List Action :=
  [.call 0 .Query (Bytes.lit "SELECT 1"), .client 0, .client 0, .drain, .interrupt false, .drain,
    .drain, .drain, .callback (.returned (Bytes.lit "1")), .drain, .client 0, .client 0, .client 0]

theorem one_call_runs_once :
    ∃ s, run step (.start true) oneCall = some s ∧
      s.clients 0 = .returned .completed { success := true, payload := Bytes.lit "1" } ∧
      RunsOnce true oneCall s := by
  have hsome : (run step (.start true) oneCall).isSome = true := by decide
  obtain ⟨s, hs⟩ := Option.isSome_iff_exists.mp hsome
  have hpc : (run step (.start true) oneCall).map (fun s => s.clients 0) =
      some (.returned .completed { success := true, payload := Bytes.lit "1" }) := by decide
  rw [hs, Option.map_some, Option.some.injEq] at hpc
  exact ⟨s, hs, hpc, a_call_runs_once_and_gets_its_own_result hs⟩

end r2sql.mcp
