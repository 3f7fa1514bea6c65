-- What a call of queue_and_wait leaves behind when it returns: a command that
-- still waits can run after its caller was told that it failed.
import R2sql.McpQueue

namespace r2sql.mcp

open runs

/-! ## Commands that wait -/

/-- A command that waits in the queue or in the drainer's hand is not completed, and no call of
`stop` has it. -/
structure Apart (s : Server) : Prop where
  live : ∀ c ∈ s.drainer.waiting ++ s.pending_commands_,
    (s.cmds c).completed = false ∧ ∀ who, c ∉ (s.stops who).taken
  taken_pushed : ∀ who, ∀ c ∈ (s.stops who).taken, c ∈ s.pushed
  completed_pushed : ∀ c, (s.cmds c).completed = true → c ∈ s.pushed

theorem Apart.shrink {s t : Server} (h : Apart s) (hcmds : t.cmds = s.cmds)
    (hpushed : s.pushed ⊆ t.pushed)
    (hwait : t.drainer.waiting ++ t.pending_commands_ ⊆ s.drainer.waiting ++ s.pending_commands_)
    (htaken : ∀ who, (t.stops who).taken ⊆ (s.stops who).taken) : Apart t where
  live c hc := by
    rw [hcmds]
    obtain ⟨hlive, hfree⟩ := h.live c (hwait hc)
    exact ⟨hlive, fun who hmem => hfree who (htaken who hmem)⟩
  taken_pushed who c hc := hpushed (h.taken_pushed who c (htaken who hc))
  completed_pushed c hc := by
    rw [hcmds] at hc
    exact hpushed (h.completed_pushed c hc)

theorem Apart.recorded {s t : Server} (h : Apart s) (c₀ : CallId) {cmd : McpPendingCommand}
    (hcmds : t.cmds = (s.set_cmd c₀ cmd).cmds) (hpushed : t.pushed = s.pushed)
    (hwait : t.drainer.waiting ++ t.pending_commands_ ⊆ s.drainer.waiting ++ s.pending_commands_)
    (htaken : ∀ who, (t.stops who).taken ⊆ (s.stops who).taken)
    (hdone : cmd.completed = true → (s.cmds c₀).completed = true ∨
      c₀ ∈ s.pushed ∧ c₀ ∉ t.drainer.waiting ++ t.pending_commands_) : Apart t where
  live c hc := by
    obtain ⟨hlive, hfree⟩ := h.live c (hwait hc)
    refine ⟨?_, fun who hmem => hfree who (htaken who hmem)⟩
    rw [hcmds, Server.cmds_set_cmd]
    split
    · rename_i h0
      subst h0
      by_contra hq
      rcases hdone (by simpa using hq) with hold | ⟨-, hout⟩
      · rw [hold] at hlive
        cases hlive
      · exact hout hc
    · exact hlive
  taken_pushed who c hc := hpushed ▸ h.taken_pushed who c (htaken who hc)
  completed_pushed c hc := by
    rw [hcmds, Server.cmds_set_cmd] at hc
    rw [hpushed]
    split at hc
    · rename_i h0
      subst h0
      exact (hdone hc).elim (h.completed_pushed c) And.left
    · exact h.completed_pushed c hc

theorem apart_start (query_cb_ : Bool) : Apart (.start query_cb_) := ⟨nofun, nofun, nofun⟩

theorem waiting_nodup {s : Server} (h : Flow s) :
    (s.drainer.waiting ++ s.pending_commands_).Nodup := by
  have hnodup := h.begun.nodup h.pushed_nodup
  rw [List.append_assoc] at hnodup
  exact (List.nodup_append.mp hnodup).2.1

theorem waiting_pushed {s : Server} (h : Flow s) :
    s.drainer.waiting ++ s.pending_commands_ ⊆ s.pushed := by
  have hsub := h.begun.subset
  rw [List.append_assoc] at hsub
  exact List.Subset.trans (List.subset_append_right _ _) hsub

/-- A step of a stopper that takes no command leaves the others what they have taken. -/
theorem taken_move_stop {s : Server} (who : Stopper) (pc : Stop)
    (hpc : pc.taken ⊆ (s.stops who).taken) (who' : Stopper) :
    ((s.move_stop who pc).stops who').taken ⊆ (s.stops who').taken := by
  rw [Server.stops_move_stop]
  split
  · rename_i hwho
    rwa [hwho]
  · exact List.Subset.refl _

theorem apart_step {s t : Server} {a : Action} (hflow : Flow s) (hholds : HoldsResult s)
    (hs : Apart s) (h : step s a = some t) : Apart t := by
  have same : ∀ who, (s.stops who).taken ⊆ (s.stops who).taken := fun _ => List.Subset.refl _
  have hpending : s.pending_commands_ ⊆ s.drainer.waiting ++ s.pending_commands_ :=
    List.subset_append_right _ _
  cases effect_of_step h with
  | call | refuse | full | answer | abandon =>
    exact hs.shrink rfl (List.Subset.refl _) (List.Subset.refl _) same
  | @make c₀ type input hpc =>
    exact hs.recorded c₀ rfl rfl (List.Subset.refl _) same nofun
  | @push c₀ hpc =>
    have hfresh : c₀ ∉ s.pushed := by
      rw [hflow.pushed_iff, hpc]
      decide
    refine ⟨fun c hc => ?_, fun who c hc => List.mem_append_left _ (hs.taken_pushed who c hc),
      fun c hc => List.mem_append_left _ (hs.completed_pushed c hc)⟩
    have hmem : c ∈ s.drainer.waiting ++ s.pending_commands_ ∨ c = c₀ := by
      simpa [Server.move, or_assoc] using hc
    rcases hmem with hold | rfl
    · exact hs.live c hold
    · refine ⟨?_, fun who htaken => hfresh (hs.taken_pushed who c htaken)⟩
      by_contra hq
      exact hfresh (hs.completed_pushed c ((Bool.not_eq_false _).mp hq))
  | @wait a c₀ pc held hpc hpc' =>
    exact hs.recorded c₀ rfl rfl (List.Subset.refl _) same Or.inl
  | @cancel c₀ hpc =>
    exact hs.recorded c₀ rfl rfl (List.Subset.refl _) same Or.inl
  | @erase c₀ r hpc =>
    refine hs.shrink rfl (List.Subset.refl _) ?_ same
    exact List.append_subset.mpr ⟨List.subset_append_left _ _,
      List.Subset.trans List.erase_subset hpending⟩
  | @turn a d hd =>
    have hnone : d.waiting = [] := (waiting_of_idle hd).1
    refine hs.shrink rfl (List.Subset.refl _) ?_ same
    simpa only [hnone, List.nil_append] using hpending
  | interrupt =>
    exact hs.shrink rfl (List.Subset.refl _) hpending (taken_move_stop .drainer .storing nofun)
  | @pop a c₀ rest hd hp =>
    refine hs.shrink rfl (List.Subset.refl _) ?_ same
    rw [hp]
    exact List.subset_append_right _ _
  | @allow a c₀ hd =>
    refine hs.recorded c₀ rfl rfl ?_ same Or.inl
    rw [hd]
    exact List.Subset.refl _
  | @reject a c₀ hd hcanceled =>
    refine hs.recorded c₀ rfl rfl hpending same fun _ => Or.inr ?_
    have hnodup := waiting_nodup hflow
    have hpushed := waiting_pushed hflow
    rw [hd] at hnodup hpushed
    exact ⟨hpushed (by simp [Drainer.waiting]), (List.nodup_cons.mp hnodup).1⟩
  | begin | produce => exact hs.shrink rfl (List.Subset.refl _) hpending same
  | @finish a c₀ result hd hcompleted =>
    refine hs.recorded c₀ rfl rfl hpending same fun _ => Or.inr ?_
    have hmem : c₀ ∈ s.produced.map Prod.fst := List.mem_map_of_mem (hholds c₀ result hd)
    have hnodup := hflow.produced.nodup hflow.pushed_nodup
    refine ⟨hflow.produced.subset (by simp [hmem]), fun hq => ?_⟩
    exact (List.nodup_append.mp hnodup).2.2 c₀ (List.mem_append_left _ hmem) c₀ hq rfl
  | @stop_turn a who pc running hpc =>
    exact hs.shrink rfl (List.Subset.refl _) (List.Subset.refl _) (taken_move_stop who pc hpc)
  | @swap a who =>
    have hnodup := List.nodup_append.mp (waiting_nodup hflow)
    refine ⟨fun c hc => ?_, fun who' c hc => ?_, hs.completed_pushed⟩
    · have hwaiting : c ∈ s.drainer.waiting :=
        (List.mem_append.mp hc).resolve_right List.not_mem_nil
      obtain ⟨hlive, hfree⟩ := hs.live c (List.mem_append_left _ hwaiting)
      refine ⟨hlive, fun who' hmem => ?_⟩
      rw [Server.stops_move_stop] at hmem
      split at hmem
      · exact hnodup.2.2 c hwaiting c hmem rfl
      · exact hfree who' hmem
    · rw [Server.stops_move_stop] at hc
      split at hc
      · exact waiting_pushed hflow (hpending hc)
      · exact hs.taken_pushed who' c hc
  | @complete a who c₀ rest hpc hcompleted =>
    have hmem : c₀ ∈ (s.stops who).taken := by simp [hpc, Stop.taken]
    refine hs.recorded c₀ rfl rfl (List.Subset.refl _)
      (taken_move_stop (s := s) who (.completing rest) (by simp [hpc, Stop.taken]))
      fun _ => Or.inr ?_
    exact ⟨hs.taken_pushed who c₀ hmem, fun hq => (hs.live c₀ hq).2 who hmem⟩

/-! ## Started or canceled -/

/-- A command is started or canceled, and not both. -/
structure Decided (s : Server) : Prop where
  started_live : ∀ c, (s.cmds c).started = true → (s.cmds c).canceled = false
  starting_started : ∀ c, s.drainer = .starting c → (s.cmds c).started = true
  timed_out_canceled : ∀ c, (s.clients c).Canceled → (s.cmds c).canceled = true

theorem decided_start (query_cb_ : Bool) : Decided (.start query_cb_) := ⟨nofun, nofun, nofun⟩

theorem Decided.frame {s t : Server} (h : Decided s)
    (hflags : ∀ c, (t.cmds c).started = (s.cmds c).started ∧
      (t.cmds c).canceled = (s.cmds c).canceled)
    (hdrainer : ∀ c, t.drainer = .starting c → s.drainer = .starting c)
    (hclients : ∀ c, (t.clients c).Canceled → (s.clients c).Canceled) : Decided t where
  started_live c hc := by
    rw [(hflags c).1] at hc
    rw [(hflags c).2]
    exact h.started_live c hc
  starting_started c hc := by
    rw [(hflags c).1]
    exact h.starting_started c (hdrainer c hc)
  timed_out_canceled c hc := by
    rw [(hflags c).2]
    exact h.timed_out_canceled c (hclients c hc)

theorem canceled_move {s : Server} {c₀ : CallId} {pc : Client}
    (hpc : pc.Canceled → (s.clients c₀).Canceled) (c : CallId)
    (hc : ((s.move c₀ pc).clients c).Canceled) : (s.clients c).Canceled := by
  rw [Server.clients_move] at hc
  split at hc
  · rename_i h0
    subst h0
    exact hpc hc
  · exact hc

theorem flags_set_cmd {s : Server} {c₀ : CallId} {cmd : McpPendingCommand}
    (hstarted : cmd.started = (s.cmds c₀).started) (hcanceled : cmd.canceled = (s.cmds c₀).canceled)
    (c : CallId) : ((s.set_cmd c₀ cmd).cmds c).started = (s.cmds c).started ∧
      ((s.set_cmd c₀ cmd).cmds c).canceled = (s.cmds c).canceled := by
  rw [Server.cmds_set_cmd]
  split
  · rename_i h0
    subst h0
    exact ⟨hstarted, hcanceled⟩
  · exact ⟨rfl, rfl⟩

theorem Decided.flagged {s t : Server} (h : Decided s) (c₀ : CallId) {cmd : McpPendingCommand}
    (hcmds : t.cmds = (s.set_cmd c₀ cmd).cmds) (hlive : cmd.started = true → cmd.canceled = false)
    (hdrainer : ∀ c, t.drainer = .starting c →
      c = c₀ ∧ cmd.started = true ∨ c ≠ c₀ ∧ s.drainer = .starting c)
    (hclients : ∀ c, (t.clients c).Canceled →
      c = c₀ ∧ cmd.canceled = true ∨ c ≠ c₀ ∧ (s.clients c).Canceled) : Decided t where
  started_live c hc := by
    rw [hcmds, Server.cmds_set_cmd] at hc ⊢
    split
    · rename_i h0
      rw [if_pos h0] at hc
      exact hlive hc
    · rename_i h0
      rw [if_neg h0] at hc
      exact h.started_live c hc
  starting_started c hc := by
    rw [hcmds, Server.cmds_set_cmd]
    rcases hdrainer c hc with ⟨h0, hstarted⟩ | ⟨h0, hold⟩
    · rw [if_pos h0, hstarted]
    · rw [if_neg h0, h.starting_started c hold]
  timed_out_canceled c hc := by
    rw [hcmds, Server.cmds_set_cmd]
    rcases hclients c hc with ⟨h0, hcanceled⟩ | ⟨h0, hold⟩
    · rw [if_pos h0, hcanceled]
    · rw [if_neg h0, h.timed_out_canceled c hold]

theorem decided_step {s t : Server} {a : Action} (hflow : Flow s) (hs : Decided s)
    (h : step s a = some t) : Decided t := by
  have same : ∀ c, (s.cmds c).started = (s.cmds c).started ∧
      (s.cmds c).canceled = (s.cmds c).canceled :=
    fun _ => ⟨rfl, rfl⟩
  cases effect_of_step h with
  | call | refuse | full | push | answer =>
    exact hs.frame same (fun _ => id) (canceled_move (by rintro ⟨⟩))
  | abandon hpc hb =>
    exact hs.frame same (fun _ => id) (canceled_move (by rcases hb with rfl | rfl <;> rintro ⟨⟩))
  | erase hpc =>
    exact hs.frame same (fun _ => id) (canceled_move (by rw [hpc]; exact fun _ => rfl))
  | @make c₀ type input hpc =>
    refine hs.flagged c₀ rfl (by rintro ⟨⟩) (fun c hc => Or.inr ⟨?_, hc⟩) fun c hc => Or.inr ?_
    · -- The command of a call that has not made it is not in the drainer's hand.
      rintro rfl
      have hpushed : c ∈ s.pushed :=
        waiting_pushed hflow (by simp [show s.drainer = .starting c from hc, Drainer.waiting])
      rw [hflow.pushed_iff, hpc] at hpushed
      cases hpushed
    · rw [Server.clients_move] at hc
      split at hc
      · cases hc
      · exact ⟨‹_›, hc⟩
  | @wait a c₀ pc held hpc hpc' =>
    exact hs.frame (flags_set_cmd rfl rfl) (fun _ => id)
      (canceled_move (by rw [(of_waiting hpc').2.1]; rintro ⟨⟩))
  | @cancel c₀ hpc hcompleted hstarted =>
    have hnot : (s.cmds c₀).started ≠ true := by
      rw [hstarted]
      exact Bool.false_ne_true
    refine hs.flagged c₀ rfl (fun hq => absurd hq hnot) (fun c hc => Or.inr ⟨?_, hc⟩) fun c hc => ?_
    · rintro rfl
      rw [hs.starting_started c hc] at hstarted
      cases hstarted
    · rw [Server.clients_move] at hc
      split at hc
      · exact Or.inl ⟨‹_›, rfl⟩
      · exact Or.inr ⟨‹_›, hc⟩
  | @turn a d hd =>
    exact hs.frame same (fun c hq => by rw [show d = _ from hq] at hd; cases hd) fun _ => id
  | interrupt | pop | begin | produce => exact hs.frame same (by rintro _ ⟨⟩) fun _ => id
  | reject | finish => exact hs.frame (flags_set_cmd rfl rfl) (by rintro _ ⟨⟩) fun _ => id
  | @allow a c₀ hd hcompleted hcanceled =>
    refine hs.flagged c₀ rfl (fun _ => hcanceled) (fun c hc => ?_) fun c hc => ?_
    · cases hc
      exact Or.inl ⟨rfl, rfl⟩
    · by_cases h0 : c = c₀
      · subst h0
        rw [hs.timed_out_canceled c hc] at hcanceled
        cases hcanceled
      · exact Or.inr ⟨h0, hc⟩
  | stop_turn | swap => exact hs.frame same (fun _ => id) fun _ => id
  | complete => exact hs.frame (flags_set_cmd rfl rfl) (fun _ => id) fun _ => id

/-! ## What is left of a command whose call has returned -/

/-- The drainer has a callback to begin for the command. -/
def MayBegin (s : Server) (c : CallId) : Prop :=
  s.query_cb_ = true ∧
    (s.drainer = .starting c ∨ s.drainer = .admitting c ∧ (s.cmds c).canceled = false)

/-- The drainer has begun the callback of the command, or there is no callback and the command is
out of the queue, or the command is completed, or a call of `stop` has swapped it out of the
queue. -/
def OutOfReach (s : Server) (c : CallId) : Prop :=
  c ∈ s.begun.map Prod.fst ∨ (s.query_cb_ = false ∧ c ∉ s.pending_commands_) ∨
    (s.cmds c).completed = true ∨ ∃ who, c ∈ (s.stops who).taken

/-- A call that found its command uncompleted after its wait returns when the drainer cannot reach
the command. -/
def ReturnsInTime (s : Server) (a : Action) : Prop :=
  ∀ c, a = .client c → s.clients c = .unfinished → OutOfReach s c

/-- A command whose call has returned is not in the queue, and has no callback to begin. -/
def Settled (s : Server) : Prop :=
  ∀ c b r, s.clients c = .returned b r → c ∉ s.pending_commands_ ∧ ¬ MayBegin s c

/-- All that the steps keep, where every call returns in time. -/
structure Tidy (s : Server) : Prop where
  sound : Sound s
  apart : Apart s
  decided : Decided s
  settled : Settled s

theorem waiting_of_mayBegin {s : Server} {c : CallId} (h : MayBegin s c) :
    c ∈ s.drainer.waiting := by
  rcases h.2 with hd | ⟨hd, -⟩ <;> simp [hd, Drainer.waiting]

/-- A command out of reach neither waits in the queue nor has a callback to begin. -/
theorem settled_of_outOfReach {s : Server} (hflow : Flow s) (hapart : Apart s) {c : CallId}
    (h : OutOfReach s c) : c ∉ s.pending_commands_ ∧ ¬ MayBegin s c := by
  have hfree : c ∉ s.drainer.waiting ++ s.pending_commands_ →
      c ∉ s.pending_commands_ ∧ ¬ MayBegin s c := fun hc =>
    ⟨fun hq => hc (List.mem_append_right _ hq),
      fun hq => hc (List.mem_append_left _ (waiting_of_mayBegin hq))⟩
  rcases h with hbegun | ⟨hcb, hout⟩ | hdone | ⟨who, htaken⟩
  · have hnodup := hflow.begun.nodup hflow.pushed_nodup
    rw [List.append_assoc] at hnodup
    exact hfree fun hq => (List.nodup_append.mp hnodup).2.2 c hbegun c hq rfl
  · refine ⟨hout, fun hq => ?_⟩
    rw [hq.1] at hcb
    cases hcb
  · refine hfree fun hq => ?_
    rw [(hapart.live c hq).1] at hdone
    cases hdone
  · exact hfree fun hq => (hapart.live c hq).2 who htaken

theorem returned_step {s t : Server} {a : Action} (h : step s a = some t) {c : CallId} {b : Branch}
    {r : McpQueueResult} (hc : s.clients c = .returned b r) : t.clients c = .returned b r := by
  have hother : ∀ {c₀ pc}, s.clients c₀ ≠ .returned b r →
      (s.move c₀ pc).clients c = .returned b r := by
    intro c₀ pc hpc
    rw [Server.clients_move, if_neg, hc]
    rintro rfl
    exact hpc hc
  cases effect_of_step h with
  | call hpc | refuse hpc | make hpc | full hpc | push hpc | erase hpc | answer hpc | abandon hpc =>
    exact hother (by rw [hpc]; exact nofun)
  | wait held hpc | cancel hpc => exact hother ((of_waiting hpc).2.2.2 b r)
  | _ => exact hc

/-- Commands whose calls returned earlier stay settled when the queue does not grow by them and the
drainer gets no callback to begin for them. -/
theorem Settled.frame {s t : Server} (h : Settled s) {c : CallId} {b : Branch} {r : McpQueueResult}
    (hc : s.clients c = .returned b r)
    (hpending : c ∈ t.pending_commands_ → c ∈ s.pending_commands_)
    (hbegin : MayBegin t c → MayBegin s c ∨ c ∈ s.pending_commands_) :
    c ∉ t.pending_commands_ ∧ ¬ MayBegin t c := by
  obtain ⟨hout, hno⟩ := h c b r hc
  exact ⟨fun hq => hout (hpending hq), fun hq => (hbegin hq).elim hno hout⟩

/-- The step of one call: the call settles its own command, and the others stay settled. -/
theorem Settled.moved {s t : Server} (h : Settled s) {c₀ : CallId} {pc : Client}
    (hclients : t.clients = (s.move c₀ pc).clients)
    (hown : ∀ b r, pc = .returned b r → c₀ ∉ t.pending_commands_ ∧ ¬ MayBegin t c₀)
    (hpending : ∀ c, c ≠ c₀ → c ∈ t.pending_commands_ → c ∈ s.pending_commands_)
    (hbegin : ∀ c, c ≠ c₀ → MayBegin t c → MayBegin s c) : Settled t := by
  intro c b r hc
  rw [hclients, Server.clients_move] at hc
  split at hc
  · rename_i h0
    subst h0
    exact hown b r hc
  · rename_i h0
    exact h.frame hc (hpending c h0) fun hq => Or.inl (hbegin c h0 hq)

theorem MayBegin.frame {s t : Server} {c : CallId} (h : MayBegin t c)
    (hcb : t.query_cb_ = s.query_cb_) (hdrainer : t.drainer = s.drainer)
    (hflags : (t.cmds c).started = (s.cmds c).started ∧
      (t.cmds c).canceled = (s.cmds c).canceled) : MayBegin s c := by
  unfold MayBegin at h
  rw [hcb, hdrainer, hflags.2] at h
  exact h

/-- A call that has not pushed its command has nothing to settle. -/
theorem settled_of_not_pushed {s : Server} (hflow : Flow s) {c : CallId}
    (hc : (s.clients c).HasPushed = false) : c ∉ s.pending_commands_ ∧ ¬ MayBegin s c := by
  have hpushed : c ∉ s.pushed := by
    rw [hflow.pushed_iff, hc]
    exact Bool.false_ne_true
  exact ⟨fun hq => hpushed (waiting_pushed hflow (List.mem_append_right _ hq)),
    fun hq => hpushed (waiting_pushed hflow (List.mem_append_left _ (waiting_of_mayBegin hq)))⟩

theorem settled_step {s t : Server} {a : Action} (hs : Tidy s) (ha : ReturnsInTime s a)
    (h : step s a = some t) : Settled t := by
  obtain ⟨hsound, hapart, hdecided, hsettled⟩ := hs
  have hflow := hsound.flow
  have hother : ∀ c₀ cmd c, c ≠ c₀ →
      ((s.set_cmd c₀ cmd).cmds c).started = (s.cmds c).started ∧
        ((s.set_cmd c₀ cmd).cmds c).canceled = (s.cmds c).canceled := by
    intro c₀ cmd c h0
    rw [Server.cmds_set_cmd, if_neg h0]
    exact ⟨rfl, rfl⟩
  cases effect_of_step h with
  | @call c₀ type input hpc => exact hsettled.moved rfl nofun (fun _ _ => id) fun _ _ => id
  | @refuse c₀ type input r' hpc =>
    exact hsettled.moved rfl (fun _ _ _ => settled_of_not_pushed hflow (by rw [hpc]; rfl))
      (fun _ _ => id) fun _ _ => id
  | @full c₀ r' hpc =>
    exact hsettled.moved rfl (fun _ _ _ => settled_of_not_pushed hflow (by rw [hpc]; rfl))
      (fun _ _ => id) fun _ _ => id
  | @make c₀ type input hpc =>
    exact hsettled.moved rfl nofun (fun _ _ => id)
      fun c h0 hq => hq.frame rfl rfl (hother c₀ _ c h0)
  | @push c₀ hpc =>
    refine hsettled.moved rfl nofun (fun c h0 hq => ?_) fun _ _ => id
    exact (List.mem_append.mp hq).resolve_right (by simpa using h0)
  | @wait a c₀ pc held hpc hpc' =>
    exact hsettled.moved rfl (fun b r hret => absurd hret ((of_waiting hpc').2.2.2 b r))
      (fun _ _ => id) fun c h0 hq => hq.frame rfl rfl (hother c₀ _ c h0)
  | @cancel c₀ hpc hcompleted hstarted =>
    exact hsettled.moved rfl nofun (fun _ _ => id)
      fun c h0 hq => hq.frame rfl rfl (hother c₀ _ c h0)
  | @erase c₀ r' hpc =>
    refine hsettled.moved rfl (fun _ _ _ => ⟨?_, ?_⟩) (fun _ _ => List.mem_of_mem_erase)
      fun _ _ => id
    · exact (List.nodup_append.mp (waiting_nodup hflow)).2.1.not_mem_erase
    · -- The command is canceled, so the drainer has not started it and does not admit it.
      have hcanceled := hdecided.timed_out_canceled c₀ (by rw [hpc]; rfl)
      rintro ⟨-, hd | ⟨-, hlive⟩⟩
      · rw [hdecided.started_live c₀ (hdecided.starting_started c₀ hd)] at hcanceled
        cases hcanceled
      · rw [show (s.cmds c₀).canceled = false from hlive] at hcanceled
        cases hcanceled
  | @answer c₀ hpc hcompleted =>
    have hreach : OutOfReach s c₀ := Or.inr (Or.inr (Or.inl hcompleted))
    exact hsettled.moved rfl (fun _ _ _ => settled_of_outOfReach hflow hapart hreach)
      (fun _ _ => id) fun _ _ => id
  | @abandon c₀ b' r' hpc hb =>
    exact hsettled.moved rfl (fun _ _ _ => settled_of_outOfReach hflow hapart (ha c₀ rfl hpc))
      (fun _ _ => id) fun _ _ => id
  | @turn a d hd =>
    intro c b r hc
    have hnone : d.waiting = [] := (waiting_of_idle hd).1
    refine hsettled.frame hc id fun hq => absurd (waiting_of_mayBegin hq) ?_
    simp only [hnone]
    exact List.not_mem_nil
  | interrupt | begin | produce | reject | finish =>
    intro c b r hc
    exact hsettled.frame hc id fun hq => absurd (waiting_of_mayBegin hq) List.not_mem_nil
  | @pop a c₀ rest hd hp =>
    intro c b r hc
    refine hsettled.frame hc (fun hq => hp ▸ List.mem_cons_of_mem c₀ hq) fun hq => Or.inr ?_
    have h0 : c = c₀ := by simpa [Drainer.waiting] using waiting_of_mayBegin hq
    rw [hp, h0]
    exact List.mem_cons_self
  | @allow a c₀ hd hcompleted hlive =>
    intro c b r hc
    refine hsettled.frame hc id fun hq => Or.inl ?_
    have h0 : c = c₀ := by simpa [Drainer.waiting] using waiting_of_mayBegin hq
    exact ⟨hq.1, Or.inr ⟨h0 ▸ hd, h0 ▸ hlive⟩⟩
  | @stop_turn a who pc running hpc =>
    intro c b r hc
    exact hsettled.frame hc id Or.inl
  | @swap a who =>
    intro c b r hc
    exact hsettled.frame hc (fun hq => absurd hq List.not_mem_nil) Or.inl
  | @complete a who c₀ rest hpc hcompleted =>
    intro c b r hc
    refine hsettled.frame hc id fun hq => Or.inl (hq.frame rfl rfl ?_)
    apply flags_set_cmd <;> rfl

theorem tidy_start (query_cb_ : Bool) : Tidy (.start query_cb_) :=
  ⟨sound_start query_cb_, apart_start query_cb_, decided_start query_cb_, nofun⟩

theorem tidy_step {s t : Server} {a : Action} (hs : Tidy s) (ha : ReturnsInTime s a)
    (h : step s a = some t) : Tidy t where
  sound := sound_step hs.sound h
  apart := apart_step hs.sound.flow hs.sound.holds hs.apart h
  decided := decided_step hs.sound.flow hs.decided h
  settled := settled_step hs ha h

/-- In a run whose calls all return in time, a command whose call has returned is not in the queue,
and its callback does not begin any more. -/
theorem a_returned_call_leaves_nothing_behind {query_cb_ : Bool} {as bs : List Action}
    {s t : Server}
    (htime : Along step ReturnsInTime (.start query_cb_) (as ++ bs))
    (hrun : run step (.start query_cb_) as = some s) (hlater : run step s bs = some t)
    {c : CallId} {b : Branch} {r : McpQueueResult} (hc : s.clients c = .returned b r) :
    c ∉ s.pending_commands_ ∧
      (t.begun.filter fun e => e.1 = c) = s.begun.filter fun e => e.1 = c := by
  obtain ⟨htime₁, htime₂⟩ := along_append htime hrun
  have hs := run_invariant_along (fun _ _ _ => tidy_step) (tidy_start query_cb_) htime₁ hrun
  refine ⟨(hs.settled c b r hc).1, ?_⟩
  have hlast : Tidy t ∧ t.clients c = .returned b r ∧
      (t.begun.filter fun e => e.1 = c) = s.begun.filter fun e => e.1 = c := by
    refine run_invariant_along (I := fun u => Tidy u ∧ u.clients c = .returned b r ∧
      (u.begun.filter fun e => e.1 = c) = s.begun.filter fun e => e.1 = c) ?_ ⟨hs, hc, rfl⟩
        htime₂ hlater
    rintro u a v ⟨hu, huc, hbegun⟩ ha hstep
    refine ⟨tidy_step hu ha hstep, returned_step hstep huc, ?_⟩
    rw [← hbegun]
    cases effect_of_step hstep with
    | @begin a c₀ hd hcb =>
      have h0 : c₀ ≠ c := by
        rintro rfl
        exact (hu.settled c₀ b r huc).2 ⟨hcb, Or.inl hd⟩
      simp [List.filter_append, h0]
    | _ => rfl
  exact hlast.2.2

/-- A test that is enough for a return in time: the callback has begun. -/
def inTimeTest (s : Server) : Action → Bool
  | .client c => s.clients c ≠ .unfinished || s.begun.any fun e => e.1 == c
  | _ => true

theorem returnsInTime_of_test {s : Server} {a : Action} (h : inTimeTest s a = true) :
    ReturnsInTime s a := by
  rintro c rfl hpc
  obtain ⟨input, hmem⟩ : ∃ input, (c, input) ∈ s.begun := by simpa [inTimeTest, hpc] using h
  exact Or.inl (List.mem_map_of_mem hmem)

/-- A call whose callback has begun when the server stops, and that returns before the callback
ends. -/
def stoppedCall : List Action :=
  [.call 0 .Query (Bytes.lit "SELECT 1"), .client 0, .client 0, .drain, .interrupt false, .drain,
    .drain, .drain, .call_stop 0, .stop (.caller 0), .client 0, .client 0, .client 0, .client 0]

theorem a_call_stopped_in_its_callback_leaves_nothing_behind :
    ∃ s t, run step (.start true) stoppedCall = some s ∧
      run step s [.callback (.returned (Bytes.lit "1")), .drain] = some t ∧
      0 ∉ s.pending_commands_ ∧
      (t.begun.filter fun e => e.1 = 0) = s.begun.filter fun e => e.1 = 0 := by
  have hsome : (run step (.start true)
      (stoppedCall ++ [.callback (.returned (Bytes.lit "1")), .drain])).isSome = true := by decide
  obtain ⟨t, ht⟩ := Option.isSome_iff_exists.mp hsome
  obtain ⟨s, hs, hst⟩ := run_append_iff.mp ht
  have hpc : (run step (.start true) stoppedCall).map (fun s => s.clients 0) =
      some (.returned .stopped (failure "Error: MCP server stopped")) := by decide
  rw [hs, Option.map_some, Option.some.injEq] at hpc
  exact ⟨s, t, hs, hst, a_returned_call_leaves_nothing_behind
    (along_of_test (fun _ _ => returnsInTime_of_test) (by decide)) hs hst hpc⟩

/-- A call that finds the server stopped while its command is in the queue. -/
def lateCall : List Action :=
  [.call 0 .Query (Bytes.lit "DROP"), .client 0, .client 0, .drain, .interrupt false, .call_stop 0,
    .stop (.caller 0), .client 0, .client 0, .client 0, .client 0]

/-- The call returns that the server stopped, with its command in the queue. Then the drainer, that
had loaded `running_` before, pops the command and begins its callback. -/
theorem a_stopped_call_can_run_later :
    ∃ s t, run step (.start true) lateCall = some s ∧ run step s [.drain, .drain, .drain] = some t ∧
      s.clients 0 = .returned .stopped (failure "Error: MCP server stopped") ∧
      0 ∈ s.pending_commands_ ∧ s.begun = [] ∧ t.begun = [(0, Bytes.lit "DROP")] := by
  have hsome : (run step (.start true) (lateCall ++ [.drain, .drain, .drain])).isSome = true := by
    decide
  obtain ⟨t, ht⟩ := Option.isSome_iff_exists.mp hsome
  obtain ⟨s, hs, hst⟩ := run_append_iff.mp ht
  have hs' : (run step (.start true) lateCall).map
      (fun s => (s.clients 0, s.pending_commands_, s.begun)) =
        some (.returned .stopped (failure "Error: MCP server stopped"), [0], []) := by decide
  have ht' : (run step (.start true) (lateCall ++ [.drain, .drain, .drain])).map Server.begun =
      some [(0, Bytes.lit "DROP")] := by decide
  rw [hs, Option.map_some, Option.some.injEq, Prod.mk.injEq, Prod.mk.injEq] at hs'
  rw [ht, Option.map_some, Option.some.injEq] at ht'
  exact ⟨s, t, hs, hst, hs'.1, by simp [hs'.2.1], hs'.2.2, ht'⟩

end r2sql.mcp
