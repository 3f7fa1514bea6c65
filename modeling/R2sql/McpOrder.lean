-- The order and the capacity of the command queue: where each command is that
-- was pushed, and in which order the callbacks begin.
import R2sql.McpTimeouts

namespace r2sql.mcp

open runs

/-! ## What a step does to the queue -/

/-- The command that the drainer has popped and not let go. -/
def Drainer.hand : Drainer → List CallId
  | .admitting c | .starting c | .executing c | .finishing c _ => [c]
  | _ => []

/-- A call of `queue_and_wait` erases its command, after its time has run out. -/
def Expires (s : Server) (a : Action) (c : CallId) : Prop :=
  a = .client c ∧ s.clients c = .erasing ∧ c ∈ s.pending_commands_

/-- A call of `stop` swaps the queue out, with the command in it. -/
def Swaps (s : Server) (a : Action) (c : CallId) : Prop :=
  ∃ who, a = .stop who ∧ s.stops who = .swapping ∧ c ∈ s.pending_commands_

/-- An exception of the callback that is no `std::exception` leaves the loop with the command. -/
def Escapes (s : Server) (a : Action) (c : CallId) : Prop :=
  a = .callback .escaped ∧ s.drainer = .executing c

/-- What a step does to the queue and to the drainer's hand. -/
inductive Moves (s t : Server) : Action → Prop
  | stay {a} (hpushed : t.pushed = s.pushed) (hpending : t.pending_commands_ = s.pending_commands_)
      (hhand : t.drainer.hand = s.drainer.hand)
      (hclient : ∀ c, a = .client c → s.clients c ≠ .erasing)
      (hstop : ∀ who, a = .stop who → s.stops who ≠ .swapping) : Moves s t a
  | push {c} (hpc : s.clients c = .made) (hroom : s.pending_commands_.length < kMcpDefaultMaxQueue)
      (hpushed : t.pushed = s.pushed ++ [c])
      (hpending : t.pending_commands_ = s.pending_commands_ ++ [c])
      (hhand : t.drainer.hand = s.drainer.hand) : Moves s t (.client c)
  | expire {c} (hpushed : t.pushed = s.pushed)
      (hpending : t.pending_commands_ = s.pending_commands_.erase c)
      (hhand : t.drainer.hand = s.drainer.hand) (hpc : s.clients c = .erasing) :
      Moves s t (.client c)
  | pop {c} (hpushed : t.pushed = s.pushed)
      (hpending : s.pending_commands_ = c :: t.pending_commands_)
      (hhand : s.drainer.hand = []) (hhand' : t.drainer.hand = [c]) : Moves s t .drain
  | drop {a} (hdrainer : a = .drain ∨ ∃ ending, a = .callback ending)
      (hpushed : t.pushed = s.pushed) (hpending : t.pending_commands_ = s.pending_commands_)
      (hhand : t.drainer.hand = [])
      (hdone : ∀ c ∈ s.drainer.hand, (t.cmds c).completed = true ∨ Escapes s a c) : Moves s t a
  | swap {who} (hpushed : t.pushed = s.pushed) (hpending : t.pending_commands_ = [])
      (hhand : t.drainer.hand = s.drainer.hand) (hpc : s.stops who = .swapping) :
      Moves s t (.stop who)

theorem moves_of_queue_and_wait {s t : Server} {c : CallId} (h : s.queue_and_wait c = some t) :
    Moves s t (.client c) := by
  have hstay : s.clients c ≠ .erasing → t.pushed = s.pushed →
      t.pending_commands_ = s.pending_commands_ → t.drainer = s.drainer →
      Moves s t (.client c) := by
    intro hpc hpushed hpending hdrainer
    refine .stay hpushed hpending (by rw [hdrainer]) ?_ (by simp)
    rintro _ ⟨⟩
    exact hpc
  unfold Server.queue_and_wait at h
  cases hpc : s.clients c with
  | absent | blocked_done | blocked_start | returned => simp [hpc] at h
  | made =>
    simp only [hpc] at h
    split at h <;> cases h
    · exact hstay (by simp [hpc]) rfl rfl rfl
    · rename_i hroom
      refine .push hpc ?_ rfl rfl rfl
      simpa [kMcpDefaultMaxQueue] using hroom
  | wait_start timed_out =>
    simp only [hpc] at h
    split at h
    · cases h
      exact hstay (by simp [hpc]) rfl rfl rfl
    · split at h <;> cases h <;> exact hstay (by simp [hpc]) rfl rfl rfl
  | erasing =>
    simp only [hpc, Option.some.injEq] at h
    subst h
    exact .expire rfl rfl rfl hpc
  | _ =>
    simp only [hpc] at h
    split at h <;> cases h <;> exact hstay (by simp [hpc]) rfl rfl rfl

theorem moves_of_run_until_stopped {s t : Server} (h : s.run_until_stopped = some t) :
    Moves s t .drain := by
  have hstay : t.pushed = s.pushed → t.pending_commands_ = s.pending_commands_ →
      t.drainer.hand = s.drainer.hand → Moves s t .drain :=
    fun hpushed hpending hhand => .stay hpushed hpending hhand (by simp) (by simp)
  unfold Server.run_until_stopped at h
  cases hd : s.drainer with
  | interruptible | executing | finished => simp [hd] at h
  | checking =>
    simp only [hd, Option.some.injEq] at h
    subst h
    refine hstay rfl rfl ?_
    rw [hd]
    dsimp only
    split <;> rfl
  | stopping =>
    simp only [hd] at h
    split at h <;> cases h
    exact hstay rfl rfl (by rw [hd]; rfl)
  | popping =>
    simp only [hd] at h
    split at h <;> cases h
    exact .pop rfl ‹_› (by rw [hd]; rfl) rfl
  | admitting c =>
    simp only [hd] at h
    split at h
    · cases h
    · split at h
      · cases h
        exact hstay rfl rfl (by rw [hd]; rfl)
      · rename_i hlive
        split at h <;> cases h
        · refine .drop (Or.inl rfl) rfl rfl rfl fun c' hc => Or.inl ?_
          rw [hd, Drainer.hand, List.mem_singleton] at hc
          simp [hc, Server.cmds_set_cmd]
        · rename_i hreject
          refine .drop (Or.inl rfl) rfl rfl rfl fun c' hc => Or.inl ?_
          rw [hd, Drainer.hand, List.mem_singleton] at hc
          rw [hc]
          cases hcompleted : (s.cmds c).completed with
          | true => rfl
          | false => simp [hcompleted] at hlive hreject; simp [hlive] at hreject
  | starting c =>
    simp only [hd] at h
    split at h <;> cases h <;> exact hstay rfl rfl (by rw [hd]; rfl)
  | finishing c result =>
    simp only [hd] at h
    split at h
    · cases h
    · split at h <;> cases h
      · refine .drop (Or.inl rfl) rfl rfl rfl fun c' hc => Or.inl ?_
        rw [hd, Drainer.hand, List.mem_singleton] at hc
        simp [hc, Server.cmds_set_cmd]
      · rename_i hcompleted
        refine .drop (Or.inl rfl) rfl rfl rfl fun c' hc => Or.inl ?_
        rw [hd, Drainer.hand, List.mem_singleton] at hc
        rw [hc]
        simpa using hcompleted

theorem moves_of_stop {s t : Server} {who : Stopper} (h : s.stop who = some t) :
    Moves s t (.stop who) := by
  have hstay : s.stops who ≠ .swapping → t.pushed = s.pushed →
      t.pending_commands_ = s.pending_commands_ → t.drainer = s.drainer →
      Moves s t (.stop who) := by
    intro hpc hpushed hpending hdrainer
    refine .stay hpushed hpending (by rw [hdrainer]) (by simp) ?_
    rintro _ ⟨⟩
    exact hpc
  unfold Server.stop at h
  cases hpc : s.stops who with
  | absent | returned => simp [hpc] at h
  | storing =>
    simp only [hpc, Option.some.injEq] at h
    subst h
    exact hstay (by simp [hpc]) rfl rfl rfl
  | swapping =>
    simp only [hpc, Option.some.injEq] at h
    subst h
    exact .swap rfl rfl rfl hpc
  | completing pending =>
    cases pending with
    | nil =>
      simp only [hpc, Option.some.injEq] at h
      subst h
      exact hstay (by simp [hpc]) rfl rfl rfl
    | cons c rest =>
      simp only [hpc] at h
      split at h
      · cases h
      · split at h <;> cases h <;> exact hstay (by simp [hpc]) rfl rfl rfl

/-- Every step moves the commands in one of these ways. -/
theorem moves_of_step {s t : Server} {a : Action} (h : step s a = some t) : Moves s t a := by
  cases a with
  | client c => exact moves_of_queue_and_wait h
  | drain => exact moves_of_run_until_stopped h
  | stop who => exact moves_of_stop h
  | call | call_stop =>
    simp only [step] at h
    split at h <;> cases h
    exact .stay rfl rfl rfl (by simp) (by simp)
  | wake c timed_out =>
    simp only [step, Server.wake] at h
    split at h
    · cases h
    · split at h <;> cases h <;> exact .stay rfl rfl rfl (by simp) (by simp)
  | interrupt asked =>
    simp only [step, Server.interrupt] at h
    split at h
    · rename_i hd
      split at h <;> cases h <;> exact .stay rfl rfl (by rw [hd]; rfl) (by simp) (by simp)
    · cases h
  | give_up =>
    simp only [step, Server.give_up] at h
    split at h <;> cases h
    rename_i hd
    exact .stay rfl rfl (by rw [hd.1]; rfl) (by simp) (by simp)
  | callback ending =>
    simp only [step, Server.callback] at h
    split at h <;> cases h
    · exact .stay rfl rfl (by rw [‹s.drainer = _›]; rfl) (by simp) (by simp)
    · exact .stay rfl rfl (by rw [‹s.drainer = _›]; rfl) (by simp) (by simp)
    · rename_i c hd
      refine .drop (Or.inr ⟨_, rfl⟩) rfl rfl rfl fun c' hc => Or.inr ⟨rfl, ?_⟩
      rw [hd, Drainer.hand, List.mem_singleton] at hc
      rw [hc, hd]

/-! ## The commands that are out of the queue -/

/-- The commands that left the queue and the drainer's hand, by what removed them: the drainer, a
timeout, or a call of `stop`. -/
structure Ledger where
  drained : List CallId
  timed_out : List CallId
  stopped : List CallId
  deriving DecidableEq

/-- What a step takes out goes into the ledger: a call whose time ran out erases its own command, a
call of `stop` swaps out the whole queue, and the drainer lets go of the command in its hand. -/
def Ledger.note (s : Server) (a : Action) (t : Server) (l : Ledger) : Ledger :=
  match a with
  | .client c =>
    if s.clients c = .erasing ∧ c ∈ s.pending_commands_ then
      { l with timed_out := l.timed_out ++ [c] }
    else l
  | .stop who =>
    if s.stops who = .swapping then { l with stopped := l.stopped ++ s.pending_commands_ } else l
  | .drain | .callback _ =>
    if t.drainer.hand = [] then { l with drained := l.drained ++ s.drainer.hand } else l
  | _ => l

/-- All places of commands, one after the other. -/
def Ledger.places (l : Ledger) (s : Server) : List CallId :=
  s.pending_commands_ ++ s.drainer.hand ++ l.drained ++ l.timed_out ++ l.stopped

theorem note_eq_self {s t : Server} {a : Action} (l : Ledger)
    (hclient : ∀ c, a = .client c → s.clients c ≠ .erasing)
    (hstop : ∀ who, a = .stop who → s.stops who ≠ .swapping)
    (hhand : s.drainer.hand ⊆ t.drainer.hand) : l.note s a t = l := by
  have hdrainer :
      (if t.drainer.hand = [] then { l with drained := l.drained ++ s.drainer.hand } else l) =
        l := by
    split
    · rename_i hempty
      rw [hempty, List.subset_nil] at hhand
      rw [hhand, List.append_nil]
    · rfl
  cases a with
  | client c => exact if_neg fun h => hclient c rfl h.1
  | stop who => exact if_neg (hstop who rfl)
  | drain | callback => exact hdrainer
  | _ => rfl

/-- The commands that were pushed are in the places of the ledger. -/
theorem places_step {s t : Server} {a : Action} {l : Ledger}
    (hs : s.pushed.Perm (l.places s)) (h : step s a = some t) :
    t.pushed.Perm ((l.note s a t).places t) := by
  rw [List.perm_iff_count] at hs ⊢
  intro c
  have hc := hs c
  simp only [Ledger.places, List.count_append] at hc
  cases moves_of_step h with
  | stay hpushed hpending hhand hclient hstop =>
    rw [note_eq_self l hclient hstop (by rw [hhand]; exact List.Subset.refl _)]
    simp only [Ledger.places, hpushed, hpending, hhand, List.count_append]
    exact hc
  | @push c₀ hpc hroom hpushed hpending hhand =>
    have hclient : ∀ c, Action.client c₀ = .client c → s.clients c ≠ .erasing := by
      rintro _ ⟨⟩
      simp [hpc]
    rw [note_eq_self l hclient (by simp) (by rw [hhand]; exact List.Subset.refl _)]
    simp only [Ledger.places, hpushed, hpending, hhand, List.count_append]
    omega
  | @expire c₀ hpushed hpending hhand hpc =>
    by_cases hmem : c₀ ∈ s.pending_commands_
    · have hnote : l.note s (.client c₀) t = { l with timed_out := l.timed_out ++ [c₀] } :=
        if_pos ⟨hpc, hmem⟩
      have hgone := (List.perm_cons_erase hmem).count_eq c
      rw [List.count_cons] at hgone
      simp only [hnote, Ledger.places, hpushed, hpending, hhand, List.count_append,
        List.count_singleton]
      omega
    · have hnote : l.note s (.client c₀) t = l := if_neg fun hq => hmem hq.2
      simp only [hnote, Ledger.places, hpushed, hpending, hhand, List.erase_of_not_mem hmem,
        List.count_append]
      exact hc
  | @pop c₀ hpushed hpending hhand hhand' =>
    have hnote : l.note s .drain t = l := if_neg (by simp [hhand'])
    rw [hpending, hhand] at hc
    simp only [hnote, Ledger.places, hpushed, hhand', List.count_append, List.count_cons,
      List.count_nil] at hc ⊢
    omega
  | drop hdrainer hpushed hpending hhand =>
    have hnote : l.note s a t = { l with drained := l.drained ++ s.drainer.hand } := by
      rcases hdrainer with rfl | ⟨ending, rfl⟩ <;> exact if_pos hhand
    simp only [hnote, Ledger.places, hpushed, hpending, hhand, List.count_append, List.count_nil]
    omega
  | @swap who hpushed hpending hhand hpc =>
    have hnote : l.note s (.stop who) t = { l with stopped := l.stopped ++ s.pending_commands_ } :=
      if_pos hpc
    simp only [hnote, Ledger.places, hpushed, hpending, hhand, List.count_append, List.count_nil]
    omega

/-! ## Why a command is out of the queue -/

/-- What a step adds to the ledger. -/
structure Adds (s : Server) (a : Action) (t : Server) (l : Ledger) (c : CallId) : Prop where
  timed_out : c ∈ (l.note s a t).timed_out → c ∈ l.timed_out ∨ Expires s a c
  stopped : c ∈ (l.note s a t).stopped → c ∈ l.stopped ∨ Swaps s a c
  drained : c ∈ (l.note s a t).drained → c ∈ l.drained ∨
    (a = .drain ∨ ∃ ending, a = .callback ending) ∧ t.drainer.hand = [] ∧ c ∈ s.drainer.hand

theorem adds_of_note (s : Server) (a : Action) (t : Server) (l : Ledger) (c : CallId) :
    Adds s a t l c := by
  have hsame : l.note s a t = l → Adds s a t l c := by
    intro hnote
    refine ⟨?_, ?_, ?_⟩ <;> rw [hnote] <;> exact Or.inl
  have hdrainer : (a = .drain ∨ ∃ ending, a = .callback ending) →
      l.note s a t =
        (if t.drainer.hand = [] then { l with drained := l.drained ++ s.drainer.hand } else l) →
      Adds s a t l c := by
    intro ha hnote
    split at hnote
    · rename_i hempty
      refine ⟨?_, ?_, ?_⟩ <;> rw [hnote]
      · exact Or.inl
      · exact Or.inl
      · exact fun hc => (List.mem_append.mp hc).imp_right fun hc => ⟨ha, hempty, hc⟩
    · exact hsame hnote
  cases a with
  | client c₀ =>
    by_cases hpc : s.clients c₀ = .erasing ∧ c₀ ∈ s.pending_commands_
    · have hnote : l.note s (.client c₀) t = { l with timed_out := l.timed_out ++ [c₀] } :=
        if_pos hpc
      refine ⟨?_, ?_, ?_⟩ <;> rw [hnote]
      · refine fun hc => (List.mem_append.mp hc).imp_right fun hc => ?_
        rw [List.mem_singleton.mp hc]
        exact ⟨rfl, hpc⟩
      · exact Or.inl
      · exact Or.inl
    · exact hsame (if_neg hpc)
  | stop who =>
    by_cases hpc : s.stops who = .swapping
    · have hnote : l.note s (.stop who) t =
          { l with stopped := l.stopped ++ s.pending_commands_ } := if_pos hpc
      refine ⟨?_, ?_, ?_⟩ <;> rw [hnote]
      · exact Or.inl
      · exact fun hc => (List.mem_append.mp hc).imp_right fun hc => ⟨who, rfl, hpc, hc⟩
      · exact Or.inl
    · exact hsame (if_neg hpc)
  | drain => exact hdrainer (Or.inl rfl) rfl
  | callback ending => exact hdrainer (Or.inr ⟨ending, rfl⟩) rfl
  | _ => exact hsame rfl

theorem completed_of_let_go {s t : Server} {a : Action} (h : step s a = some t)
    (hdrainer : a = .drain ∨ ∃ ending, a = .callback ending) (hhand : t.drainer.hand = [])
    {c : CallId} (hc : c ∈ s.drainer.hand) : (t.cmds c).completed = true ∨ Escapes s a c := by
  cases moves_of_step h with
  | stay _ _ hkept =>
    rw [← hkept, hhand] at hc
    cases hc
  | push | expire | swap => simp at hdrainer
  | pop _ _ _ hhand' =>
    rw [hhand] at hhand'
    cases hhand'
  | drop _ _ _ _ hdone => exact hdone c hc

theorem pushed_of_hand {s : Server} (hs : Sound s) {c : CallId} (hc : c ∈ s.drainer.hand) :
    c ∈ s.pushed := by
  apply hs.flow.produced.subset
  cases hd : s.drainer with
  | finishing c' result =>
    rw [hd, Drainer.hand, List.mem_singleton] at hc
    have hmem := List.mem_map_of_mem (f := Prod.fst) (hs.holds c' result hd)
    simp [hc, hmem]
  | _ =>
    rw [hd] at hc
    exact List.mem_append_left _ (List.mem_append_right _ hc)

theorem pushed_step {s t : Server} {a : Action} (h : step s a = some t) : s.pushed ⊆ t.pushed := by
  cases moves_of_step h with
  | push _ _ hpushed =>
    rw [hpushed]
    exact List.subset_append_left _ _
  | stay hpushed | expire hpushed | pop hpushed | drop _ hpushed | swap hpushed =>
    rw [hpushed]
    exact List.Subset.refl _

theorem completed_of_run {s t : Server} {as : List Action} {c : CallId} (hs : Sound s)
    (hpushed : c ∈ s.pushed) (hcompleted : (s.cmds c).completed = true)
    (hrun : run step s as = some t) : (t.cmds c).completed = true := by
  have hall := run_invariant
    (I := fun s => Sound s ∧ c ∈ s.pushed ∧ (s.cmds c).completed = true) (fun s a t hs h => ?_)
    ⟨hs, hpushed, hcompleted⟩ hrun
  · exact hall.2.2
  · obtain ⟨hsound, hpushed, hcompleted⟩ := hs
    refine ⟨sound_step hsound h, pushed_step h hpushed, completed_step h ?_ hcompleted⟩
    intro type input hpc
    have hhas := (hsound.flow.pushed_iff c).mp hpushed
    rw [hpc] at hhas
    cases hhas

section
variable {query_cb_ : Bool} {as : List Action} {s : Server}

variable (query_cb_ as) in
/-- The ledger at the end of a run. -/
abbrev ledger : Ledger := record step Ledger.note (.start query_cb_) as ⟨[], [], []⟩

theorem returned_of_timed_out (hrun : run step (.start query_cb_) as = some s) {c : CallId}
    (hc : c ∈ (ledger query_cb_ as).timed_out) : ∃ r, s.clients c = .returned .timed_out r := by
  have hexpires := happens_of_record Ledger.timed_out Expires
    (fun s a t l e _ => (adds_of_note s a t l e).timed_out) hrun hc
  obtain ⟨before, a, u, v, after, -, -, ⟨rfl, hpc, -⟩, hv, hafter⟩ :=
    (hexpires.resolve_left List.not_mem_nil).split hrun
  simp only [step, Server.queue_and_wait, hpc, Option.some.injEq] at hv
  subst hv
  let r := failure "Error: MCP request timed out in queue"
  refine ⟨r, run_invariant (I := fun s => s.clients c = .returned .timed_out r)
    (fun _ _ _ hs h => returned_step h hs) ?_ hafter⟩
  rw [Server.clients_move, if_pos rfl]

/-- A command that was stopped is one that a call of `stop` swapped out. -/
theorem swapped_of_stopped (hrun : run step (.start query_cb_) as = some s) {c : CallId}
    (hc : c ∈ (ledger query_cb_ as).stopped) :
    Happens step (fun u a => Swaps u a c) (.start query_cb_) as := by
  have hswaps := happens_of_record Ledger.stopped Swaps
    (fun s a t l e _ => (adds_of_note s a t l e).stopped) hrun hc
  exact hswaps.resolve_left List.not_mem_nil

/-- A command that the drainer let go is completed, except for one whose exception ended the
loop. -/
theorem completed_of_drained (hrun : run step (.start query_cb_) as = some s) {c : CallId}
    (hc : c ∈ (ledger query_cb_ as).drained) :
    (s.cmds c).completed = true ∨
      Happens step (fun u a => Escapes u a c) (.start query_cb_) as := by
  have hlets := happens_of_record Ledger.drained
    (fun u a c => c ∈ u.drainer.hand ∧
      ∀ v, step u a = some v → (v.cmds c).completed = true ∨ Escapes u a c)
    (fun s a t l e hstep he => ((adds_of_note s a t l e).drained he).imp_right ?_) hrun hc
  · obtain ⟨before, a, u, v, after, has, hbefore, ⟨hhand, hdone⟩, hv, hafter⟩ :=
      (hlets.resolve_left List.not_mem_nil).split hrun
    rcases hdone v hv with hcompleted | hescapes
    · have hu := sound_of_run hbefore
      have hpushed := pushed_step hv (pushed_of_hand hu hhand)
      exact Or.inl (completed_of_run (sound_step hu hv) hpushed hcompleted hafter)
    · exact Or.inr ⟨before, a, after, u, has, hbefore, hescapes⟩
  · rintro ⟨hdrainer, hempty, hhand⟩
    refine ⟨hhand, fun v hv => ?_⟩
    rw [hstep, Option.some.injEq] at hv
    exact hv ▸ completed_of_let_go hstep hdrainer hempty hhand

end

/-! ## Capacity and order -/

theorem capacity_step {s t : Server} {a : Action}
    (hs : s.pending_commands_.length ≤ kMcpDefaultMaxQueue) (h : step s a = some t) :
    t.pending_commands_.length ≤ kMcpDefaultMaxQueue := by
  cases moves_of_step h with
  | stay hpushed hpending | drop hdrainer hpushed hpending => exact hpending ▸ hs
  | push hpc hroom hpushed hpending =>
    rw [hpending, List.length_append]
    exact hroom
  | @expire c hpushed hpending =>
    rw [hpending]
    exact (List.erase_sublist.length_le).trans hs
  | pop hpushed hpending =>
    rw [hpending, List.length_cons] at hs
    omega
  | swap hpushed hpending =>
    rw [hpending]
    exact Nat.zero_le _

/-- Two elements of a sublist stand in it as they stand in the list. -/
theorem pair_sublist {xs ys : List CallId} (hsub : xs.Sublist ys) (hnodup : ys.Nodup)
    {c d : CallId} (hc : c ∈ xs) (hd : d ∈ xs) (h : [c, d].Sublist ys) : [c, d].Sublist xs := by
  induction hsub with
  | slnil => cases hc
  | @cons xs ys b hsub ih =>
    obtain ⟨hb, hys⟩ := List.nodup_cons.mp hnodup
    have hne : c ≠ b := by
      rintro rfl
      exact hb (hsub.subset hc)
    exact ih hys hc hd ((List.sublist_cons_iff.mp h).resolve_right (by simp [hne]))
  | @cons_cons xs ys b hsub ih =>
    obtain ⟨hb, hys⟩ := List.nodup_cons.mp hnodup
    have hrest : d ∈ ys → d ∈ xs := by
      intro hdys
      refine (List.mem_cons.mp hd).resolve_left ?_
      rintro rfl
      exact hb hdys
    rcases List.sublist_cons_iff.mp h with hlater | ⟨rest, heq, hrest'⟩
    · have hcys : c ∈ ys := hlater.subset (by simp)
      have hne : c ≠ b := by
        rintro rfl
        exact hb hcys
      have hcxs := (List.mem_cons.mp hc).resolve_left hne
      exact (ih hys hcxs (hrest (hlater.subset (by simp))) hlater).cons b
    · -- `c` is the first, and `d` comes later
      obtain ⟨rfl, rfl⟩ := List.cons.inj heq
      have hdxs := hrest (List.singleton_sublist.mp hrest')
      exact (List.singleton_sublist.mpr hdxs).cons_cons c

/-- The queue holds at most 64 commands, every command that was pushed is in one place, for the
reason that the place names, and the callbacks begin in the order of the pushes. -/
structure InOrder (query_cb_ : Bool) (as : List Action) (s : Server) (l : Ledger) : Prop where
  capacity : s.pending_commands_.length ≤ 64
  no_command_twice : s.pending_commands_.Nodup
  in_a_place : ∀ c, c ∈ s.pushed ↔ c ∈ l.places s
  in_one_place : (l.places s).Nodup
  timed_out : ∀ c ∈ l.timed_out, ∃ r, s.clients c = .returned .timed_out r
  stopped : ∀ c ∈ l.stopped, Happens step (fun u a => Swaps u a c) (.start query_cb_) as
  drained : ∀ c ∈ l.drained, (s.cmds c).completed = true ∨
    Happens step (fun u a => Escapes u a c) (.start query_cb_) as
  first_pushed_first_begun : ∀ c d, c ∈ s.begun.map Prod.fst → d ∈ s.begun.map Prod.fst →
    [c, d].Sublist s.pushed → [c, d].Sublist (s.begun.map Prod.fst)

/-- In every interleaving, commands are never lost or doubled, and run in the order of their
pushes. -/
theorem commands_stay_in_order {query_cb_ : Bool} {as : List Action} {s : Server}
    (hrun : run step (.start query_cb_) as = some s) :
    InOrder query_cb_ as s (ledger query_cb_ as) := by
  have hinvariant := run_invariant_record
    (I := fun s l => Flow s ∧ s.pushed.Perm (Ledger.places l s) ∧
      s.pending_commands_.length ≤ kMcpDefaultMaxQueue)
    (fun s a t l hs h => ⟨flow_step hs.1 h, places_step hs.2.1 h, capacity_step hs.2.2 h⟩)
    (g := ⟨[], [], []⟩) ⟨flow_start query_cb_, List.Perm.refl _, Nat.zero_le _⟩ hrun
  obtain ⟨hflow, hplaces, hcapacity⟩ := hinvariant
  have hbegun := hflow.begun.nodup hflow.pushed_nodup
  have hfront : (s.begun.map Prod.fst).Sublist s.pushed :=
    (List.sublist_append_left _ _).trans ((List.sublist_append_left _ _).trans hflow.begun)
  exact {
    capacity := hcapacity
    no_command_twice := (List.nodup_append.mp hbegun).2.1
    in_a_place := fun c => hplaces.mem_iff
    in_one_place := hplaces.nodup_iff.mp hflow.pushed_nodup
    timed_out := fun c => returned_of_timed_out hrun
    stopped := fun c => swapped_of_stopped hrun
    drained := fun c => completed_of_drained hrun
    first_pushed_first_begun := fun c d hc hd => pair_sublist hfront hflow.pushed_nodup hc hd }

/-- The command of one call ends with the drainer. -/
theorem one_call_is_drained :
    ∃ s, run step (.start true) oneCall = some s ∧
      InOrder true oneCall s { drained := [0], timed_out := [], stopped := [] } := by
  have hsome : (run step (.start true) oneCall).isSome = true := by decide
  obtain ⟨s, hs⟩ := Option.isSome_iff_exists.mp hsome
  have hledger : ledger true oneCall = ⟨[0], [], []⟩ := by
    decide
  have horder := commands_stay_in_order hs
  rw [hledger] at horder
  exact ⟨s, hs, horder⟩

end r2sql.mcp
