-- Whose text a call returns: once the callback of a command has ended, nothing
-- else completes the command, and its call returns what the callback gave.
import R2sql.McpReturns
import R2sql.McpOrder

namespace r2sql.mcp

open runs

/-- A command in the drainer's hand is not completed, no call of `stop` has it or one with a result,
and a completed command with a result has that result. -/
structure Delivers (s : Server) : Prop where
  hand_live : ∀ c ∈ s.drainer.hand, (s.cmds c).completed = false ∧ ∀ who, c ∉ (s.stops who).taken
  produced_free : ∀ c ∈ s.produced.map Prod.fst, ∀ who, c ∉ (s.stops who).taken
  own : ∀ c ∈ s.produced.map Prod.fst, (s.cmds c).completed = true →
    (c, (s.cmds c).result) ∈ s.produced

theorem delivers_start (query_cb_ : Bool) : Delivers (.start query_cb_) := ⟨nofun, nofun, nofun⟩

/-- A step that completes no command, pops none and takes none out of the queue. -/
theorem Delivers.frame {s t : Server} (h : Delivers s)
    (hcmds : ∀ c, (t.cmds c).completed = true →
      (s.cmds c).completed = true ∧ (t.cmds c).result = (s.cmds c).result)
    (hproduced : t.produced = s.produced) (hhand : t.drainer.hand ⊆ s.drainer.hand)
    (htaken : ∀ who, (t.stops who).taken ⊆ (s.stops who).taken) : Delivers t where
  hand_live c hc := by
    obtain ⟨hlive, hfree⟩ := h.hand_live c (hhand hc)
    refine ⟨?_, fun who hmem => hfree who (htaken who hmem)⟩
    by_contra hdone
    rw [(hcmds c (by simpa using hdone)).1] at hlive
    cases hlive
  produced_free c hc who hmem := h.produced_free c (hproduced ▸ hc) who (htaken who hmem)
  own c hc hdone := by
    rw [hproduced] at hc ⊢
    rw [(hcmds c hdone).2]
    exact h.own c hc (hcmds c hdone).1

theorem completed_set_cmd {s : Server} {c₀ : CallId} {cmd : McpPendingCommand}
    (hcmd : cmd.completed = true →
      (s.cmds c₀).completed = true ∧ cmd.result = (s.cmds c₀).result) (c : CallId)
    (hdone : ((s.set_cmd c₀ cmd).cmds c).completed = true) :
    (s.cmds c).completed = true ∧ ((s.set_cmd c₀ cmd).cmds c).result = (s.cmds c).result := by
  rw [Server.cmds_set_cmd] at hdone ⊢
  split
  · rename_i h0
    subst h0
    rw [if_pos rfl] at hdone
    exact hcmd hdone
  · rename_i h0
    rw [if_neg h0] at hdone
    exact ⟨hdone, rfl⟩

/-- A command in the drainer's hand has its result or is still to get one. -/
theorem hand_subset {s : Server} (h : HoldsResult s) :
    s.drainer.hand ⊆ s.produced.map Prod.fst ++ s.drainer.unproduced := by
  cases hd : s.drainer with
  | finishing c result =>
    intro c' hc
    rw [List.mem_singleton.mp hc]
    exact List.mem_append_left _ (List.mem_map_of_mem (h c result hd))
  | _ => exact List.subset_append_right _ _

/-- No command in the queue has a result or is in the drainer's hand. -/
theorem pending_apart {s : Server} (hflow : Flow s) (hholds : HoldsResult s) {c : CallId}
    (hc : c ∈ s.pending_commands_) : c ∉ s.produced.map Prod.fst ∧ c ∉ s.drainer.hand := by
  have hnodup := hflow.produced.nodup hflow.pushed_nodup
  have hout := (List.nodup_append.mp hnodup).2.2
  exact ⟨fun hq => hout c (List.mem_append_left _ hq) c hc rfl,
    fun hq => hout c (hand_subset hholds hq) c hc rfl⟩

theorem idle_hand {d : Drainer} (h : d.Idle) : d.hand = [] := by
  cases d <;> first | rfl | cases h

theorem delivers_step {s t : Server} {a : Action} (hflow : Flow s) (hholds : HoldsResult s)
    (hapart : Apart s) (hs : Delivers s) (h : step s a = some t) : Delivers t := by
  have same : ∀ c, (s.cmds c).completed = true →
      (s.cmds c).completed = true ∧ (s.cmds c).result = (s.cmds c).result :=
    fun _ hdone => ⟨hdone, rfl⟩
  have keep : ∀ who, (s.stops who).taken ⊆ (s.stops who).taken := fun _ => List.Subset.refl _
  cases effect_of_step h with
  | call | refuse | full | push | answer | abandon | erase =>
    exact hs.frame same rfl (List.Subset.refl _) keep
  | make =>
    exact hs.frame (completed_set_cmd fun hdone => absurd hdone Bool.false_ne_true) rfl
      (List.Subset.refl _) keep
  | wait | cancel =>
    exact hs.frame (completed_set_cmd fun hdone => ⟨hdone, rfl⟩) rfl (List.Subset.refl _) keep
  | @turn a d hd =>
    refine hs.frame same rfl ?_ keep
    simp only [idle_hand hd]
    exact List.nil_subset _
  | interrupt =>
    exact hs.frame same rfl (List.nil_subset _)
      (taken_move_stop .drainer .storing (List.nil_subset _))
  | @pop a c₀ rest hd hpending =>
    refine ⟨fun c hc => ?_, hs.produced_free, hs.own⟩
    rw [List.mem_singleton.mp hc]
    exact hapart.live c₀ (List.mem_append_right _ (by simp [hpending]))
  | @allow a c₀ hd hcompleted hcanceled =>
    refine hs.frame (completed_set_cmd fun hdone => ⟨hdone, rfl⟩) rfl ?_ keep
    rw [hd]
    exact List.Subset.refl _
  | @reject a c₀ hd hcanceled =>
    -- The command has no result to lose.
    have hnodup := hflow.produced.nodup hflow.pushed_nodup
    have hout : c₀ ∉ s.produced.map Prod.fst := by
      rw [hd, List.append_assoc] at hnodup
      exact fun hq => (List.nodup_append.mp hnodup).2.2 c₀ hq c₀ (by simp [Drainer.unproduced]) rfl
    refine ⟨fun c hc => absurd hc List.not_mem_nil, hs.produced_free, fun c hc hdone => ?_⟩
    have hne : c ≠ c₀ := fun heq => hout (heq ▸ hc)
    rw [Server.cmds_set_cmd, if_neg hne] at hdone ⊢
    exact hs.own c hc hdone
  | @begin a c₀ hd hcb =>
    refine hs.frame same rfl ?_ keep
    rw [hd]
    exact List.Subset.refl _
  | @produce a c₀ result hd =>
    have hhand : s.drainer.hand = [c₀] := by rcases hd with hd | hd <;> rw [hd] <;> rfl
    obtain ⟨hlive, hfree⟩ := hs.hand_live c₀ (by simp [hhand])
    refine ⟨fun c hc => ?_, fun c hc => ?_, fun c hc hdone => ?_⟩
    · rw [List.mem_singleton.mp hc]
      exact ⟨hlive, hfree⟩
    · rw [List.map_append, List.mem_append] at hc
      rcases hc with hc | hc
      · exact hs.produced_free c hc
      · rw [List.mem_singleton.mp hc]
        exact hfree
    · rw [List.map_append, List.mem_append] at hc
      rcases hc with hc | hc
      · exact List.mem_append_left _ (hs.own c hc hdone)
      · rw [List.mem_singleton.mp hc] at hdone
        rw [hlive] at hdone
        cases hdone
  | @finish a c₀ result hd hcompleted =>
    refine ⟨fun c hc => absurd hc List.not_mem_nil, hs.produced_free, fun c hc hdone => ?_⟩
    rw [Server.cmds_set_cmd] at hdone ⊢
    split
    · rename_i h0
      rw [h0]
      exact hholds c₀ result hd
    · rename_i h0
      rw [if_neg h0] at hdone
      exact hs.own c hc hdone
  | @stop_turn a who pc running hpc =>
    exact hs.frame same rfl (List.Subset.refl _) (taken_move_stop who pc hpc)
  | @swap a who =>
    have htaken : ∀ c who', c ∈ ((s.move_stop who (.completing s.pending_commands_)).stops
        who').taken → c ∈ s.pending_commands_ ∨ c ∈ (s.stops who').taken := by
      intro c who' hc
      rw [Server.stops_move_stop] at hc
      split at hc
      · exact Or.inl hc
      · exact Or.inr hc
    refine ⟨fun c hc => ?_, fun c hc who' hmem => ?_, hs.own⟩
    · obtain ⟨hlive, hfree⟩ := hs.hand_live c hc
      refine ⟨hlive, fun who' hmem => ?_⟩
      rcases htaken c who' hmem with hq | hq
      · exact (pending_apart hflow hholds hq).2 hc
      · exact hfree who' hq
    · rcases htaken c who' hmem with hq | hq
      · exact (pending_apart hflow hholds hq).1 hc
      · exact hs.produced_free c hc who' hq
  | @complete a who c₀ rest hpc hcompleted =>
    have hmem : c₀ ∈ (s.stops who).taken := by simp [hpc, Stop.taken]
    have hless := taken_move_stop (s := s) who (.completing rest) (by simp [hpc, Stop.taken])
    refine ⟨fun c hc => ?_, fun c hc who' hq => hs.produced_free c hc who' (hless who' hq),
      fun c hc hdone => ?_⟩
    · obtain ⟨hlive, hfree⟩ := hs.hand_live c hc
      have hne : c ≠ c₀ := fun heq => hfree who (heq ▸ hmem)
      refine ⟨?_, fun who' hq => hfree who' (hless who' hq)⟩
      change ((s.set_cmd c₀ _).cmds c).completed = false
      rwa [Server.cmds_set_cmd, if_neg hne]
    · have hne : c ≠ c₀ := fun heq => hs.produced_free c hc who (heq ▸ hmem)
      change ((s.set_cmd c₀ _).cmds c).completed = true at hdone
      change (c, ((s.set_cmd c₀ _).cmds c).result) ∈ s.produced
      rw [Server.cmds_set_cmd, if_neg hne] at hdone ⊢
      exact hs.own c hc hdone

theorem delivers_of_run {query_cb_ : Bool} {as : List Action} {s : Server}
    (hrun : run step (.start query_cb_) as = some s) : Sound s ∧ Delivers s := by
  have hall := run_invariant (I := fun s => Sound s ∧ Apart s ∧ Delivers s)
    (fun s a t hs h => ⟨sound_step hs.1 h, apart_step hs.1.flow hs.1.holds hs.2.1 h,
      delivers_step hs.1.flow hs.1.holds hs.2.1 hs.2.2 h⟩)
    ⟨sound_start query_cb_, apart_start query_cb_, delivers_start query_cb_⟩ hrun
  exact ⟨hall.1, hall.2.2⟩

/-- A call that returns a result returns the text of its own callback. -/
theorem payload_of_callback {query_cb_ : Bool} {before after : List Action} {ending : Ending}
    {u s : Server} {c : CallId} {r : McpQueueResult}
    (hbefore : run step (.start query_cb_) before = some u) (hd : u.drainer = .executing c)
    (hafter : run step u (.callback ending :: after) = some s)
    (hpc : s.clients c = .returned .completed r) {text : Bytes}
    (htext : ending.payload = some text) : r.payload = text := by
  obtain ⟨v, hstep, hrest⟩ := run_cons_iff.mp hafter
  have hproduced : (c, text) ∈ v.produced := produced_of_gives (.callback hd htext) hstep
  have hmem := produced_of_run hproduced hrest
  obtain ⟨hsound, hdelivers⟩ := delivers_of_run (run_append_iff.mpr ⟨u, hbefore, hafter⟩)
  obtain ⟨hdone, rfl⟩ := (hsound.owns c).answered r hpc
  have hown := hdelivers.own c (List.mem_map_of_mem hmem) hdone
  have hnodup : (s.produced.map Prod.fst).Nodup :=
    ((List.sublist_append_left _ _).trans ((List.sublist_append_left _ _).trans
      hsound.flow.produced)).nodup hsound.flow.pushed_nodup
  exact congrArg Prod.snd (List.inj_on_of_nodup_map hnodup hown hmem rfl)

end r2sql.mcp
