-- The queries of the MCP server one after another: each callback works on the
-- session as the callbacks before it left it, and the calls get the answers of
-- that one order, whatever the threads do in between.
import R2sql.McpResults
import R2sql.McpThreads

namespace r2sql.mcp

open runs

/-! ## The server and its session -/

/-- The server, and the session that its callback works on. -/
structure Served (σ : Type) where
  server : Server
  session : σ

/-- The callbacks that have ended, with the inputs that they began with. -/
def Server.ended (s : Server) : List (CallId × Bytes) :=
  match s.drainer with
  | .executing _ => s.begun.dropLast
  | _ => s.begun

section
variable {σ : Type} (exec : σ → Bytes → Ending × σ)

/-- A step of the server. A callback ends as the session makes it end, and changes the session. -/
def Served.step (s : Served σ) : Action → Option (Served σ)
  | .callback ending =>
    match s.server.drainer with
    | .executing c =>
      let (result, session) := exec s.session (s.server.cmds c).input
      if result = ending then
        (mcp.step s.server (.callback ending)).map fun t => { server := t, session := session }
      else none
    | _ => none
  | a => (mcp.step s.server a).map fun t => { server := t, session := s.session }

/-- The session after these statements, one after another. -/
def session_after (x : σ) (inputs : List Bytes) : σ :=
  inputs.foldl (fun x input => (exec x input).2) x

/-- How a statement ends after these. -/
def ending_after (x : σ) (before : List Bytes) (input : Bytes) : Ending :=
  (exec (session_after exec x before) input).1

end

/-! ## What a step does to the callbacks -/

theorem input_step {s t : Server} {a : Action} {c : CallId} (hc : (s.clients c).HasCommand)
    (h : step s a = some t) : (t.cmds c).input = (s.cmds c).input := by
  have hset : ∀ (c₀ : CallId) (cmd : McpPendingCommand), cmd.input = (s.cmds c₀).input →
      ((s.set_cmd c₀ cmd).cmds c).input = (s.cmds c).input := by
    intro c₀ cmd hcmd
    rw [Server.cmds_set_cmd]
    split
    · rename_i h0
      rw [h0, hcmd]
    · rfl
  cases effect_of_step h with
  | @make c₀ type input hpc =>
    have hne : c ≠ c₀ := by
      rintro rfl
      rw [hpc] at hc
      cases hc
    exact congrArg McpPendingCommand.input (cmds_set_cmd_ne hne)
  | wait | cancel | allow | reject | finish | complete => exact hset _ _ rfl
  | _ => rfl

theorem hasCommand_of_begun {s : Server} (hflow : Flow s) {c : CallId}
    (hc : c ∈ s.begun.map Prod.fst) : (s.clients c).HasCommand := by
  have hpushed : c ∈ s.pushed := by
    apply hflow.begun.subset
    rw [List.append_assoc]
    exact List.mem_append_left _ hc
  rw [hflow.pushed_iff] at hpushed
  cases hpc : s.clients c <;> rw [hpc] at hpushed <;> first | exact hpushed | rfl

theorem query_cb_step {s t : Server} {a : Action} (h : step s a = some t) :
    t.query_cb_ = s.query_cb_ := by
  cases effect_of_step h <;> rfl

/-- What a step that ends no callback leaves, on a server that has one. -/
structure Continues (s t : Server) : Prop where
  produced : t.produced = s.produced
  ended : t.ended = s.ended
  executing : ∀ c, t.drainer = .executing c → s.drainer = .executing c ∧ t.begun = s.begun ∨
    t.begun = s.begun ++ [(c, (s.cmds c).input)] ∧ t.cmds = s.cmds

theorem Continues.kept {s t : Server} (hproduced : t.produced = s.produced)
    (hbegun : t.begun = s.begun) (hd : ∀ c, t.drainer = .executing c ↔ s.drainer = .executing c) :
    Continues s t where
  produced := hproduced
  ended := by
    unfold Server.ended
    rw [hbegun]
    cases hs : s.drainer with
    | executing c => rw [(hd c).mpr hs]
    | _ => cases ht : t.drainer <;> simp_all
  executing c hc := Or.inl ⟨(hd c).mp hc, hbegun⟩

theorem continues_of_step {s t : Server} {a : Action} (hcb : s.query_cb_ = true)
    (ha : ∀ ending, a ≠ .callback ending) (h : step s a = some t) : Continues s t := by
  cases a with
  | callback ending => exact absurd rfl (ha ending)
  | drain =>
    simp only [step] at h
    unfold Server.run_until_stopped at h
    cases hd : s.drainer with
    | interruptible | executing | finished => simp [hd] at h
    | checking =>
      simp only [hd, Option.some.injEq] at h
      subst h
      refine .kept rfl rfl fun c => ?_
      rw [hd]
      dsimp only
      split <;> simp
    | stopping =>
      simp only [hd] at h
      split at h <;> cases h
      exact .kept rfl rfl fun c => by simp [hd]
    | popping =>
      simp only [hd] at h
      split at h <;> cases h
      exact .kept rfl rfl fun c => by simp [hd]
    | admitting c =>
      simp only [hd] at h
      split at h
      · cases h
      · split at h
        · cases h
          exact .kept rfl rfl fun c => by simp [hd]
        · split at h <;> cases h <;> exact .kept rfl rfl fun c => by simp [hd]
    | starting c =>
      simp only [hd] at h
      split at h <;> cases h
      · refine ⟨rfl, ?_, ?_⟩
        · simp [Server.ended, hd]
        · rintro c' ⟨⟩
          exact Or.inr ⟨rfl, rfl⟩
      · rename_i hno
        exact absurd (by simp [hcb]) hno
    | finishing c result =>
      simp only [hd] at h
      split at h
      · cases h
      · split at h <;> cases h <;> exact .kept rfl rfl fun c => by simp [hd]
  | interrupt asked =>
    simp only [step, Server.interrupt] at h
    split at h
    · rename_i hd
      split at h <;> cases h <;> exact .kept rfl rfl fun c => by simp [hd]
    · cases h
  | give_up =>
    simp only [step, Server.give_up] at h
    split at h <;> cases h
    rename_i hd
    exact .kept rfl rfl fun c => by simp [hd.1]
  | _ =>
    have hkept := drainerTurn_of_step h
    exact .kept hkept.2.2 hkept.2.1 fun c => by rw [hkept.1]

/-! ## Callbacks that have begun -/

/-- A command whose callback has begun is in no hand of `stop`, and is completed with a result
alone. -/
structure Begun (s : Server) : Prop where
  free : ∀ c ∈ s.begun.map Prod.fst, ∀ who, c ∉ (s.stops who).taken
  produced : ∀ c ∈ s.begun.map Prod.fst, (s.cmds c).completed = true →
    c ∈ s.produced.map Prod.fst

theorem Begun.frame {s t : Server} (h : Begun s) (hbegun : t.begun = s.begun)
    (htaken : ∀ who, (t.stops who).taken ⊆ (s.stops who).taken)
    (hproduced : s.produced ⊆ t.produced)
    (hcmds : ∀ c ∈ s.begun.map Prod.fst, (t.cmds c).completed = true →
      (s.cmds c).completed = true ∨ c ∈ t.produced.map Prod.fst) : Begun t where
  free c hc who hmem := h.free c (hbegun ▸ hc) who (htaken who hmem)
  produced c hc hdone := by
    rw [hbegun] at hc
    rcases hcmds c hc hdone with hbefore | hresult
    · exact (List.map_subset Prod.fst hproduced) (h.produced c hc hbefore)
    · exact hresult

theorem not_begun_of_waiting {s : Server} (hflow : Flow s) {c : CallId}
    (hc : c ∈ s.drainer.waiting ++ s.pending_commands_) : c ∉ s.begun.map Prod.fst := by
  intro hmem
  have hnodup := hflow.begun.nodup hflow.pushed_nodup
  rw [List.append_assoc] at hnodup
  exact (List.nodup_append.mp hnodup).2.2 c hmem c hc rfl

theorem begun_step_kept {s t : Server} {a : Action} (hsound : Sound s) (hdelivers : Delivers s)
    (hs : Begun s) (h : step s a = some t) : Begun t := by
  have same : ∀ who, (s.stops who).taken ⊆ (s.stops who).taken := fun _ => List.Subset.refl _
  have grown : s.produced ⊆ s.produced := List.Subset.refl _
  -- a change of one command that completes it only where it was, or has not begun
  have hset : ∀ c₀ (cmd : McpPendingCommand), (cmd.completed = true →
      (s.cmds c₀).completed = true ∨ c₀ ∉ s.begun.map Prod.fst ∨ c₀ ∈ s.produced.map Prod.fst) →
      ∀ c ∈ s.begun.map Prod.fst, ((s.set_cmd c₀ cmd).cmds c).completed = true →
        (s.cmds c).completed = true ∨ c ∈ s.produced.map Prod.fst := by
    intro c₀ cmd hcmd c hc hdone
    rw [Server.cmds_set_cmd] at hdone
    split at hdone
    · rename_i h0
      subst h0
      rcases hcmd hdone with hbefore | hfresh | hresult
      · exact Or.inl hbefore
      · exact absurd hc hfresh
      · exact Or.inr hresult
    · exact Or.inl hdone
  cases effect_of_step h with
  | call | refuse | full | push | answer | abandon | erase | turn | pop =>
    exact hs.frame rfl same grown fun _ _ => Or.inl
  | make => exact hs.frame rfl same grown (hset _ _ nofun)
  | wait | cancel | allow => exact hs.frame rfl same grown (hset _ _ Or.inl)
  | interrupt =>
    exact hs.frame rfl (taken_move_stop .drainer .storing nofun) grown fun _ _ => Or.inl
  | @reject a c₀ hd hcanceled =>
    refine hs.frame rfl same grown (hset _ _ fun _ => Or.inr (Or.inl ?_))
    exact not_begun_of_waiting hsound.flow (by simp [hd, Drainer.waiting])
  | @begin a c₀ hd hcb =>
    obtain ⟨hlive, hfree⟩ := hdelivers.hand_live c₀ (by simp [hd, Drainer.hand])
    constructor
    · intro c hc
      rw [List.map_append, List.mem_append] at hc
      rcases hc with hc | hc
      · exact hs.free c hc
      · rw [List.mem_singleton.mp hc]
        exact hfree
    · intro c hc hdone
      rw [List.map_append, List.mem_append] at hc
      rcases hc with hc | hc
      · exact hs.produced c hc hdone
      · rw [List.mem_singleton.mp hc] at hdone
        rw [hlive] at hdone
        cases hdone
  | produce => exact hs.frame rfl same (List.subset_append_left _ _) fun _ _ => Or.inl
  | @finish a c₀ result hd hcompleted =>
    refine hs.frame rfl same grown (hset _ _ fun _ => Or.inr (Or.inr ?_))
    exact List.mem_map_of_mem (hsound.holds c₀ result hd)
  | stop_turn running hpc => exact hs.frame rfl (taken_move_stop _ _ hpc) grown fun _ _ => Or.inl
  | @swap a who =>
    refine ⟨fun c hc who' hmem => ?_, hs.produced⟩
    rw [Server.stops_move_stop] at hmem
    split at hmem
    · exact not_begun_of_waiting hsound.flow (List.mem_append_right _ hmem) hc
    · exact hs.free c hc who' hmem
  | @complete a who c₀ rest hpc hcompleted =>
    have hmem : c₀ ∈ (s.stops who).taken := by simp [hpc, Stop.taken]
    have hless := taken_move_stop (s := s) who (.completing rest) (by simp [hpc, Stop.taken])
    exact hs.frame rfl hless grown
      (hset _ _ fun _ => Or.inr (Or.inl fun hc => hs.free c₀ hc who hmem))

/-! ## One after another -/

section
variable {σ : Type} {exec : σ → Bytes → Ending × σ} {x : σ}

variable (exec x) in
/-- A text at its place in the order of the callbacks. -/
def AnswersAt (callbacks : List (CallId × Bytes)) (c : CallId) (text : Bytes) : Prop :=
  ∃ before input after, callbacks = before ++ (c, input) :: after ∧
    (ending_after exec x (before.map Prod.snd) input).payload = some text

theorem AnswersAt.append {callbacks : List (CallId × Bytes)} {c : CallId} {text : Bytes}
    (h : AnswersAt exec x callbacks c text) (more : List (CallId × Bytes)) :
    AnswersAt exec x (callbacks ++ more) c text := by
  obtain ⟨before, input, after, rfl, hpayload⟩ := h
  exact ⟨before, input, after ++ more, by simp, hpayload⟩

variable (exec x) in
/-- The session is what the ended callbacks make of it, and every result is the one that its
callback gives at its place. -/
structure Serial (s : Served σ) : Prop where
  query_cb : s.server.query_cb_ = true
  session : s.session = session_after exec x (s.server.ended.map Prod.snd)
  executing : ∀ c, s.server.drainer = .executing c →
    s.server.begun = s.server.ended ++ [(c, (s.server.cmds c).input)]
  produced : ∀ e ∈ s.server.produced, AnswersAt exec x s.server.ended e.1 e.2

theorem serial_start : Serial exec x ⟨.start true, x⟩ := ⟨rfl, rfl, nofun, nofun⟩

/-- What the steps keep about the server and the session. -/
structure Orderly (s : Served σ) : Prop where
  timely : Timely s.server
  apart : Apart s.server
  delivers : Delivers s.server
  begun : Begun s.server

theorem orderly_step {s t : Served σ} {a : Action} (hs : Orderly s)
    (h : mcp.step s.server a = some t.server) : Orderly t where
  timely := timely_step hs.timely h
  apart := apart_step hs.timely.sound.flow hs.timely.sound.holds hs.apart h
  delivers :=
    delivers_step hs.timely.sound.flow hs.timely.sound.holds hs.apart hs.delivers h
  begun := begun_step_kept hs.timely.sound hs.delivers hs.begun h

theorem callback_step {s t : Server} {c : CallId} {ending : Ending} (hd : s.drainer = .executing c)
    (h : mcp.step s (.callback ending) = some t) :
    t.ended = s.begun ∧ (∀ c', t.drainer ≠ .executing c') ∧
      ∀ e ∈ t.produced, e ∈ s.produced ∨ e.1 = c ∧ ending.payload = some e.2 := by
  simp only [step, Server.callback, hd] at h
  cases ending with
  | returned text | threw text =>
    cases h
    refine ⟨rfl, fun c' hd' => (by cases hd'), fun e he => ?_⟩
    refine (List.mem_append.mp he).imp_right fun hlast => ?_
    rw [List.mem_singleton.mp hlast]
    exact ⟨rfl, rfl⟩
  | escaped =>
    cases h
    exact ⟨rfl, fun c' hd' => (by cases hd'), fun e he => Or.inl he⟩

/-- A step is a step of the server. It ends a callback as the session does, or leaves the session
alone. -/
theorem cases_of_step {s t : Served σ} {a : Action} (h : s.step exec a = some t) :
    mcp.step s.server a = some t.server ∧
      ((∀ ending, a ≠ .callback ending) ∧ t.session = s.session ∨
        ∃ c, s.server.drainer = .executing c ∧
          a = .callback (exec s.session (s.server.cmds c).input).1 ∧
          t.session = (exec s.session (s.server.cmds c).input).2) := by
  have hother : (mcp.step s.server a).map (fun u => Served.mk u s.session) = some t →
      (∀ ending, a ≠ .callback ending) → mcp.step s.server a = some t.server ∧
        ((∀ ending, a ≠ .callback ending) ∧ t.session = s.session ∨
          ∃ c, s.server.drainer = .executing c ∧
            a = .callback (exec s.session (s.server.cmds c).input).1 ∧
            t.session = (exec s.session (s.server.cmds c).input).2) := by
    intro hmap ha
    obtain ⟨u, hu, rfl⟩ := Option.map_eq_some_iff.mp hmap
    exact ⟨hu, Or.inl ⟨ha, rfl⟩⟩
  cases a with
  | callback ending =>
    simp only [Served.step] at h
    split at h
    · rename_i c hd
      split at h
      · rename_i hending
        obtain ⟨u, hu, rfl⟩ := Option.map_eq_some_iff.mp h
        exact ⟨hu, Or.inr ⟨c, hd, by rw [hending], rfl⟩⟩
      · cases h
    · cases h
  | _ => exact hother h (by simp)

theorem serial_step {s t : Served σ} {a : Action} (horderly : Orderly s) (hs : Serial exec x s)
    (h : s.step exec a = some t) : Serial exec x t := by
  obtain ⟨hserver, hcases⟩ := cases_of_step h
  have hcb : t.server.query_cb_ = true := (query_cb_step hserver).trans hs.query_cb
  rcases hcases with ⟨hother, hsession⟩ | ⟨c, hd, rfl, hsession⟩
  · have hgoes := continues_of_step hs.query_cb hother hserver
    refine ⟨hcb, ?_, fun c hc => ?_, ?_⟩
    · rw [hsession, hs.session, hgoes.ended]
    · rcases hgoes.executing c hc with ⟨hbefore, hbegun⟩ | ⟨hbegun, hcmds⟩
      · have hmem : c ∈ s.server.begun.map Prod.fst := by
          rw [hs.executing c hbefore]
          simp
        have hinput := input_step (hasCommand_of_begun horderly.timely.sound.flow hmem) hserver
        rw [hbegun, hgoes.ended, hinput]
        exact hs.executing c hbefore
      · have hended : t.server.ended = s.server.begun := by
          unfold Server.ended
          rw [hc]
          simp [hbegun]
        rw [hended, hbegun, hcmds]
    · rw [hgoes.produced, hgoes.ended]
      exact hs.produced
  · obtain ⟨hended, hno, hproduced⟩ := callback_step hd hserver
    have hbegun := hs.executing c hd
    refine ⟨hcb, ?_, fun c' hc' => absurd hc' (hno c'), fun e he => ?_⟩
    · rw [hsession, hended, hbegun, List.map_append, hs.session]
      simp [session_after]
    · rw [hended, hbegun]
      rcases hproduced e he with hbefore | ⟨heq, hpayload⟩
      · exact (hs.produced e hbefore).append _
      · refine ⟨s.server.ended, (s.server.cmds c).input, [], by rw [heq], ?_⟩
        rw [ending_after, ← hs.session]
        exact hpayload

theorem orderly_of_run {as : List Action} {s : Served σ}
    (hrun : run (Served.step exec) ⟨.start true, x⟩ as = some s) :
    Orderly s ∧ Serial exec x s := by
  refine run_invariant (I := fun s => Orderly s ∧ Serial exec x s) ?_ ⟨?_, serial_start⟩ hrun
  · rintro s a t ⟨horderly, hserial⟩ h
    exact ⟨orderly_step horderly (cases_of_step h).1, serial_step horderly hserial h⟩
  · exact ⟨timely_start true, apart_start true, delivers_start true, nofun, nofun⟩

theorem server_run {as : List Action} {s t : Served σ}
    (hrun : run (Served.step exec) s as = some t) : run mcp.step s.server as = some t.server := by
  have h := run_view (I := fun _ => True) Served.server (id : Action → Action)
    (fun s a t _ h => ⟨trivial, (cases_of_step h).1⟩) trivial hrun
  rwa [List.map_id] at h

/-! ## The law -/

/-- The order of the callbacks never changes, it grows at its end. -/
theorem begun_of_run {as : List Action} {s t : Server} (hrun : run mcp.step s as = some t) :
    s.begun <+: t.begun := by
  refine run_invariant (I := fun u => s.begun <+: u.begun) (fun u a v hu h => ?_)
    (List.prefix_refl _) hrun
  cases effect_of_step h with
  | begin => exact hu.trans (List.prefix_append _ _)
  | _ => exact hu

variable (exec x) in
/-- The calls have the answers of one order of their queries, each on the session that the ones
before it left: the session is the one after all of them, a call whose query ran has the answer of
its place, no other one changes the session, and a call that begins after another one has returned
comes after it. -/
structure OneAfterAnother (as : List Action) (s : Served σ) : Prop where
  session : s.session = session_after exec x (s.server.ended.map Prod.snd)
  own : ∀ e ∈ s.server.begun, ∃ type, Action.call e.1 type e.2 ∈ as
  once : (s.server.begun.map Prod.fst).Nodup
  answered : ∀ c r, s.server.clients c = .returned .completed r →
    AnswersAt exec x s.server.ended c r.payload ∨
      r.payload = Bytes.lit "Error: MCP server stopped" ∧ c ∉ s.server.begun.map Prod.fst
  refused : ∀ c b r, s.server.clients c = .returned b r → b ∈ [.not_running, .full, .timed_out] →
    c ∉ s.server.begun.map Prod.fst
  in_time : ∀ before after u, as = before ++ after →
    run (Served.step exec) ⟨.start true, x⟩ before = some u →
    ∀ c d b r, u.server.clients c = .returned b r → c ∈ u.server.begun.map Prod.fst →
      u.server.clients d = .absent → d ∈ s.server.begun.map Prod.fst →
      [c, d].Sublist (s.server.begun.map Prod.fst)

theorem mem_begun_of_ended {s : Server} {e : CallId × Bytes} (h : e ∈ s.ended) : e ∈ s.begun := by
  unfold Server.ended at h
  split at h
  · exact List.mem_of_mem_dropLast h
  · exact h

/-- A call that completed has the answer of its place, or that of a stop. -/
theorem answered_of_completed {s : Served σ} (horderly : Orderly s) (hserial : Serial exec x s)
    {c : CallId} {r : McpQueueResult} (hc : s.server.clients c = .returned .completed r) :
    AnswersAt exec x s.server.ended c r.payload ∨
      r.payload = Bytes.lit "Error: MCP server stopped" ∧ c ∉ s.server.begun.map Prod.fst := by
  have howns := horderly.timely.sound.owns c
  obtain ⟨hdone, rfl⟩ := howns.answered r hc
  by_cases hbegun : c ∈ s.server.begun.map Prod.fst
  · have hmem := horderly.begun.produced c hbegun hdone
    exact Or.inl (hserial.produced _ (horderly.delivers.own c hmem hdone))
  · refine Or.inr ⟨?_, hbegun⟩
    rcases howns.result hdone with hcanceled | hstopped | hproduced
    · have hq := howns.canceled hcanceled
      rw [hc] at hq
      cases hq
    · exact hstopped
    · obtain ⟨before, input, after, hplace, -⟩ := hserial.produced _ hproduced
      have hmem : (c, input) ∈ s.server.ended := by
        rw [hplace]
        simp
      exact absurd (List.mem_map_of_mem (mem_begun_of_ended hmem)) hbegun

/-- A call that failed in its own name has no query that ran. -/
theorem not_begun_of_refused {s : Server} (hs : Timely s) {c : CallId} {b : Branch}
    {r : McpQueueResult} (hc : s.clients c = .returned b r)
    (hb : b ∈ [.not_running, .full, .timed_out]) : c ∉ s.begun.map Prod.fst := by
  have hyoung : (s.clients c).HasCommand = false → c ∉ s.begun.map Prod.fst := by
    intro hno hmem
    rw [hasCommand_of_begun hs.sound.flow hmem] at hno
    cases hno
  simp only [List.mem_cons, List.not_mem_nil, or_false] at hb
  rcases hb with rfl | rfl | rfl
  · exact hyoung (by rw [hc]; rfl)
  · exact hyoung (by rw [hc]; rfl)
  · exact not_begun_of_timed_out hs hc

/-- In every interleaving, the queries run one after another, and the calls have the answers of that
order. -/
theorem queries_run_one_after_another {as : List Action} {s : Served σ}
    (hrun : run (Served.step exec) ⟨.start true, x⟩ as = some s) :
    OneAfterAnother exec x as s := by
  obtain ⟨horderly, hserial⟩ := orderly_of_run hrun
  have hflow := horderly.timely.sound.flow
  have honce : (s.server.begun.map Prod.fst).Nodup := by
    have hnodup := hflow.begun.nodup hflow.pushed_nodup
    rw [List.append_assoc] at hnodup
    exact (List.nodup_append.mp hnodup).1
  refine ⟨hserial.session, fun e he => ?_, honce, fun c r => answered_of_completed horderly hserial,
    fun c b r hc hb => not_begun_of_refused horderly.timely hc hb, ?_⟩
  · exact call_of_log (server_run hrun) (horderly.timely.sound.begun e he)
  · rintro before after u rfl hbefore c d b r hc hcbegun hd hdbegun
    obtain ⟨v, hv, hafter⟩ := run_append_iff.mp hrun
    obtain rfl : u = v := Option.some.inj (hbefore.symm.trans hv)
    obtain ⟨more, hmore⟩ := begun_of_run (server_run hafter)
    have hyoung : d ∉ u.server.begun.map Prod.fst := by
      intro hmem
      have hcommand := hasCommand_of_begun (orderly_of_run hbefore).1.timely.sound.flow hmem
      rw [hd] at hcommand
      cases hcommand
    rw [← hmore, List.map_append] at hdbegun ⊢
    have hlater := (List.mem_append.mp hdbegun).resolve_left hyoung
    exact (List.singleton_sublist.mpr hcbegun).append (List.singleton_sublist.mpr hlater)

end

/-- A session that keeps the statements, and answers with all of them. -/
def keeps_statements (x : Bytes) (input : Bytes) : Ending × Bytes :=
  (.returned (x ++ input), x ++ input)

/-- Two calls in the queue, and the drainer that serves them. -/
def twoQueries : List Action :=
  [.call 0 .Query (Bytes.lit "a"), .client 0, .call 1 .Query (Bytes.lit "b"), .client 1, .client 1,
    .client 0, .drain, .interrupt false, .drain, .drain, .drain,
    .callback (.returned (Bytes.lit "b")), .drain, .drain, .interrupt false, .drain, .drain, .drain,
    .callback (.returned (Bytes.lit "ba")), .drain, .client 0, .client 0, .client 0]

theorem two_queries_run_one_after_another :
    ∃ s, run (Served.step keeps_statements) ⟨.start true, []⟩ twoQueries = some s ∧
      s.server.clients 0 = .returned .completed { success := true, payload := Bytes.lit "ba" } ∧
      OneAfterAnother keeps_statements [] twoQueries s := by
  have hsome : (run (Served.step keeps_statements) ⟨.start true, []⟩ twoQueries).isSome = true := by
    decide
  obtain ⟨s, hs⟩ := Option.isSome_iff_exists.mp hsome
  have hpc : (run (Served.step keeps_statements) ⟨.start true, []⟩ twoQueries).map
      (fun s => s.server.clients 0) =
        some (.returned .completed { success := true, payload := Bytes.lit "ba" }) := by decide
  rw [hs, Option.map_some, Option.some.injEq] at hpc
  exact ⟨s, hs, hpc, queries_run_one_after_another hs⟩

end r2sql.mcp
