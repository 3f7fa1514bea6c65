-- The session that a request to one of the plugin's servers finds, and the one that
-- a statement from radare2 runs in.
import R2sql.PluginReplies

namespace r2sql.servers

open plugin (Core claimed)
open runs

/-! ## The session of a request -/

/-- The servers that the plugin or the command thread has. -/
def State.Owned (s : State) (server : Nat) : Prop :=
  (∃ t, (s.slots t).server = some server) ∨ ∃ t, s.phase.hand = some (t, server)

/-- The server object that the next step of the command thread destroys. -/
def State.destroyed (s : State) : Option Nat :=
  match s.phase with
  | .publish t _ _ => (s.slots t).server
  | .stop _ server | .fini_stop _ server => some server
  | _ => none

/-- A server goes when it has no request to serve: `stop` and the destructor wait for its
threads. -/
def Joins (s : State) : Action → Prop
  | .next _ => ∀ r ∈ s.waiting, s.destroyed ≠ some r.server
  | _ => True

def joinsTest (s : State) : Action → Bool
  | .next _ => s.waiting.all fun r => s.destroyed != some r.server
  | _ => true

theorem joins_of_test (s : State) (a : Action) (h : joinsTest s a = true) : Joins s a := by
  cases a with
  | next bound_port => simpa [joinsTest, Joins] using h
  | _ => trivial

theorem Inv.session_of_owned {s : State} (hs : Inv s) {server : Nat} (h : s.Owned server) :
    s.session ≠ none := by
  rcases h with ⟨t, hslot⟩ | ⟨t, hhand⟩
  · exact hs.session t server hslot
  · refine hs.bound ?_
    cases hphase : s.phase <;> rw [hphase] at hhand <;> first | rfl | cases hhand

theorem Inv.owned_of_listening {s : State} (hs : Inv s) {server : Nat}
    (h : (s.listening server).isSome) : s.Owned server := by
  obtain ⟨⟨t, port⟩, hlistens⟩ := Option.isSome_iff_exists.mp h
  rcases hs.held server t port hlistens with hslot | ⟨hhand, -⟩
  · exact Or.inl ⟨t, by rw [hslot]⟩
  · exact Or.inr ⟨t, hhand⟩

/-- With no server in the hand, the slots have them all. -/
theorem owned_of_slots {s u : State} {server : Nat} (hfrom : s.phase.hand = none)
    (hslots : u.slots = s.slots) (h : s.Owned server) : u.Owned server := by
  rcases h with ⟨t, hslot⟩ | ⟨t, hhand⟩
  · exact Or.inl ⟨t, by rw [hslots, hslot]⟩
  · rw [hfrom] at hhand
    cases hhand

theorem owned_take {s : State} {t : Transport} {taken server : Nat} {phase : Phase}
    (hfrom : s.phase.hand = none) (hslot : (s.slots t).server = some taken)
    (hhand : phase.hand = some (t, taken)) (h : s.Owned server) :
    ((s.take t).go phase).Owned server := by
  rcases h with ⟨t', hslot'⟩ | ⟨t', hhand'⟩
  · by_cases ht : t' = t
    · subst ht
      rw [hslot] at hslot'
      cases hslot'
      exact Or.inr ⟨t', hhand⟩
    · exact Or.inl ⟨t', by simpa only [State.take, State.go, Function.update_of_ne ht]⟩
  · rw [hfrom] at hhand'
    cases hhand'

theorem owned_clear {s : State} {t : Transport} {server : Nat}
    (hslot : (s.slots t).server = none) (h : s.Owned server) : (s.take t).Owned server := by
  rcases h with ⟨t', hslot'⟩ | hhand
  · have ht : t' ≠ t := by
      rintro rfl
      rw [hslot] at hslot'
      cases hslot'
    exact Or.inl ⟨t', by simpa only [State.take, Function.update_of_ne ht]⟩
  · exact Or.inr hhand

theorem owned_handle_server_command {s : State} (hphase : s.phase = .idle) (t : Transport)
    (core : Core) (c : Subcommand) {server : Nat} (h : s.Owned server) :
    (handle_server_command s t core c).Owned server := by
  have hfrom : s.phase.hand = none := by rw [hphase]; rfl
  cases c with
  | status => exact owned_of_slots hfrom rfl h
  | stop =>
    unfold handle_server_command
    cases hslot : (s.slots t).server with
    | some taken => exact owned_take hfrom hslot rfl h
    | none => exact owned_clear (s := s.go .idle) hslot (owned_of_slots hfrom rfl h)
  | start port =>
    unfold handle_server_command
    dsimp only
    split
    · exact owned_of_slots hfrom rfl h
    · exact owned_of_slots hfrom rfl h

/-- A step of the command thread keeps every server but the one that it destroys. -/
theorem owned_command_step {s u : State} {bound_port : Int}
    (hstep : command_step s bound_port = some u) {server : Nat} (h : s.Owned server)
    (hkept : s.destroyed ≠ some server) : u.Owned server := by
  unfold command_step at hstep
  cases hphase : s.phase with
  | idle => simp [hphase] at hstep
  | start t port =>
    have hfrom : s.phase.hand = none := by rw [hphase]; rfl
    simp only [hphase] at hstep
    split at hstep <;> cases hstep
    · exact owned_of_slots hfrom rfl h
    · rcases h with hslot | ⟨t', hhand⟩
      · exact Or.inl hslot
      · rw [hfrom] at hhand
        cases hhand
  | publish t put port =>
    simp only [hphase, Option.some.injEq] at hstep
    subst hstep
    simp only [State.destroyed, hphase] at hkept
    rcases h with ⟨t', hslot⟩ | ⟨t', hhand⟩
    · have ht : t' ≠ t := by
        rintro rfl
        exact hkept hslot
      exact Or.inl ⟨t', by simpa only [State.reply, State.put, Function.update_of_ne ht]⟩
    · rw [hphase] at hhand
      cases hhand
      exact Or.inl ⟨t, by simp [State.reply, State.put]⟩
  | stop t stopped | fini_stop t stopped =>
    simp only [hphase, Option.some.injEq] at hstep
    subst hstep
    simp only [State.destroyed, hphase] at hkept
    rcases h with hslot | ⟨t', hhand⟩
    · exact Or.inl hslot
    · rw [hphase] at hhand
      cases hhand
      exact (hkept rfl).elim
  | fini_take t =>
    have hfrom : s.phase.hand = none := by rw [hphase]; rfl
    simp only [hphase] at hstep
    cases hslot : (s.slots t).server with
    | some taken =>
      simp only [hslot, Option.some.injEq] at hstep
      subst hstep
      exact owned_take hfrom hslot rfl h
    | none =>
      simp only [hslot, Option.some.injEq] at hstep
      subst hstep
      exact owned_clear (s := s.go (after_fini t)) hslot (owned_of_slots hfrom rfl h)
  | session_to_start | session_to_query | query | fini_session =>
    have hfrom : s.phase.hand = none := by rw [hphase]; rfl
    simp only [hphase, Option.some.injEq] at hstep
    subst hstep
    exact owned_of_slots hfrom rfl h

/-- What the steps that join keep about the requests: one that waits has its server, and one that
was served found a session. -/
structure Served (s : State) : Prop where
  waiting : ∀ r ∈ s.waiting, s.Owned r.server
  answered : ∀ r session, (r, session) ∈ s.answered → session ≠ none
  query : ∀ core sql, s.phase = .query core sql → s.session = some core
  asked : ∀ core sql session, (core, sql, session) ∈ s.asked → session = some core

theorem owned_plugin_call {s : State} (hphase : s.phase = .idle) (core : Core) (line : Bytes)
    {server : Nat} (h : s.Owned server) : (plugin_call s core line).Owned server := by
  unfold plugin_call
  split
  · rename_i rest _
    unfold dispatch
    cases command_of rest with
    | help => exact h
    | server t c => exact owned_handle_server_command hphase t core c h
    | statement sql =>
      have hfrom : s.phase.hand = none := by rw [hphase]; rfl
      exact owned_of_slots hfrom rfl h
  · exact h

theorem plugin_call_logs (s : State) (core : Core) (line : Bytes) :
    (plugin_call s core line).session = s.session ∧
      (plugin_call s core line).waiting = s.waiting ∧
      (plugin_call s core line).answered = s.answered ∧
      (plugin_call s core line).asked = s.asked := by
  unfold plugin_call dispatch handle_server_command
  repeat' split
  all_goals exact ⟨rfl, rfl, rfl, rfl⟩

theorem plugin_call_phase {s : State} (hphase : s.phase = .idle) (core : Core) (line : Bytes) :
    (∀ core' sql, (plugin_call s core line).phase ≠ .query core' sql) ∧
      ∀ core' ∈ (plugin_call s core line).phase.core, core' = core := by
  unfold plugin_call dispatch handle_server_command
  repeat' split
  all_goals simp [State.reply, State.go, State.take, hphase, Phase.core]

theorem command_step_logs {s u : State} {bound_port : Int}
    (hstep : command_step s bound_port = some u) :
    u.waiting = s.waiting ∧ u.answered = s.answered ∧
      (u.asked = s.asked ∨
        ∃ core sql, s.phase = .query core sql ∧ u.asked = s.asked ++ [(core, sql, s.session)]) := by
  unfold command_step at hstep
  cases hphase : s.phase with
  | idle => simp [hphase] at hstep
  | query core sql =>
    simp only [hphase, Option.some.injEq] at hstep
    subst hstep
    exact ⟨rfl, rfl, Or.inr ⟨core, sql, rfl, rfl⟩⟩
  | start t port | fini_take t =>
    simp only [hphase] at hstep
    split at hstep <;> cases hstep <;> exact ⟨rfl, rfl, Or.inl rfl⟩
  | session_to_start | publish | stop | session_to_query | fini_stop | fini_session =>
    simp only [hphase, Option.some.injEq] at hstep
    subst hstep
    exact ⟨rfl, rfl, Or.inl rfl⟩

/-- A statement of the command thread runs after `ensure_session` for its core. -/
theorem query_step {s u : State} {a : Action} (hstep : step s a = some u) {core : Core}
    {sql : Bytes} (hquery : u.phase = .query core sql) :
    u.session = some core ∨ s.phase = .query core sql ∧ u.session = s.session := by
  cases a with
  | plugin_call core' line =>
    simp only [step] at hstep
    split at hstep <;> cases hstep
    rename_i hphase
    exact absurd hquery ((plugin_call_phase hphase core' line).1 core sql)
  | plugin_fini =>
    simp only [step] at hstep
    split at hstep <;> cases hstep
    cases hquery
  | next bound_port =>
    simp only [step, command_step] at hstep
    cases hphase : s.phase with
    | idle => simp [hphase] at hstep
    | session_to_query core' sql' =>
      simp only [hphase, Option.some.injEq] at hstep
      subst hstep
      cases hquery
      exact Or.inl rfl
    | start t port | fini_take t =>
      simp only [hphase] at hstep
      split at hstep <;> cases hstep
      · cases hquery
      · cases t <;> cases hquery
    | fini_stop t server =>
      simp only [hphase, Option.some.injEq] at hstep
      subst hstep
      cases t <;> cases hquery
    | session_to_start | publish | stop | query | fini_session =>
      simp only [hphase, Option.some.injEq] at hstep
      subst hstep
      cases hquery
  | fail server =>
    cases hstep
    exact Or.inr ⟨hquery, rfl⟩
  | notice | arrive | serve =>
    simp only [step] at hstep
    split at hstep <;> cases hstep
    exact Or.inr ⟨hquery, rfl⟩

theorem served_step {s u : State} {a : Action} (hinv : Inv s) (hs : Served s) (hjoins : Joins s a)
    (hstep : step s a = some u) : Served u := by
  have hquery : ∀ core sql, u.phase = .query core sql → u.session = some core := by
    intro core sql h
    rcases query_step hstep h with hdone | ⟨hbefore, hsession⟩
    · exact hdone
    · rw [hsession]
      exact hs.query core sql hbefore
  cases a with
  | plugin_call core line =>
    simp only [step] at hstep
    split at hstep <;> cases hstep
    rename_i hphase
    obtain ⟨-, hwaiting, hanswered, hasked⟩ := plugin_call_logs s core line
    refine ⟨?_, ?_, hquery, ?_⟩
    · rw [hwaiting]
      exact fun r hr => owned_plugin_call hphase core line (hs.waiting r hr)
    · rw [hanswered]
      exact hs.answered
    · rw [hasked]
      exact hs.asked
  | plugin_fini =>
    simp only [step] at hstep
    split at hstep <;> cases hstep
    rename_i hphase
    have hfrom : s.phase.hand = none := by rw [hphase]; rfl
    exact ⟨fun r hr => owned_of_slots hfrom rfl (hs.waiting r hr), hs.answered, hquery, hs.asked⟩
  | next bound_port =>
    obtain ⟨hwaiting, hanswered, hasked⟩ := command_step_logs hstep
    refine ⟨fun r hr => ?_, fun r session h => hs.answered r session (hanswered ▸ h), hquery, ?_⟩
    · rw [hwaiting] at hr
      exact owned_command_step hstep (hs.waiting r hr) (hjoins r hr)
    · intro core sql session h
      rcases hasked with hasked | ⟨core', sql', hphase, hasked⟩
      · exact hs.asked core sql session (hasked ▸ h)
      · rw [hasked] at h
        rcases List.mem_append.mp h with hold | hnew
        · exact hs.asked core sql session hold
        · cases List.mem_singleton.mp hnew
          exact hs.query core sql hphase
  | fail server =>
    cases hstep
    exact ⟨hs.waiting, hs.answered, hquery, hs.asked⟩
  | notice server =>
    simp only [step] at hstep
    split at hstep <;> cases hstep
    exact ⟨hs.waiting, hs.answered, hquery, hs.asked⟩
  | arrive r =>
    simp only [step] at hstep
    split at hstep <;> cases hstep
    rename_i hlistens
    refine ⟨fun r' hr' => ?_, hs.answered, hquery, hs.asked⟩
    rcases List.mem_append.mp hr' with hold | hnew
    · exact hs.waiting r' hold
    · rw [List.mem_singleton.mp hnew]
      exact hinv.owned_of_listening hlistens
  | serve r =>
    simp only [step] at hstep
    split at hstep <;> cases hstep
    rename_i hr
    refine ⟨fun r' hr' => hs.waiting r' (List.mem_of_mem_erase hr'), fun r' session h => ?_, hquery,
      hs.asked⟩
    rcases List.mem_append.mp h with hold | hnew
    · exact hs.answered r' session hold
    · cases List.mem_singleton.mp hnew
      exact hinv.session_of_owned (hs.waiting r hr)

/-- The cores that a session is for, or was for when a request came to it, or is to be for. -/
def State.cores (s : State) : List Core :=
  s.answered.filterMap Prod.snd ++ s.session.toList ++ s.phase.core.toList

theorem command_step_session {s u : State} {bound_port : Int}
    (hstep : command_step s bound_port = some u) :
    u.phase.core = none ∧
      (u.session = s.session ∨ u.session = none ∨ u.session = s.phase.core) := by
  unfold command_step at hstep
  cases hphase : s.phase with
  | idle => simp [hphase] at hstep
  | start t port =>
    simp only [hphase] at hstep
    split at hstep <;> cases hstep <;> exact ⟨rfl, Or.inl rfl⟩
  | fini_take t =>
    simp only [hphase] at hstep
    split at hstep <;> cases hstep
    · exact ⟨rfl, Or.inl rfl⟩
    · exact ⟨by cases t <;> rfl, Or.inl rfl⟩
  | fini_stop t server =>
    simp only [hphase, Option.some.injEq] at hstep
    subst hstep
    exact ⟨by cases t <;> rfl, Or.inl rfl⟩
  | session_to_start | session_to_query =>
    simp only [hphase, Option.some.injEq] at hstep
    subst hstep
    exact ⟨rfl, Or.inr (Or.inr rfl)⟩
  | fini_session =>
    simp only [hphase, Option.some.injEq] at hstep
    subst hstep
    exact ⟨rfl, Or.inr (Or.inl rfl)⟩
  | publish | stop | query =>
    simp only [hphase, Option.some.injEq] at hstep
    subst hstep
    exact ⟨rfl, Or.inl rfl⟩

theorem cores_step {s u : State} {a : Action} {core : Core} (hstep : step s a = some u)
    (h : core ∈ u.cores) : core ∈ s.cores ∨ ∃ line, a = .plugin_call core line := by
  have hsplit : ∀ {s : State}, core ∈ s.cores ↔
      (∃ r, (r, some core) ∈ s.answered) ∨ s.session = some core ∨ s.phase.core = some core := by
    intro s
    simp [State.cores, List.mem_filterMap]
  rw [hsplit] at h ⊢
  cases a with
  | plugin_call core' line =>
    simp only [step] at hstep
    split at hstep <;> cases hstep
    rename_i hphase
    obtain ⟨hsession, -, hanswered, -⟩ := plugin_call_logs s core' line
    rw [hsession, hanswered] at h
    rcases h with h | h | h
    · exact Or.inl (Or.inl h)
    · exact Or.inl (Or.inr (Or.inl h))
    · exact Or.inr ⟨line, by rw [(plugin_call_phase hphase core' line).2 core h]⟩
  | plugin_fini =>
    simp only [step] at hstep
    split at hstep <;> cases hstep
    rcases h with h | h | h
    · exact Or.inl (Or.inl h)
    · exact Or.inl (Or.inr (Or.inl h))
    · cases h
  | next bound_port =>
    obtain ⟨hphase, hsession⟩ := command_step_session hstep
    rw [(command_step_logs hstep).2.1, hphase] at h
    rcases h with h | h | h
    · exact Or.inl (Or.inl h)
    · rw [h] at hsession
      rcases hsession with hsame | hnone | hcore
      · exact Or.inl (Or.inr (Or.inl hsame.symm))
      · cases hnone
      · exact Or.inl (Or.inr (Or.inr hcore.symm))
    · cases h
  | fail | notice | arrive =>
    simp only [step] at hstep
    revert hstep
    repeat' split
    all_goals
      intro hstep
      cases hstep
    all_goals exact Or.inl h
  | serve r =>
    simp only [step] at hstep
    split at hstep <;> cases hstep
    rcases h with ⟨r', h⟩ | h
    · rcases List.mem_append.mp h with hold | hnew
      · exact Or.inl (Or.inl ⟨r', hold⟩)
      · exact Or.inl (Or.inr (Or.inl (Prod.mk.inj (List.mem_singleton.mp hnew)).2.symm))
    · exact Or.inl (Or.inr h)

/-- Where a server goes only when it has no request to serve, every request finds a session, which
is for a core that called the plugin. A statement of the command thread runs in a session for its
own core. -/
theorem requests_find_a_session {as : List Action} {s : State}
    (hrun : run step unloaded as = some s) (hjoins : Along step Joins unloaded as) :
    (∀ r session, (r, session) ∈ s.answered →
      ∃ core line, session = some core ∧ .plugin_call core line ∈ as) ∧
    ∀ core sql session, (core, sql, session) ∈ s.asked → session = some core := by
  have hserved : Inv s ∧ Served s := by
    refine run_invariant_along (I := fun s => Inv s ∧ Served s) (fun s a u hs hG h => ?_)
      ⟨inv_unloaded, ?_⟩ hjoins hrun
    · exact ⟨hs.1.step h, served_step hs.1 hs.2 hG h⟩
    exact ⟨fun _ h => (by cases h), fun _ _ h => (by cases h), fun _ _ h => (by cases h),
      fun _ _ _ h => (by cases h)⟩
  refine ⟨fun r session h => ?_, hserved.2.asked⟩
  obtain ⟨core, rfl⟩ := Option.ne_none_iff_exists'.mp (hserved.2.answered r session h)
  have hcore : core ∈ s.cores := by
    refine List.mem_append_left _ (List.mem_append_left _ ?_)
    exact List.mem_filterMap.mpr ⟨_, h, rfl⟩
  rcases run_log State.cores (fun a core => ∃ line, a = .plugin_call core line)
    (fun _ _ _ _ => cores_step) hrun hcore with hstart | ⟨a, ha, line, rfl⟩
  · cases hstart
  · exact ⟨core, line, rfl, ha⟩

/-- A request comes while the server is not in its slot, and is served during a statement from
another core. -/
def a_request_and_a_statement : List Action :=
  http_on_8080 ++ [.arrive ⟨0, Bytes.lit "SELECT 1"⟩, .next 0,
    .plugin_call (some 1) (Bytes.lit "sql SELECT 2"), .next 0, .serve ⟨0, Bytes.lit "SELECT 1"⟩,
    .next 0, .plugin_call (some 1) (Bytes.lit "sql.http-"), .next 0]

theorem a_request_finds_a_session :
    ∃ s, run step unloaded a_request_and_a_statement = some s ∧
      s.answered = [(⟨0, Bytes.lit "SELECT 1"⟩, some (some 1))] ∧
      s.asked = [(some 1, Bytes.lit "SELECT 2", some (some 1))] ∧
      (∀ r session, (r, session) ∈ s.answered →
        ∃ core line, session = some core ∧ .plugin_call core line ∈ a_request_and_a_statement) ∧
      ∀ core sql session, (core, sql, session) ∈ s.asked → session = some core := by
  have hanswered : (run step unloaded a_request_and_a_statement).map State.answered =
      some [(⟨0, Bytes.lit "SELECT 1"⟩, some (some 1))] := by
    decide +kernel
  have hasked : (run step unloaded a_request_and_a_statement).map State.asked =
      some [(some 1, Bytes.lit "SELECT 2", some (some 1))] := by
    decide +kernel
  obtain ⟨s, hs, hanswered⟩ := Option.map_eq_some_iff.mp hanswered
  rw [hs, Option.map_some, Option.some.injEq] at hasked
  refine ⟨s, hs, hanswered, hasked, ?_⟩
  refine requests_find_a_session hs (along_of_test joins_of_test ?_)
  decide +kernel

end r2sql.servers
