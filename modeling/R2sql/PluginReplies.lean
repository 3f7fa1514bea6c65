-- Whether what the plugin prints about its servers is true: which servers broke in
-- a run with nobody noticing it, and what can be read in a reply.
import R2sql.PluginServers

namespace r2sql.servers

open plugin (Core claimed)
open runs

/-! ## The port in a text -/

/-- The replies that name a port. -/
def announcements : List (Int → Reply) := [.running localhost, .started, .failed]

theorem snprintf_of_lt {size : Nat} {text : Bytes} (h : text.length < size) :
    snprintf size text = text :=
  List.take_of_length_le (by omega)

theorem length_port {port : Nat} (h : port ≤ 65535) : (to_string port).length ≤ 5 := by
  have hprint : to_string port = numerals.print 10 port := numerals.lit_toString port
  have hdigits : (Nat.digits 10 port).length ≤ 5 :=
    (Nat.digits_length_le_iff (by decide) _).mpr (by omega)
  rw [hprint, numerals.print]
  split
  · decide
  · simpa using hdigits

theorem strtol_port {port : Nat} (hpos : 0 < port) (h : port ≤ 65535) {rest : Bytes}
    (hrest : NoDigit 10 rest) : strtol (to_string port ++ rest) = some (port : Int) :=
  (strtol_eq_some_iff hpos (by omega) _).mpr
    ⟨[], [], 0, rest, by simp, Or.inl rfl, hrest, by simp⟩

/-- A text with a port in it. -/
def Names (before : Bytes) (port : Nat) (text : Bytes) : Prop :=
  ∃ after, text = before ++ after ∧ strtol after = some (port : Int)

theorem names_line (size : Nat) (before rest : Bytes) {port : Nat} (hpos : 0 < port)
    (hport : port ≤ 65535) (hsize : before.length + 5 + rest.length < size)
    (hrest : NoDigit 10 (println rest)) :
    Names before port (println (snprintf size (before ++ to_string port ++ rest))) := by
  have hlength := length_port hport
  refine ⟨to_string port ++ println rest, ?_, strtol_port hpos hport hrest⟩
  rw [snprintf_of_lt (by simp only [List.length_append]; omega)]
  simp [println]

/-- The port can be read in the text of a reply, where the text before it is the same for all
ports. -/
theorem port_of_text [ThinClient] (t : Transport) : ∀ announce ∈ announcements,
    ∃ before, ∀ port : Nat, 0 < port → port ≤ 65535 →
      Names before port ((announce port).text t) := by
  have hend : NoDigit 10 (println []) := by
    intro c hc
    cases hc
    decide
  intro announce h
  simp only [announcements, List.mem_cons, List.not_mem_nil, or_false] at h
  rcases h with rfl | rfl | rfl
  · cases t with
    | http =>
      refine ⟨Bytes.lit "r2sql: HTTP server running at http://" ++ localhost ++ Bytes.lit ":",
        fun port hpos hport => ?_⟩
      have hline := names_line 160 (Bytes.lit "r2sql: HTTP server running at http://" ++
        localhost ++ Bytes.lit ":") [] hpos hport (by decide +kernel) hend
      rwa [List.append_nil] at hline
    | mcp =>
      refine ⟨Bytes.lit "MCP server running on port ", fun port hpos hport => ⟨to_string port ++
        (Bytes.lit "\n" ++ (Bytes.lit "SSE endpoint: http://" ++ (ThinClient.format_url_host
          localhost ++ (Bytes.lit ":" ++ (to_string port ++ Bytes.lit "/sse\n"))))), ?_, ?_⟩⟩
      · simp only [Reply.text, format_mcp_status, if_true, List.append_assoc]
      · refine strtol_port hpos hport fun c hc => ?_
        cases hc
        decide
  · cases t with
    | http =>
      refine ⟨Bytes.lit "r2sql: HTTP server: http://127.0.0.1:", fun port hpos hport => ?_⟩
      have hline := names_line 160 (Bytes.lit "r2sql: HTTP server: http://127.0.0.1:") [] hpos hport
        (by decide +kernel) hend
      rwa [List.append_nil] at hline
    | mcp =>
      refine ⟨Bytes.lit "r2sql MCP server: http://" ++ ThinClient.format_url_host localhost ++
        Bytes.lit ":", fun port hpos hport => ⟨to_string port ++ Bytes.lit "/sse\n", ?_, ?_⟩⟩
      · simp only [Reply.text, format_mcp_info, List.append_assoc]
      · refine strtol_port hpos hport fun c hc => ?_
        cases hc
        decide
  · refine ⟨Bytes.lit s!"r2sql: failed to start {t.word.1} server on port ",
      fun port hpos hport => ?_⟩
    refine names_line 128 _ (Bytes.lit ".") hpos hport ?_ fun c hc => ?_
    · cases t <;> decide +kernel
    · cases hc
      decide

/-! ## The servers that fail -/

/-- The server stops listening on the port by itself. -/
def Breaks (t : Transport) (server : Nat) (port : Int) (s : State) (a : Action) : Prop :=
  s.listening server = some (t, port) ∧ a = .fail server

/-- A server that counts as running listens on the port, or broke in the run. -/
def Traced (s : State) (as : List Action) (t : Transport) (server : Nat) (port : Int) : Prop :=
  s.running server = true →
    s.listening server = some (t, port) ∨ Happens step (Breaks t server port) unloaded as

section
variable {s u : State} {a : Action} {t : Transport} {server : Nat} {port : Int}

theorem plugin_call_servers (s : State) (core : Core) (line : Bytes) :
    (plugin_call s core line).listening = s.listening ∧
      (plugin_call s core line).running = s.running ∧ (plugin_call s core line).next = s.next := by
  unfold plugin_call dispatch handle_server_command
  repeat' split
  all_goals exact ⟨rfl, rfl, rfl⟩

/-- What a step does to a server that was started before. -/
theorem server_step (h : step s a = some u) (hlt : server < s.next) :
    server < u.next ∧ (u.running server = true → s.running server = true) ∧
      (u.listening server = s.listening server ∨ a = .fail server ∨
        u.running server = false) := by
  have hframe : u.listening = s.listening → u.running = s.running →
      (u.running server = true → s.running server = true) ∧
        (u.listening server = s.listening server ∨ a = .fail server ∨
          u.running server = false) := by
    intro hlistening hrunning
    rw [hlistening, hrunning]
    exact ⟨id, Or.inl rfl⟩
  have hhalt : ∀ gone, u.listening = Function.update s.listening gone none →
      u.running = Function.update s.running gone false →
        (u.running server = true → s.running server = true) ∧
          (u.listening server = s.listening server ∨ a = .fail server ∨
            u.running server = false) := by
    intro gone hlistening hrunning
    rw [hlistening, hrunning]
    by_cases heq : server = gone <;> simp [heq]
  cases a with
  | plugin_call core line =>
    simp only [step] at h
    split at h <;> cases h
    obtain ⟨hlistening, hrunning, hnext⟩ := plugin_call_servers s core line
    exact ⟨hnext ▸ hlt, hframe hlistening hrunning⟩
  | plugin_fini =>
    simp only [step] at h
    split at h <;> cases h
    exact ⟨hlt, hframe rfl rfl⟩
  | next bound_port =>
    simp only [step, command_step] at h
    cases hphase : s.phase with
    | idle => simp [hphase] at h
    | start t port =>
      simp only [hphase] at h
      split at h <;> cases h
      · exact ⟨hlt, hframe rfl rfl⟩
      · have hne : server ≠ s.next := Nat.ne_of_lt hlt
        refine ⟨Nat.lt_succ_of_lt hlt, ?_, Or.inl ?_⟩
        · simp [State.launch, hne]
        · simp [State.launch, hne]
    | stop t gone | fini_stop t gone =>
      simp only [hphase, Option.some.injEq] at h
      subst h
      exact ⟨hlt, hhalt gone rfl rfl⟩
    | fini_take t =>
      simp only [hphase] at h
      split at h <;> cases h <;> exact ⟨hlt, hframe rfl rfl⟩
    | session_to_start | publish | session_to_query | query | fini_session =>
      simp only [hphase, Option.some.injEq] at h
      subst h
      exact ⟨hlt, hframe rfl rfl⟩
  | fail broken =>
    cases h
    refine ⟨hlt, id, ?_⟩
    by_cases heq : server = broken
    · exact Or.inr (Or.inl (by rw [heq]))
    · exact Or.inl (Function.update_of_ne heq _ _)
  | notice seen =>
    simp only [step] at h
    split at h <;> cases h
    refine ⟨hlt, fun hrunning => ?_, Or.inl rfl⟩
    have hne : server ≠ seen := by
      rintro rfl
      simp [State.mark] at hrunning
    simpa only [State.mark, Function.update_of_ne hne] using hrunning
  | arrive r | serve r =>
    simp only [step] at h
    split at h <;> cases h
    exact ⟨hlt, hframe rfl rfl⟩

theorem take_slots (s : State) (t t' : Transport) :
    (s.take t').slots t = s.slots t ∨ (s.take t').slots t = Slot.cleared := by
  unfold State.take
  dsimp only
  rw [Function.update_apply]
  split
  · exact Or.inr rfl
  · exact Or.inl rfl

theorem plugin_call_slots (s : State) (core : Core) (line : Bytes) (t : Transport) :
    (plugin_call s core line).slots t = s.slots t ∨
      (plugin_call s core line).slots t = Slot.cleared := by
  unfold plugin_call dispatch handle_server_command
  repeat' split
  all_goals first | exact Or.inl rfl | exact take_slots s t _

/-- How a server comes into a slot. -/
theorem slot_step (h : step s a = some u) (hslot : (u.slots t).server = some server) :
    u.slots t = s.slots t ∨
      ∃ port, s.phase = .publish t server port ∧ u.slots t = ⟨some server, port, localhost⟩ := by
  have htake : ∀ t', u.slots = (s.take t').slots → u.slots t = s.slots t := by
    intro t' hslots
    have hne : t ≠ t' := by
      rintro rfl
      simp [hslots, State.take, Slot.cleared] at hslot
    rw [hslots]
    exact Function.update_of_ne hne _ _
  cases a with
  | plugin_call core line =>
    simp only [step] at h
    split at h <;> cases h
    refine (plugin_call_slots s core line t).imp_right fun hcleared => ?_
    rw [hcleared] at hslot
    cases hslot
  | plugin_fini =>
    simp only [step] at h
    split at h <;> cases h
    exact Or.inl rfl
  | next bound_port =>
    simp only [step, command_step] at h
    cases hphase : s.phase with
    | idle => simp [hphase] at h
    | start t' port =>
      simp only [hphase] at h
      split at h <;> cases h <;> exact Or.inl rfl
    | publish t' new port =>
      simp only [hphase, Option.some.injEq] at h
      subst h
      by_cases ht : t = t'
      · subst ht
        have hput : ((s.put t new port).reply t (.started port)).slots t =
            ⟨some new, port, localhost⟩ := Function.update_self _ _ _
        rw [hput] at hslot ⊢
        cases hslot
        exact Or.inr ⟨port, rfl, rfl⟩
      · exact Or.inl (Function.update_of_ne ht _ _)
    | fini_take t' =>
      simp only [hphase] at h
      split at h <;> cases h <;> exact Or.inl (htake t' rfl)
    | session_to_start | stop | session_to_query | query | fini_stop | fini_session =>
      simp only [hphase, Option.some.injEq] at h
      subst h
      exact Or.inl rfl
  | fail broken =>
    cases h
    exact Or.inl rfl
  | notice | arrive | serve =>
    simp only [step] at h
    split at h <;> cases h
    exact Or.inl rfl

theorem plugin_call_publishes_none (hphase : s.phase = .idle) (core : Core) (line : Bytes) :
    (plugin_call s core line).phase ≠ .publish t server port := by
  unfold plugin_call dispatch handle_server_command
  repeat' split
  all_goals simp [State.reply, State.go, State.take, hphase]

/-- How a server comes to be published: it is new, or it was in the hand before and runs on. -/
theorem publish_step (hapart : Apart s) (h : step s a = some u)
    (hpublish : u.phase = .publish t server port) :
    s.phase = .publish t server port ∧ u.running server = s.running server ∨
      u.next = server + 1 ∧ u.listening server = some (t, port) ∧ u.running server = true := by
  cases a with
  | plugin_call core line =>
    simp only [step] at h
    split at h <;> cases h
    rename_i hphase
    exact absurd hpublish (plugin_call_publishes_none hphase core line)
  | plugin_fini =>
    simp only [step] at h
    split at h <;> cases h
    cases hpublish
  | next bound_port =>
    simp only [step, command_step] at h
    cases hphase : s.phase with
    | idle => simp [hphase] at h
    | start t' requested =>
      simp only [hphase] at h
      split at h <;> cases h
      · cases hpublish
      · cases hpublish
        exact Or.inr ⟨rfl, Function.update_self _ _ _, Function.update_self _ _ _⟩
    | fini_take t' =>
      simp only [hphase] at h
      split at h <;> cases h
      · cases hpublish
      · cases t' <;> cases hpublish
    | fini_stop t' gone =>
      simp only [hphase, Option.some.injEq] at h
      subst h
      cases t' <;> cases hpublish
    | session_to_start | publish | stop | session_to_query | query | fini_session =>
      simp only [hphase, Option.some.injEq] at h
      subst h
      cases hpublish
  | fail broken =>
    cases h
    exact Or.inl ⟨hpublish, rfl⟩
  | notice seen =>
    simp only [step] at h
    split at h <;> cases h
    rename_i hseen
    have hphase : s.phase = .publish t server port := hpublish
    have hne : server ≠ seen := by
      rintro rfl
      exact hapart.hand t server .http (by rw [hphase]; rfl) hseen.1
    exact Or.inl ⟨hphase, Function.update_of_ne hne _ _⟩
  | arrive | serve =>
    simp only [step] at h
    split at h <;> cases h
    exact Or.inl ⟨hpublish, rfl⟩

/-- A server that listened before does so after the step, or broke in it, or does not count as
running any more. -/
theorem Traced.step {as : List Action} (h : Traced s as t server port)
    (hrun : run step unloaded as = some s) (hstep : step s a = some u) (hlt : server < s.next) :
    Traced u (as ++ [a]) t server port := by
  obtain ⟨-, hrunning, hlistening⟩ := server_step hstep hlt
  intro hr
  rcases h (hrunning hr) with hl | hbroke
  · rcases hlistening with heq | rfl | hstopped
    · exact Or.inl (heq ▸ hl)
    · exact Or.inr (happens_concat_iff.mpr (Or.inr ⟨s, hrun, hl, rfl⟩))
    · rw [hstopped] at hr
      cases hr
  · exact Or.inr (happens_concat_iff.mpr (Or.inl hbroke))

end

/-- What a run tells of the servers that the plugin has. -/
structure Told (s : State) (as : List Action) : Prop where
  slot : ∀ t server, (s.slots t).server = some server → Traced s as t server (s.slots t).port
  hand : ∀ t server port, s.phase = .publish t server port →
    s.running server = true ∧ Traced s as t server port
  seen : ∀ server, .notice server ∈ as → server < s.next ∧ s.running server = false

theorem Told.step {s u : State} {as : List Action} {a : Action} (h : Told s as) (hinv : Inv s)
    (hapart : Apart s) (hrun : run step unloaded as = some s) (hstep : step s a = some u) :
    Told u (as ++ [a]) := by
  have hhand : ∀ {t server port}, s.phase = .publish t server port → server < s.next :=
    fun hphase => hinv.hand_lt _ _ (by rw [hphase]; rfl)
  refine ⟨fun t server hslot => ?_, fun t server port hpublish => ?_, fun server hseen => ?_⟩
  · rcases slot_step hstep hslot with hsame | ⟨port, hphase, hput⟩
    · rw [hsame] at hslot ⊢
      exact (h.slot t server hslot).step hrun hstep (hinv.slot_lt t server hslot)
    · rw [hput]
      exact (h.hand t server port hphase).2.step hrun hstep (hhand hphase)
  · rcases publish_step hapart hstep hpublish with ⟨hphase, hsame⟩ | ⟨-, hlistens, hrunning⟩
    · obtain ⟨hrunning, htraced⟩ := h.hand t server port hphase
      exact ⟨hsame ▸ hrunning, htraced.step hrun hstep (hhand hphase)⟩
    · exact ⟨hrunning, fun _ => Or.inl hlistens⟩
  · rcases List.mem_append.mp hseen with hold | hnew
    · obtain ⟨hlt, hstopped⟩ := h.seen server hold
      obtain ⟨hlt', hrunning, -⟩ := server_step hstep hlt
      refine ⟨hlt', Bool.eq_false_iff.mpr fun hr => ?_⟩
      rw [hrunning hr] at hstopped
      cases hstopped
    · cases List.mem_singleton.mp hnew
      simp only [servers.step] at hstep
      split at hstep <;> cases hstep
      rename_i hthere
      exact ⟨hinv.slot_lt .http server hthere.1, Function.update_self _ _ _⟩

theorem told_of_run {as : List Action} {s : State} (hrun : run step unloaded as = some s) :
    Told s as := by
  refine run_invariant_history (fun s as a u hrun h hstep => ?_) ⟨?_, ?_, ?_⟩ hrun
  · obtain ⟨hinv, hapart⟩ := inv_of_run hrun
    exact h.step hinv hapart hrun hstep
  · exact fun _ _ h => by cases h
  · exact fun _ _ _ h => by cases h
  · exact fun _ h => by cases h

/-! ## What the console says -/

/-- No server of the transport listens. -/
def State.Silent (s : State) (t : Transport) : Prop :=
  ∀ server port, s.listening server ≠ some (t, port)

/-- The plugin has a server of the transport that listens on the port, or broke there in the run
with nobody noticing it. No other server of the transport listens. -/
def State.Has (s : State) (as : List Action) (t : Transport) (port : Int) : Prop :=
  ∃ server, s.slots t = ⟨some server, port, localhost⟩ ∧
    (s.listening server = some (t, port) ∨
      Happens step (Breaks t server port) unloaded as ∧ .notice server ∉ as) ∧
    ∀ server' port', s.listening server' = some (t, port') → server' = server

/-- What a reply tells about the servers of its transport, after the run. -/
def Reply.True (s : State) (as : List Action) (t : Transport) : Reply → Prop
  | running bind port => bind = localhost ∧ s.Has as t port
  | started port => s.Has as t port
  | already_running => ∃ port, s.Has as t port
  | not_running | stopped | was_not_running | failed _ => s.Silent t

namespace Inv

variable {s : State} {t : Transport}

theorem silent_of_not_running (hs : Inv s) (hhand : s.phase.hand = none)
    (hrunning : s.is_running t = false) : s.Silent t := by
  intro server port h
  rcases hs.held server t port h with hslot | ⟨heq, -⟩
  · have hr := hs.running server (by simp [h])
    simp [State.is_running, hslot, hr] at hrunning
  · rw [hhand] at heq
    cases heq

theorem silent_of_no_server (hs : Inv s) (hhand : s.phase.hand = none)
    (hslot : (s.slots t).server = none) : s.Silent t :=
  hs.silent_of_not_running hhand (by simp [State.is_running, hslot])

/-- While the command thread has a server of the transport in its hand, that in the slot does not
listen. -/
theorem listening_of_hand (hs : Inv s) {server server' : Nat} {port : Int}
    (hhand : s.phase.hand = some (t, server)) (h : s.listening server' = some (t, port)) :
    server' = server ∧ ∀ p ∈ s.phase.port, p = port := by
  rcases hs.held server' t port h with hslot | ⟨heq, hport⟩
  · exfalso
    have hr := hs.running server' (by simp [h])
    have hbusy : s.is_running t = true := by simp [State.is_running, hslot, hr]
    have hthere : (s.slots t).server ≠ none := by simp [hslot]
    cases hphase : s.phase with
    | publish t' server' port' =>
      rw [hphase] at hhand
      cases hhand
      rw [hs.free t (by rw [hphase]; rfl)] at hbusy
      cases hbusy
    | stop t' server' =>
      rw [hphase] at hhand
      cases hhand
      exact hthere (hs.vacant t (by rw [hphase]; exact List.mem_singleton.mpr rfl))
    | fini_stop t' server' =>
      rw [hphase] at hhand
      cases hhand
      exact hthere (hs.vacant t (by rw [hphase]; cases t <;> simp [Phase.vacant]))
    | _ =>
      rw [hphase] at hhand
      cases hhand
  · rw [hhand] at heq
    cases heq
    exact ⟨rfl, hport⟩

theorem listening_unique (hs : Inv s) {server server' : Nat} {port port' : Int}
    (h : s.listening server = some (t, port)) (h' : s.listening server' = some (t, port')) :
    server = server' := by
  rcases hs.held server t port h with hslot | ⟨hhand, -⟩
  · rcases hs.held server' t port' h' with hslot' | ⟨hhand', -⟩
    · rw [hslot] at hslot'
      cases hslot'
      rfl
    · exact (hs.listening_of_hand hhand' h).1
  · exact (hs.listening_of_hand hhand h').1.symm

theorem silent_of_no_session (hs : Inv s) (hnone : s.session = none) (t : Transport) :
    s.Silent t := by
  intro server port h
  rcases hs.held server t port h with hslot | ⟨hhand, -⟩
  · exact hs.session t server (by rw [hslot]) hnone
  · refine hs.bound ?_ hnone
    cases hphase : s.phase <;> rw [hphase] at hhand <;> first | rfl | cases hhand

end Inv

/-- A server that counts as running is there as the plugin says. -/
theorem has_of_running {s : State} {as : List Action} (hrun : run step unloaded as = some s)
    (hhand : s.phase.hand = none) {t : Transport} (hrunning : s.is_running t = true) :
    s.Has as t (s.slots t).port := by
  obtain ⟨hinv, hapart⟩ := inv_of_run hrun
  have htold := told_of_run hrun
  unfold State.is_running at hrunning
  cases hslot : (s.slots t).server with
  | none => simp [hslot] at hrunning
  | some server =>
    simp only [hslot] at hrunning
    refine ⟨server, ?_, ?_, fun server' port' h => ?_⟩
    · rw [← hslot, ← hapart.bind t server hslot]
    · refine (htold.slot t server hslot hrunning).imp_right fun hbroke => ⟨hbroke, fun hseen => ?_⟩
      rw [(htold.seen server hseen).2] at hrunning
      cases hrunning
    · rcases hinv.held server' t port' h with heq | ⟨heq, -⟩
      · rw [heq, Option.some.injEq] at hslot
        exact hslot
      · rw [hhand] at heq
        cases heq

theorem State.console_ne_append (s : State) (p : Transport × Reply) :
    s.console ≠ s.console ++ [p] :=
  fun h => List.cons_ne_nil _ _ (List.self_eq_append_right.mp h)

section
variable {s u : State} {as : List Action} {t : Transport} {r : Reply}

theorem true_of_handle_server_command (hrun : run step unloaded as = some s)
    (hphase : s.phase = .idle) {core : Core} {c : Subcommand} {t' : Transport} {bs : List Action}
    (hu : run step unloaded bs = some (handle_server_command s t' core c))
    (h : (handle_server_command s t' core c).console = s.console ++ [(t, r)]) :
    r.True (handle_server_command s t' core c) bs t := by
  have hinv := (inv_of_run hrun).1
  have hhand : s.phase.hand = none := by rw [hphase]; rfl
  cases c with
  | status =>
    simp only [handle_server_command, State.reply, List.append_cancel_left_eq, List.cons.injEq,
      Prod.mk.injEq, and_true] at h
    obtain ⟨rfl, rfl⟩ := h
    cases hrunning : s.is_running t' with
    | false => exact hinv.silent_of_not_running hhand hrunning
    | true =>
      have hthere := has_of_running hu rfl hrunning
      obtain ⟨server, hslot, -⟩ := id hthere
      have hslot' : s.slots t' = ⟨some server, (s.slots t').port, localhost⟩ := hslot
      refine ⟨?_, hthere⟩
      rw [hslot']
  | stop =>
    unfold handle_server_command at h ⊢
    cases hslot : (s.slots t').server with
    | some server =>
      simp only [hslot] at h
      exact absurd h (s.console_ne_append _)
    | none =>
      simp only [hslot, State.reply, State.take, List.append_cancel_left_eq, List.cons.injEq,
        Prod.mk.injEq, and_true] at h ⊢
      obtain ⟨rfl, rfl⟩ := h
      exact hinv.silent_of_no_server hhand hslot
  | start port =>
    unfold handle_server_command at h hu ⊢
    dsimp only at h hu ⊢
    cases hrunning : s.is_running t' with
    | false =>
      rw [hrunning] at h
      exact absurd h (s.console_ne_append _)
    | true =>
      simp only [hrunning, if_true] at h hu ⊢
      simp only [State.reply, List.append_cancel_left_eq, List.cons.injEq, Prod.mk.injEq,
        and_true] at h
      obtain ⟨rfl, rfl⟩ := h
      exact ⟨_, has_of_running hu rfl hrunning⟩

theorem true_of_plugin_call (hrun : run step unloaded as = some s) (hphase : s.phase = .idle)
    {core : Core} {line : Bytes} {bs : List Action}
    (hu : run step unloaded bs = some (plugin_call s core line))
    (h : (plugin_call s core line).console = s.console ++ [(t, r)]) :
    r.True (plugin_call s core line) bs t := by
  unfold plugin_call at h hu ⊢
  cases hclaimed : claimed line with
  | none =>
    rw [hclaimed] at h
    exact absurd h (s.console_ne_append _)
  | some rest =>
    simp only [hclaimed] at h hu ⊢
    unfold dispatch at h hu ⊢
    cases hcommand : command_of rest with
    | server t' c =>
      simp only [hcommand] at h hu ⊢
      exact true_of_handle_server_command hrun hphase hu h
    | help | statement sql =>
      simp only [hcommand] at h
      exact absurd h (s.console_ne_append _)

theorem true_of_command_step (hrun : run step unloaded as = some s) {bound_port : Int}
    (hstep : command_step s bound_port = some u) {bs : List Action}
    (hu : run step unloaded bs = some u) (h : u.console = s.console ++ [(t, r)]) :
    r.True u bs t := by
  have hinv := (inv_of_run hrun).1
  unfold command_step at hstep
  cases hphase : s.phase with
  | idle => simp [hphase] at hstep
  | start t' port =>
    simp only [hphase] at hstep
    split at hstep <;> cases hstep
    · simp only [State.reply, List.append_cancel_left_eq, List.cons.injEq, Prod.mk.injEq,
        and_true] at h
      obtain ⟨rfl, rfl⟩ := h
      exact hinv.silent_of_not_running (by rw [hphase]; rfl) (hinv.free _ (by rw [hphase]; rfl))
    · exact absurd h (s.console_ne_append _)
  | publish t' server port =>
    have hrunning := ((told_of_run hrun).hand t' server port hphase).1
    simp only [hphase, Option.some.injEq] at hstep
    subst hstep
    simp only [State.reply, State.put, List.append_cancel_left_eq, List.cons.injEq, Prod.mk.injEq,
      and_true] at h
    obtain ⟨rfl, rfl⟩ := h
    have hslot : ((s.put t' server port).reply t' (.started port)).slots t' =
        ⟨some server, port, localhost⟩ := Function.update_self _ _ _
    have hthere := has_of_running hu rfl (t := t') (by
      unfold State.is_running
      rw [hslot]
      exact hrunning)
    rwa [hslot] at hthere
  | stop t' server =>
    have hslot : (s.slots t').server = none :=
      hinv.vacant t' (by rw [hphase]; exact List.mem_singleton.mpr rfl)
    simp only [hphase, Option.some.injEq] at hstep
    subst hstep
    simp only [State.reply, State.drop, State.mark, List.append_cancel_left_eq, List.cons.injEq,
      Prod.mk.injEq, and_true] at h
    obtain ⟨rfl, rfl⟩ := h
    exact (inv_of_run hu).1.silent_of_no_server rfl hslot
  | fini_take t' =>
    simp only [hphase] at hstep
    split at hstep <;> cases hstep <;>
      exact absurd h (s.console_ne_append _)
  | session_to_start | session_to_query | query | fini_stop | fini_session =>
    simp only [hphase, Option.some.injEq] at hstep
    subst hstep
    exact absurd h (s.console_ne_append _)

end

/-- In every state that the plugin gets into, at most one server of a transport listens, and none
without a session. What a step prints about a transport is true when it does, but for servers that
broke with nobody noticing it. -/
theorem what_the_plugin_prints_is_true {as : List Action} {s : State}
    (hrun : run step unloaded as = some s) :
    (∀ t server server' port port', s.listening server = some (t, port) →
      s.listening server' = some (t, port') → server = server') ∧
    (s.session = none → ∀ t, s.Silent t) ∧
    ∀ a u t r, step s a = some u → u.console = s.console ++ [(t, r)] → r.True u (as ++ [a]) t := by
  have hs := (inv_of_run hrun).1
  refine ⟨fun t server server' port port' h h' => hs.listening_unique h h',
    fun hnone t => hs.silent_of_no_session hnone t, fun a u t r hstep h => ?_⟩
  have hu : run step unloaded (as ++ [a]) = some u :=
    run_append_iff.mpr ⟨s, hrun, run_cons_iff.mpr ⟨u, hstep, rfl⟩⟩
  cases a with
  | plugin_call core line =>
    simp only [step] at hstep
    split at hstep <;> cases hstep
    rename_i hphase
    exact true_of_plugin_call hrun hphase hu h
  | next bound_port => exact true_of_command_step hrun hstep hu h
  | plugin_fini | fail | notice | arrive | serve =>
    exfalso
    simp only [step] at hstep
    revert hstep
    repeat' split
    all_goals
      intro hstep
      cases hstep
    all_goals exact s.console_ne_append _ h

/-- `sql.http 8080`, up to where the server is up. -/
def http_on_8080 : List Action :=
  [.plugin_call (some 0) (Bytes.lit "sql.http 8080"), .next 0, .next 8080]

/-- The server is announced with the port that it listens on. -/
theorem a_server_is_announced :
    ∃ s u, run step unloaded http_on_8080 = some s ∧ step s (.next 0) = some u ∧
      u.listening 0 = some (.http, 8080) ∧
      (Reply.started 8080).True u (http_on_8080 ++ [.next 0]) .http := by
  have hlast : ((run step unloaded http_on_8080).bind fun s =>
      (step s (.next 0)).map fun u =>
        (u.console == s.console ++ [(.http, .started 8080)], u.listening 0)) =
        some (true, some (.http, 8080)) := by
    decide +kernel
  obtain ⟨s, hs, hu⟩ := Option.bind_eq_some_iff.mp hlast
  obtain ⟨u, hu, hend⟩ := Option.map_eq_some_iff.mp hu
  obtain ⟨hconsole, hlistens⟩ := Prod.mk.inj hend
  refine ⟨s, u, hs, hu, hlistens, ?_⟩
  exact (what_the_plugin_prints_is_true hs).2.2 (.next 0) u .http _ hu (eq_of_beq hconsole)

end r2sql.servers
