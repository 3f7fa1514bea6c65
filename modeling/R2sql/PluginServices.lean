-- What each server of the plugin is to its user: a service that can be started,
-- stopped and asked for its port, whatever the other one does.
import R2sql.PluginReplies

namespace r2sql.servers

open plugin (Core claimed)
open runs

/-! ## The abstract service -/

/-- A server that was started, and whether it still runs. -/
structure Service where
  port : Int
  running : Bool

/-- What the user asks of one transport. -/
inductive Wish where
  | subcommand (c : Subcommand)
  | unload
  deriving DecidableEq

/-- What happens to a service. A wish comes with the port that a start of the server gives. -/
inductive Event where
  | wish (w : Wish) (bound_port : Int)
  | death
  deriving DecidableEq

def Event.wish? : Event → Option Wish
  | wish w _ => some w
  | death => none

/-- The port of a service that runs. -/
def up : Option Service → Option Int
  | some ⟨port, true⟩ => some port
  | _ => none

/-- The service after an event, and what is printed. -/
def service (t : Transport) (σ : Option Service) : Event → Option Service × List Reply
  | .wish (.subcommand .status) _ =>
    match up σ with
    | some port => (σ, [.running localhost port])
    | none => (σ, [.not_running])
  | .wish (.subcommand .stop) _ => (none, [if σ.isSome then .stopped else .was_not_running])
  | .wish (.subcommand (.start port)) bound_port =>
    match up σ with
    | some _ => (σ, [.already_running])
    | none =>
      if fails t bound_port then (σ, [.failed port])
      else (some ⟨bound_port, true⟩, [.started bound_port])
  | .wish .unload _ => (none, [])
  | .death => (σ.map fun v => { v with running := false }, [])

/-- The service after the events, from none, and all that was printed. -/
def history (t : Transport) (es : List Event) : Option Service × List Reply :=
  es.foldl (fun p e => let q := service t p.1 e; (q.1, p.2 ++ q.2)) (none, [])

theorem history_concat (t : Transport) (es : List Event) (e : Event) :
    history t (es ++ [e]) =
      ((service t (history t es).1 e).1, (history t es).2 ++ (service t (history t es).1 e).2) := by
  simp [history]

/-! ## What the plugin shows of a service -/

def Command.wishes (t : Transport) : Command → List Wish
  | server t' c => if t' = t then [.subcommand c] else []
  | help | statement _ => []

/-- What the label asks of the transport. -/
def Action.wishes (t : Transport) : Action → List Wish
  | plugin_call _ line =>
    match claimed line with
    | some rest => (command_of rest).wishes t
    | none => []
  | plugin_fini => [.unload]
  | _ => []

/-- What was printed about the transport. -/
def State.printed (s : State) (t : Transport) : List Reply :=
  s.console.filterMap fun p => if p.1 = t then some p.2 else none

/-- The wish that the command thread did not get to yet. -/
def Phase.owed (t : Transport) : Phase → List Wish
  | session_to_start _ t' port | start t' port =>
    if t' = t then [.subcommand (.start port)] else []
  | fini_take .http => [.unload]
  | fini_take .mcp | fini_stop .http _ => if t = .mcp then [.unload] else []
  | _ => []

/-- What the command thread is about to print. -/
def Phase.due (t : Transport) : Phase → List Reply
  | publish t' _ port => if t' = t then [.started port] else []
  | stop t' _ => if t' = t then [.stopped] else []
  | _ => []

/-- The server of the transport that is up, and not in its slot yet. -/
def Phase.pending (t : Transport) : Phase → Option (Nat × Int)
  | publish t' server port => if t' = t then some (server, port) else none
  | _ => none

/-- The phase is nothing to the transport. -/
structure Phase.Quiet (t : Transport) (phase : Phase) : Prop where
  owed : phase.owed t = []
  due : phase.due t = []
  pending : phase.pending t = none

/-- The service that the plugin offers. -/
def State.service (s : State) (t : Transport) : Option Service :=
  match s.phase.pending t with
  | some (server, port) => some ⟨port, s.running server⟩
  | none => (s.slots t).server.map fun server => ⟨(s.slots t).port, s.running server⟩

/-! ## The events of a run -/

/-- A subcommand that is fulfilled at once. A start that has to be tried comes later. -/
def Subcommand.events (s : State) (t : Transport) : Subcommand → List Event
  | start port => if s.is_running t then [.wish (.subcommand (.start port)) 0] else []
  | c => [.wish (.subcommand c) 0]

def Command.events (t : Transport) (s : State) : Command → List Event
  | server t' c => if t' = t then c.events s t else []
  | help | statement _ => []

/-- What a step is to the service: its own subcommands, the start of its server with the port that
this gives, the unloading, and the notice of its server. -/
def events_of (t : Transport) (s : State) : Action → List Event
  | .plugin_call _ line =>
    match claimed line with
    | some rest => (command_of rest).events t s
    | none => []
  | .next bound_port =>
    match s.phase with
    | .start t' port => if t' = t then [.wish (.subcommand (.start port)) bound_port] else []
    | .fini_take t' => if t' = t then [.wish .unload 0] else []
    | _ => []
  | .notice server =>
    if (s.slots t).server = some server ∧ s.phase.pending t = none then [.death] else []
  | _ => []

def events (t : Transport) (as : List Action) : List Event :=
  record step (fun s a _ es => es ++ events_of t s a) unloaded as []

/-! ## The plugin follows the service -/

/-- The service went through the events. They are those of the wishes, in their order, but for the
wish that the command thread did not get to, and the plugin printed what the service did, or is
about to. -/
structure Shows (t : Transport) (s : State) (ws : List Wish) (es : List Event) : Prop where
  wishes : es.filterMap Event.wish? ++ s.phase.owed t = ws
  state : (history t es).1 = s.service t
  output : (history t es).2 = s.printed t ++ s.phase.due t

section
variable {t : Transport} {s u : State} {ws new : List Wish} {es : List Event}

theorem Shows.silent (h : Shows t s ws es) (howed : u.phase.owed t = s.phase.owed t ++ new)
    (hservice : u.service t = s.service t)
    (hprinted : u.printed t ++ u.phase.due t = s.printed t ++ s.phase.due t) :
    Shows t u (ws ++ new) es := by
  refine ⟨?_, by rw [h.state, hservice], by rw [h.output, hprinted]⟩
  rw [howed, ← List.append_assoc, h.wishes]

theorem Shows.event (h : Shows t s ws es) (e : Event)
    (howed : e.wish?.toList ++ u.phase.owed t = s.phase.owed t ++ new)
    (hservice : (service t (s.service t) e).1 = u.service t)
    (hprinted : s.printed t ++ s.phase.due t ++ (service t (s.service t) e).2 =
      u.printed t ++ u.phase.due t) : Shows t u (ws ++ new) (es ++ [e]) := by
  refine ⟨?_, ?_, ?_⟩
  · rw [List.filterMap_append, List.append_assoc, ← h.wishes, List.append_assoc, ← howed]
    cases he : e.wish? <;> simp [he]
  · rw [history_concat, h.state, hservice]
  · rw [history_concat, h.state, h.output, hprinted]

theorem printed_reply (s : State) (t t' : Transport) (r : Reply) :
    (s.reply t' r).printed t = s.printed t ++ if t' = t then [r] else [] := by
  unfold State.printed State.reply
  rw [List.filterMap_append]
  split <;> simp [*]

theorem service_of_slot (hpending : s.phase.pending t = none) :
    s.service t =
      (s.slots t).server.map fun server => ⟨(s.slots t).port, s.running server⟩ := by
  unfold State.service
  rw [hpending]

theorem service_congr (hs : s.phase.pending t = none) (hu : u.phase.pending t = none)
    (hslot : u.slots t = s.slots t)
    (hrunning : ∀ server, (s.slots t).server = some server → u.running server = s.running server) :
    u.service t = s.service t := by
  rw [service_of_slot hs, service_of_slot hu, hslot]
  cases hserver : (s.slots t).server with
  | none => rfl
  | some server => rw [Option.map_some, Option.map_some, hrunning server hserver]

/-- A step between phases that are nothing to the transport leaves its slot alone. -/
theorem Shows.frame (h : Shows t s ws es) (hs : s.phase.Quiet t) (hu : u.phase.Quiet t)
    (hslot : u.slots t = s.slots t)
    (hrunning : ∀ server, (s.slots t).server = some server → u.running server = s.running server)
    (hprinted : u.printed t = s.printed t) : Shows t u ws es := by
  rw [← List.append_nil ws]
  refine h.silent ?_ ?_ ?_
  · rw [hs.owed, hu.owed]
    rfl
  · exact service_congr hs.pending hu.pending hslot hrunning
  · rw [hprinted, hs.due, hu.due]

theorem quiet_idle : Phase.idle.Quiet t := ⟨rfl, rfl, rfl⟩

theorem Shows.reply_other (h : Shows t s ws es) (hs : s.phase.Quiet t) {t' : Transport}
    (ht : t' ≠ t) {v : State} (hslot : v.slots t = s.slots t)
    (hrunning : ∀ server, (s.slots t).server = some server → v.running server = s.running server)
    (hprinted : v.printed t = s.printed t) (r : Reply) : Shows t (v.reply t' r) ws es := by
  refine h.frame hs quiet_idle hslot hrunning ?_
  rw [printed_reply, if_neg ht, List.append_nil, hprinted]

theorem shows_other (hphase : s.phase = .idle) {t' : Transport} (ht : t' ≠ t) (core : Core)
    (c : Subcommand) (h : Shows t s ws es) :
    Shows t (handle_server_command s t' core c) ws es := by
  have hs : s.phase.Quiet t := by
    rw [hphase]
    exact quiet_idle
  have htake : (s.take t').slots t = s.slots t := Function.update_of_ne (Ne.symm ht) _ _
  cases c with
  | status => exact h.reply_other hs ht rfl (fun _ _ => rfl) rfl _
  | stop =>
    simp only [handle_server_command]
    cases hslot : (s.slots t').server with
    | some server =>
      refine h.frame hs ⟨rfl, ?_, rfl⟩ htake (fun _ _ => rfl) rfl
      simp [State.go, Phase.due, ht]
    | none => exact h.reply_other (v := s.take t') hs ht htake (fun _ _ => rfl) rfl _
  | start port =>
    simp only [handle_server_command]
    split
    · exact h.reply_other hs ht rfl (fun _ _ => rfl) rfl _
    · refine h.frame hs ⟨?_, rfl, rfl⟩ rfl (fun _ _ => rfl) rfl
      simp [State.go, Phase.owed, ht]

/-- What `is_running` gives, from the service. -/
theorem up_service (hpending : s.phase.pending t = none) :
    up (s.service t) = if s.is_running t then some (s.slots t).port else none := by
  rw [service_of_slot hpending]
  unfold State.is_running
  cases hslot : (s.slots t).server with
  | none => rfl
  | some server =>
    rw [Option.map_some]
    dsimp only
    split
    · rename_i hr
      rw [hr]
      rfl
    · rename_i hr
      rw [Bool.eq_false_iff.mpr hr]
      rfl

theorem Shows.reply_own (h : Shows t s ws es) (hs : s.phase.Quiet t) {v : State} {r : Reply}
    {w : Wish} (hprinted : v.printed t = s.printed t)
    (hevent : service t (s.service t) (.wish w 0) = ((v.reply t r).service t, [r])) :
    Shows t (v.reply t r) (ws ++ [w]) (es ++ [.wish w 0]) := by
  refine h.event (.wish w 0) ?_ (by rw [hevent]) ?_
  · rw [hs.owed]
    rfl
  · rw [hevent, printed_reply, if_pos rfl, hprinted, hs.due, List.append_nil]
    exact (List.append_nil _).symm

theorem shows_own (hapart : Apart s) (hphase : s.phase = .idle) (core : Core) (c : Subcommand)
    (h : Shows t s ws es) :
    Shows t (handle_server_command s t core c) (ws ++ [.subcommand c]) (es ++ c.events s t) := by
  have hs : s.phase.Quiet t := by
    rw [hphase]
    exact quiet_idle
  have hsame : ∀ r, (s.reply t r).service t = s.service t := by
    intro r
    rw [service_of_slot hs.pending]
    rfl
  cases c with
  | status =>
    refine h.reply_own hs rfl ?_
    rw [hsame, service, up_service hs.pending]
    cases hrunning : s.is_running t with
    | true =>
      have hbind : (s.slots t).bind = localhost := by
        cases hslot : (s.slots t).server with
        | none => simp [State.is_running, hslot] at hrunning
        | some server => exact hapart.bind t server hslot
      rw [hbind]
      rfl
    | false => rfl
  | stop =>
    have hgone : ∀ {u : State}, u.slots t = (s.take t).slots t → u.phase.pending t = none →
        u.service t = none := by
      intro u hslot hpending
      have hcleared : u.slots t = Slot.cleared := hslot.trans (Function.update_self _ _ _)
      rw [service_of_slot hpending, hcleared]
      rfl
    have hpresent := service_of_slot hs.pending
    simp only [handle_server_command]
    cases hslot : (s.slots t).server with
    | some server =>
      rw [hslot] at hpresent
      refine h.event (.wish (.subcommand .stop) 0) (by rw [hs.owed]; rfl) ?_ ?_
      · have hservice : ((s.take t).go (.stop t server)).service t = none := hgone rfl rfl
        exact hservice.symm
      · rw [hs.due, hpresent]
        simp [State.go, service, Phase.due, State.printed, State.take]
    | none =>
      rw [hslot] at hpresent
      refine h.reply_own hs (v := s.take t) rfl ?_
      have hservice : ((s.take t).reply t .was_not_running).service t = none := hgone rfl rfl
      rw [hservice, hpresent]
      rfl
  | start port =>
    simp only [handle_server_command]
    cases hrunning : s.is_running t with
    | true =>
      rw [show (Subcommand.start port).events s t = [.wish (.subcommand (.start port)) 0] from
        if_pos hrunning]
      refine h.reply_own hs rfl ?_
      rw [hsame, service, up_service hs.pending, hrunning]
      rfl
    | false =>
      rw [show (Subcommand.start port).events s t = [] from if_neg (by simp [hrunning]),
        List.append_nil]
      refine h.silent ?_ ?_ ?_
      · rw [hs.owed]
        simp [State.go, Phase.owed]
      · rw [service_of_slot hs.pending]
        rfl
      · rw [hs.due]
        rfl

theorem shows_plugin_call (hapart : Apart s) (hphase : s.phase = .idle) (core : Core)
    (line : Bytes) (h : Shows t s ws es) :
    Shows t (plugin_call s core line) (ws ++ (Action.plugin_call core line).wishes t)
      (es ++ events_of t s (.plugin_call core line)) := by
  have hs : s.phase.Quiet t := by
    rw [hphase]
    exact quiet_idle
  cases hclaimed : claimed line with
  | none =>
    simp only [plugin_call, Action.wishes, events_of, hclaimed, List.append_nil]
    exact h
  | some rest =>
    simp only [plugin_call, Action.wishes, events_of, hclaimed, dispatch]
    cases hcommand : command_of rest with
    | help =>
      simp only [Command.wishes, Command.events, List.append_nil]
      exact h
    | statement sql =>
      simp only [Command.wishes, Command.events, List.append_nil]
      exact h.frame hs ⟨rfl, rfl, rfl⟩ rfl (fun _ _ => rfl) rfl
    | server t' c =>
      simp only [Command.wishes, Command.events]
      by_cases ht : t' = t
      · rw [if_pos ht, if_pos ht]
        subst ht
        exact shows_own hapart hphase core c h
      · rw [if_neg ht, if_neg ht, List.append_nil, List.append_nil]
        exact shows_other hphase ht core c h

theorem shows_start (hinv : Inv s) {t' : Transport} {port : Int} (hphase : s.phase = .start t' port)
    {bound_port : Int} (hstep : command_step s bound_port = some u) (h : Shows t s ws es) :
    Shows t u ws (es ++ events_of t s (.next bound_port)) := by
  have hevents : events_of t s (.next bound_port) =
      if t' = t then [.wish (.subcommand (.start port)) bound_port] else [] := by
    simp only [events_of, hphase]
  rw [hevents]
  simp only [command_step, hphase] at hstep
  have hold : ∀ server, (s.slots t).server = some server →
      (s.launch t' bound_port).running server = s.running server := by
    intro server hslot
    exact Function.update_of_ne (Nat.ne_of_lt (hinv.slot_lt t server hslot)) _ _
  by_cases ht : t' = t
  · rw [if_pos ht]
    subst ht
    have hpending : s.phase.pending t' = none := by
      rw [hphase]
      rfl
    have howed : s.phase.owed t' = [.subcommand (.start port)] := by
      rw [hphase]
      exact if_pos rfl
    have hdue : s.phase.due t' = [] := by
      rw [hphase]
      rfl
    have hdown : up (s.service t') = none := by
      rw [up_service hpending, hinv.free t' (by rw [hphase]; rfl)]
      rfl
    rw [← List.append_nil ws]
    split at hstep <;> cases hstep
    · rename_i hfails
      refine h.event (.wish (.subcommand (.start port)) bound_port) (by rw [howed]; rfl) ?_ ?_
      · simp only [service, hdown, hfails, if_true]
        rw [service_of_slot hpending]
        rfl
      · simp only [service, hdown, hfails, if_true]
        rw [printed_reply, if_pos rfl, hdue, List.append_nil]
        exact (List.append_nil _).symm
    · rename_i hfails
      refine h.event (.wish (.subcommand (.start port)) bound_port) (by rw [howed]; rfl) ?_ ?_
      · simp only [service, hdown, hfails]
        simp [State.service, State.launch, Phase.pending]
      · rw [hdue]
        simp only [service, hdown, hfails]
        simp [State.launch, State.printed, Phase.due]
  · rw [if_neg ht, List.append_nil]
    have hs : s.phase.Quiet t := by
      rw [hphase]
      exact ⟨if_neg ht, rfl, rfl⟩
    split at hstep <;> cases hstep
    · exact h.reply_other hs ht rfl (fun _ _ => rfl) rfl _
    · exact h.frame hs ⟨rfl, if_neg ht, if_neg ht⟩ rfl hold rfl

theorem shows_publish {t' : Transport} {server : Nat} {port : Int}
    (hphase : s.phase = .publish t' server port) (h : Shows t s ws es) :
    Shows t ((s.put t' server port).reply t' (.started port)) ws es := by
  by_cases ht : t' = t
  · subst ht
    rw [← List.append_nil ws]
    refine h.silent ?_ ?_ ?_
    · rw [hphase]
      rfl
    · have hpending : s.phase.pending t' = some (server, port) := by
        rw [hphase]
        exact if_pos rfl
      have hslot : ((s.put t' server port).reply t' (.started port)).slots t' =
          ⟨some server, port, localhost⟩ := Function.update_self _ _ _
      rw [service_of_slot rfl, hslot, State.service, hpending]
      rfl
    · rw [printed_reply, if_pos rfl, hphase]
      simp [State.put, State.reply, State.printed, Phase.due]
  · have hs : s.phase.Quiet t := by
      rw [hphase]
      exact ⟨rfl, if_neg ht, if_neg ht⟩
    have hslot : (s.put t' server port).slots t = s.slots t :=
      Function.update_of_ne (Ne.symm ht) _ _
    exact h.reply_other hs ht hslot (fun _ _ => rfl) rfl _

theorem shows_halt (hapart : Apart s) {t' : Transport} {server : Nat}
    (hhand : s.phase.hand = some (t', server)) (hs : s.phase.pending t = none)
    (hslot : u.slots = s.slots) (hrunning : u.running = Function.update s.running server false)
    (hu : u.phase.pending t = none) (howed : u.phase.owed t = s.phase.owed t)
    (hprinted : u.printed t ++ u.phase.due t = s.printed t ++ s.phase.due t)
    (h : Shows t s ws es) : Shows t u ws es := by
  rw [← List.append_nil ws]
  refine h.silent (by rw [howed, List.append_nil]) ?_ hprinted
  refine service_congr hs hu (by rw [hslot]) fun server' hserver => ?_
  have hne : server' ≠ server := by
    rintro rfl
    exact hapart.hand t' server' t hhand hserver
  rw [hrunning, Function.update_of_ne hne]

theorem shows_fini_take {t' : Transport} (hphase : s.phase = .fini_take t') {phase : Phase}
    (hafter : phase = after_fini t' ∨ ∃ server, phase = .fini_stop t' server)
    (h : Shows t s ws es) :
    Shows t ((s.take t').go phase) ws (es ++ if t' = t then [.wish .unload 0] else []) := by
  have hquiet : phase.due t = [] ∧ phase.pending t = none := by
    rcases hafter with rfl | ⟨server, rfl⟩
    · cases t' <;> exact ⟨rfl, rfl⟩
    · exact ⟨rfl, rfl⟩
  have hpending : s.phase.pending t = none := by
    rw [hphase]
    rfl
  have hdue : s.phase.due t = [] := by
    rw [hphase]
    rfl
  rw [← List.append_nil ws]
  by_cases ht : t' = t
  · rw [if_pos ht]
    subst ht
    refine h.event (.wish .unload 0) ?_ ?_ ?_
    · rw [hphase]
      rcases hafter with rfl | ⟨server, rfl⟩ <;> cases t' <;> rfl
    · have hslot : ((s.take t').go phase).slots t' = Slot.cleared := Function.update_self _ _ _
      have hgone : ((s.take t').go phase).service t' = none := by
        rw [service_of_slot (s := (s.take t').go phase) hquiet.2, hslot]
        rfl
      exact hgone.symm
    · rw [hdue, List.append_nil]
      exact congrArg (s.printed t' ++ ·) hquiet.1.symm
  · rw [if_neg ht, List.append_nil es]
    refine h.silent ?_ ?_ ?_
    · rw [hphase, List.append_nil]
      rcases hafter with rfl | ⟨server, rfl⟩ <;> cases t' <;> cases t <;>
        first | rfl | exact absurd rfl ht
    · exact service_congr hpending hquiet.2 (Function.update_of_ne (Ne.symm ht) _ _)
        fun _ _ => rfl
    · rw [hdue]
      exact congrArg (s.printed t ++ ·) hquiet.1

theorem shows_notice (hapart : Apart s) {server : Nat}
    (hslot : (s.slots .http).server = some server) (h : Shows t s ws es) :
    Shows t (s.mark server) ws (es ++ events_of t s (.notice server)) := by
  have hmark : ∀ {server'}, server' ≠ server →
      (s.mark server).running server' = s.running server' :=
    fun hne => Function.update_of_ne hne _ _
  have hunseen : ¬ ((s.slots t).server = some server ∧ s.phase.pending t = none) →
      (s.mark server).service t = s.service t →
        Shows t (s.mark server) ws (es ++ events_of t s (.notice server)) := by
    intro hnone hservice
    rw [show events_of t s (.notice server) = [] from if_neg hnone, List.append_nil es,
      ← List.append_nil ws]
    exact h.silent (List.append_nil _).symm hservice rfl
  cases hpending : s.phase.pending t with
  | some p =>
    -- The service is the server in the hand, and that is in no slot.
    refine hunseen (by simp [hpending]) ?_
    have hhand : s.phase.hand = some (t, p.1) := by
      cases hphase : s.phase <;> rw [hphase, Phase.pending] at hpending <;> try cases hpending
      split at hpending <;> cases hpending
      rename_i ht
      rw [ht]
      rfl
    have hne : p.1 ≠ server := by
      rintro rfl
      exact hapart.hand t p.1 .http hhand hslot
    have hpending' : (s.mark server).phase.pending t = some p := hpending
    unfold State.service
    rw [hpending, hpending']
    dsimp only
    rw [hmark hne]
  | none =>
    have hpending' : (s.mark server).phase.pending t = none := hpending
    cases t with
    | http =>
      rw [show events_of .http s (.notice server) = [.death] from if_pos ⟨hslot, hpending⟩,
        ← List.append_nil ws]
      refine h.event .death (List.append_nil _).symm ?_ (List.append_nil _)
      have hslot' : ((s.mark server).slots .http).server = some server := hslot
      rw [service_of_slot hpending, service_of_slot hpending', hslot, hslot']
      simp [service, State.mark]
    | mcp =>
      have hother : (s.slots .mcp).server ≠ some server := by
        intro hserver
        cases hapart.slots _ _ _ hslot hserver
      refine hunseen (fun hthere => hother hthere.1) ?_
      refine service_congr hpending hpending' rfl fun server' hserver => hmark ?_
      rintro rfl
      exact hother hserver

theorem shows_step (hinv : Inv s) (hapart : Apart s) {a : Action} (hstep : step s a = some u)
    (h : Shows t s ws es) : Shows t u (ws ++ a.wishes t) (es ++ events_of t s a) := by
  cases a with
  | plugin_call core line =>
    simp only [step] at hstep
    split at hstep <;> cases hstep
    rename_i hphase
    exact shows_plugin_call hapart hphase core line h
  | plugin_fini =>
    simp only [step] at hstep
    split at hstep <;> cases hstep
    rename_i hphase
    have hs : s.phase.Quiet t := by
      rw [hphase]
      exact quiet_idle
    rw [show events_of t s .plugin_fini = [] from rfl, List.append_nil]
    refine h.silent ?_ ?_ ?_
    · rw [hs.owed]
      rfl
    · exact service_congr hs.pending rfl rfl fun _ _ => rfl
    · rw [hs.due]
      rfl
  | next bound_port =>
    rw [show (Action.next bound_port).wishes t = [] from rfl, List.append_nil]
    have hcommand : command_step s bound_port = some u := hstep
    have hevents : (∀ t' port, s.phase ≠ .start t' port) → (∀ t', s.phase ≠ .fini_take t') →
        es ++ events_of t s (.next bound_port) = es := by
      intro hstart htake
      rw [List.append_right_eq_self]
      unfold events_of
      dsimp only
      split
      · rename_i t' port hphase
        exact absurd hphase (hstart t' port)
      · rename_i t' hphase
        exact absurd hphase (htake t')
      · rfl
    simp only [step, command_step] at hstep
    cases hphase : s.phase with
    | idle => simp [hphase] at hstep
    | session_to_start core t' port =>
      simp only [hphase, Option.some.injEq] at hstep
      subst hstep
      rw [hevents (by simp [hphase]) (by simp [hphase]), ← List.append_nil ws]
      refine h.silent ?_ ?_ ?_
      · rw [hphase, List.append_nil]
        rfl
      · exact service_congr (by rw [hphase]; rfl) rfl rfl fun _ _ => rfl
      · rw [hphase]
        rfl
    | start t' port => exact shows_start hinv hphase hcommand h
    | publish t' server port =>
      simp only [hphase, Option.some.injEq] at hstep
      subst hstep
      rw [hevents (by simp [hphase]) (by simp [hphase])]
      exact shows_publish hphase h
    | stop t' server =>
      simp only [hphase, Option.some.injEq] at hstep
      subst hstep
      rw [hevents (by simp [hphase]) (by simp [hphase])]
      refine shows_halt hapart (by rw [hphase]; rfl) (by rw [hphase]; rfl) rfl rfl rfl
        (by rw [hphase]; rfl) ?_ h
      rw [printed_reply, hphase]
      exact List.append_nil _
    | fini_take t' =>
      have htake : events_of t s (.next bound_port) =
          if t' = t then [.wish .unload 0] else [] := by
        simp only [events_of, hphase]
      rw [htake]
      simp only [hphase] at hstep
      cases hslot : (s.slots t').server with
      | some server =>
        simp only [hslot, Option.some.injEq] at hstep
        subst hstep
        exact shows_fini_take hphase (Or.inr ⟨server, rfl⟩) h
      | none =>
        simp only [hslot, Option.some.injEq] at hstep
        subst hstep
        exact shows_fini_take hphase (Or.inl rfl) h
    | fini_stop t' server =>
      simp only [hphase, Option.some.injEq] at hstep
      subst hstep
      rw [hevents (by simp [hphase]) (by simp [hphase])]
      refine shows_halt hapart (by rw [hphase]; rfl) (by rw [hphase]; rfl) rfl rfl
        (by cases t' <;> rfl) ?_ ?_ h
      · rw [hphase]
        cases t' <;> rfl
      · rw [hphase]
        cases t' <;> rfl
    | session_to_query | query | fini_session =>
      have hs : s.phase.Quiet t := by
        rw [hphase]
        exact ⟨rfl, rfl, rfl⟩
      simp only [hphase, Option.some.injEq] at hstep
      subst hstep
      rw [hevents (by simp [hphase]) (by simp [hphase])]
      exact h.frame hs ⟨rfl, rfl, rfl⟩ rfl (fun _ _ => rfl) rfl
  | fail server =>
    cases hstep
    rw [show events_of t s (.fail server) = [] from rfl, List.append_nil es]
    exact h.silent (List.append_nil _).symm rfl rfl
  | notice server =>
    simp only [step] at hstep
    split at hstep <;> cases hstep
    rename_i hslot
    rw [show (Action.notice server).wishes t = [] from rfl, List.append_nil ws]
    exact shows_notice hapart hslot.1 h
  | arrive r =>
    simp only [step] at hstep
    split at hstep <;> cases hstep
    rw [show events_of t s (.arrive r) = [] from rfl, List.append_nil es]
    exact h.silent (List.append_nil _).symm rfl rfl
  | serve r =>
    simp only [step] at hstep
    split at hstep <;> cases hstep
    rw [show events_of t s (.serve r) = [] from rfl, List.append_nil es]
    exact h.silent (List.append_nil _).symm rfl rfl

end

theorem shows_of_run {as : List Action} {s : State} (hrun : run step unloaded as = some s)
    (t : Transport) : Shows t s (as.flatMap (Action.wishes t)) (events t as) := by
  refine run_invariant_history
    (I := fun s as => Shows t s (as.flatMap (Action.wishes t)) (events t as))
    (fun s as a u hrun h hstep => ?_) ⟨rfl, rfl, rfl⟩ hrun
  obtain ⟨hinv, hapart⟩ := inv_of_run hrun
  have hevents : events t (as ++ [a]) = events t as ++ events_of t s a :=
    record_concat hrun hstep []
  rw [hevents, List.flatMap_append, List.flatMap_singleton]
  exact shows_step hinv hapart hstep h

/-- A run of the plugin is, to the user of one transport, a run of a service of its own: the events
of the transport are its subcommands in their order, with the notices of its server between them,
and they give all that was printed about it. So two runs with the same events print the same, and
the other server, the statements and the requests make no difference. -/
theorem a_transport_is_a_service {as : List Action} {s : State}
    (hrun : run step unloaded as = some s) (hidle : s.phase = .idle) (t : Transport) :
    (events t as).filterMap Event.wish? = as.flatMap (Action.wishes t) ∧
      (history t (events t as)).1 = s.service t ∧ (history t (events t as)).2 = s.printed t ∧
      ∀ bs u, run step unloaded bs = some u → u.phase = .idle → events t bs = events t as →
        u.printed t = s.printed t := by
  have hprinted : ∀ {bs u}, run step unloaded bs = some u → u.phase = .idle →
      (history t (events t bs)).2 = u.printed t := by
    intro bs u hrun hidle
    have hout := (shows_of_run hrun t).output
    rw [hidle] at hout
    exact hout.trans (List.append_nil _)
  have hshows := shows_of_run hrun t
  refine ⟨?_, hshows.state, hprinted hrun hidle, fun bs u hbs hu hevents => ?_⟩
  · rw [← hshows.wishes, hidle]
    exact (List.append_nil _).symm
  · rw [← hprinted hbs hu, hevents, hprinted hrun hidle]

/-- The server fails, and the user asks for it and stops it. -/
def a_failed_server : List Action :=
  http_on_8080 ++ [.next 0, .fail 0, .notice 0, .plugin_call (some 0) (Bytes.lit "sql.http?"),
    .plugin_call (some 0) (Bytes.lit "sql.http-"), .next 0]

theorem a_failed_server_is_a_service :
    ∃ s, run step unloaded a_failed_server = some s ∧
      events .http a_failed_server = [.wish (.subcommand (.start 8080)) 8080, .death,
        .wish (.subcommand .status) 0, .wish (.subcommand .stop) 0] ∧
      s.printed .http = [.started 8080, .not_running, .stopped] := by
  have hlast : (run step unloaded a_failed_server).map State.phase = some .idle := by
    decide +kernel
  obtain ⟨s, hs, hidle⟩ := Option.map_eq_some_iff.mp hlast
  have hevents : events .http a_failed_server = [.wish (.subcommand (.start 8080)) 8080, .death,
      .wish (.subcommand .status) 0, .wish (.subcommand .stop) 0] := by
    decide +kernel
  obtain ⟨-, -, hout, -⟩ := a_transport_is_a_service hs hidle .http
  refine ⟨s, hs, hevents, ?_⟩
  rw [← hout, hevents]
  decide +kernel

end r2sql.servers
