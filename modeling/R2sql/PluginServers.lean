-- The two servers that the plugin starts and stops inside radare2, and the
-- session that they share. Requests come to the servers while a command runs,
-- and a server can fail by itself.
import R2sql.PluginLocks
import R2sql.Ports

namespace r2sql.servers

open plugin (Core claimed statement server_tail skip_blanks)
open runs

inductive Transport where
  | http
  | mcp
  deriving DecidableEq

/-- The port in the tail of a subcommand. -/
def requested_port (tail : Bytes) : Int :=
  match strtol tail with
  | some v => if 0 ≤ v ∧ v ≤ 65535 then v else 0
  | none => 0

def localhost : Bytes := Bytes.lit "127.0.0.1"

/-! ## What a subcommand prints -/

/-- The library of the HTTP client: how a host is written in a URL. -/
class ThinClient where
  format_url_host : Bytes → Bytes

inductive Reply where
  | running (bind : Bytes) (port : Int)
  | not_running
  | stopped
  | was_not_running
  | already_running
  | failed (port : Int)
  | started (port : Int)
  deriving DecidableEq

/-- The name of a transport, and its subcommand. -/
def Transport.word : Transport → String × String
  | http => ("HTTP", "http")
  | mcp => ("MCP", "mcp")

/-- `r_cons_println`. -/
def println (line : Bytes) : Bytes := line ++ Bytes.lit "\n"

/-- `std::snprintf` into a buffer of `size` bytes. -/
def snprintf (size : Nat) (text : Bytes) : Bytes := text.take (size - 1)

section
variable [ThinClient]

def format_mcp_info (port : Int) (bind_addr : Bytes) : Bytes :=
  Bytes.lit "r2sql MCP server: http://" ++ ThinClient.format_url_host bind_addr ++ Bytes.lit ":" ++
    to_string port ++ Bytes.lit "/sse\n"

def format_mcp_status (port : Int) (running : Bool) (bind_addr : Bytes) : Bytes :=
  if running then
    Bytes.lit "MCP server running on port " ++ to_string port ++ Bytes.lit "\n" ++
      Bytes.lit "SSE endpoint: http://" ++ ThinClient.format_url_host bind_addr ++ Bytes.lit ":" ++
      to_string port ++ Bytes.lit "/sse\n"
  else Bytes.lit "MCP server not running\nUse 'sql.mcp [port]' to start\n"

/-- The text of a reply, as the handler of the transport prints it. -/
def Reply.text (t : Transport) : Reply → Bytes
  | running bind port =>
    match t with
    | .http => println (snprintf 160 (Bytes.lit "r2sql: HTTP server running at http://" ++ bind ++
        Bytes.lit ":" ++ to_string port))
    | .mcp => format_mcp_status port true bind
  | not_running => println (Bytes.lit s!"r2sql: {t.word.1} server not running.")
  | stopped => println (Bytes.lit s!"r2sql: {t.word.1} server stopped.")
  | was_not_running => println (Bytes.lit s!"r2sql: {t.word.1} server was not running.")
  | already_running => println (Bytes.lit
      s!"r2sql: {t.word.1} server already running. Use `sql.{t.word.2}-` to stop it.")
  | failed port => println (snprintf 128 (Bytes.lit
      s!"r2sql: failed to start {t.word.1} server on port " ++ to_string port ++ Bytes.lit "."))
  | started port =>
    match t with
    | .http => println (snprintf 160 (Bytes.lit "r2sql: HTTP server: http://127.0.0.1:" ++
        to_string port))
    | .mcp => format_mcp_info port localhost

end

/-! ## The state -/

/-- A server of the plugin: `g_state.http`, `http_port` and `http_bind`, or those of MCP. A server
object goes by its number. -/
structure Slot where
  server : Option Nat
  port : Int
  bind : Bytes

/-- What the slot is after the server was moved out of it. -/
def Slot.cleared : Slot := ⟨none, 0, []⟩

/-- What the command thread of radare2 does next, up to where it lets go of the lock or calls a
server. -/
inductive Phase where
  | idle
  /-- `ensure_session`, and the start of a server then. -/
  | session_to_start (core : Core) (t : Transport) (port : Int)
  | start (t : Transport) (port : Int)
  /-- The server is up, and the plugin does not have it yet. -/
  | publish (t : Transport) (server : Nat) (port : Int)
  | stop (t : Transport) (server : Nat)
  /-- `ensure_session`, and the statement then. -/
  | session_to_query (core : Core) (sql : Bytes)
  | query (core : Core) (sql : Bytes)
  /-- `plugin_fini`. -/
  | fini_take (t : Transport)
  | fini_stop (t : Transport) (server : Nat)
  | fini_session
  deriving DecidableEq

/-- A request that a server accepted. -/
structure Request where
  server : Nat
  body : Bytes
  deriving DecidableEq

/-- The plugin and its servers. `listening` has the servers that accept requests, with their
transport and port, and `running` has what `is_running` gives. -/
structure State where
  session : Option Core
  slots : Transport → Slot
  phase : Phase
  next : Nat
  listening : Nat → Option (Transport × Int)
  running : Nat → Bool
  waiting : List Request
  /-- What the subcommands printed. -/
  console : List (Transport × Reply)
  /-- The statements of the command thread, with its core and the core of the session. -/
  asked : List (Core × Bytes × Option Core)
  /-- The requests, and the core of the session that each found. -/
  answered : List (Request × Option Core)

def unloaded : State where
  session := none
  slots _ := Slot.cleared
  phase := .idle
  next := 0
  listening _ := none
  running _ := false
  waiting := []
  console := []
  asked := []
  answered := []

namespace State

def go (s : State) (phase : Phase) : State := { s with phase := phase }

/-- Prints the reply, and the command is done. -/
def reply (s : State) (t : Transport) (r : Reply) : State :=
  { s with phase := .idle, console := s.console ++ [(t, r)] }

/-- Moves the server out of its slot. -/
def take (s : State) (t : Transport) : State :=
  { s with slots := Function.update s.slots t Slot.cleared }

/-- The server does not listen any more. -/
def drop (s : State) (server : Nat) : State :=
  { s with listening := Function.update s.listening server none }

/-- `is_running` gives false from now on. -/
def mark (s : State) (server : Nat) : State :=
  { s with running := Function.update s.running server false }

def ensure_session (s : State) (core : Core) : State := { s with session := some core }

/-- A new server listens on the port, in the hand of the command thread. -/
def launch (s : State) (t : Transport) (bound_port : Int) : State :=
  { s with
    next := s.next + 1
    listening := Function.update s.listening s.next (some (t, bound_port))
    running := Function.update s.running s.next true
    phase := .publish t s.next bound_port }

/-- Moves a server into its slot. -/
def put (s : State) (t : Transport) (server : Nat) (port : Int) : State :=
  { s with slots := Function.update s.slots t ⟨some server, port, localhost⟩ }

/-- `g_state.http && g_state.http->is_running()`. -/
def is_running (s : State) (t : Transport) : Bool :=
  match (s.slots t).server with
  | some server => s.running server
  | none => false

end State

/-! ## The command thread -/

/-- The port from `start` stands for a failure. -/
def fails : Transport → Int → Bool
  | .http, bound_port => bound_port < 0
  | .mcp, bound_port => bound_port ≤ 0

/-- What the tail of a subcommand asks for. -/
inductive Subcommand where
  | status
  | stop
  | start (port : Int)
  deriving DecidableEq

def subcommand_of (tail : Bytes) : Subcommand :=
  let tail := skip_blanks tail
  if tail.head? = some '?'.toUInt8 then .status
  else if tail.head? = some '-'.toUInt8 then .stop
  else .start (requested_port tail)

/-- `handle_http_command` and `handle_mcp_command`, up to `ensure_session`. -/
def handle_server_command (s : State) (t : Transport) (core : Core) : Subcommand → State
  | .status =>
    s.reply t (if s.is_running t then .running (s.slots t).bind (s.slots t).port else .not_running)
  | .stop =>
    match (s.slots t).server with
    | some server => (s.take t).go (.stop t server)
    | none => (s.take t).reply t .was_not_running
  | .start port =>
    if s.is_running t then s.reply t .already_running
    else s.go (.session_to_start core t port)

/-- The command of a line, after the prefix of the plugin. -/
inductive Command where
  | help
  | server (t : Transport) (subcommand : Subcommand)
  | statement (sql : Bytes)
  deriving DecidableEq

def command_of (input : Bytes) : Command :=
  match plugin.statement input with
  | none => .help
  | some input =>
    match server_tail "http" input, server_tail "mcp" input with
    | some tail, _ => .server .http (subcommand_of tail)
    | none, some tail => .server .mcp (subcommand_of tail)
    | none, none => .statement input

def dispatch (s : State) (core : Core) (input : Bytes) : State :=
  match command_of input with
  | .help => s
  | .server t subcommand => handle_server_command s t core subcommand
  | .statement sql => s.go (.session_to_query core sql)

def plugin_call (s : State) (core : Core) (line : Bytes) : State :=
  match claimed line with
  | some rest => dispatch s core rest
  | none => s

/-- `plugin_fini` goes from one server to the next, and to the session last. -/
def after_fini : Transport → Phase
  | .http => .fini_take .mcp
  | .mcp => .fini_session

/-- The next step of the command thread. `bound_port` is what `start` gives. -/
def command_step (s : State) (bound_port : Int) : Option State :=
  match s.phase with
  | .idle => none
  | .session_to_start core t port => some ((s.ensure_session core).go (.start t port))
  | .start t port =>
    if fails t bound_port then some (s.reply t (.failed port)) else some (s.launch t bound_port)
  | .publish t server port => some ((s.put t server port).reply t (.started port))
  | .stop t server => some (((s.mark server).drop server).reply t .stopped)
  | .session_to_query core sql => some ((s.ensure_session core).go (.query core sql))
  | .query core sql => some { s with phase := .idle, asked := s.asked ++ [(core, sql, s.session)] }
  | .fini_take t =>
    match (s.slots t).server with
    | some server => some ((s.take t).go (.fini_stop t server))
    | none => some ((s.take t).go (after_fini t))
  | .fini_stop t server => some (((s.mark server).drop server).go (after_fini t))
  | .fini_session => some { s with phase := .idle, session := none }

/-! ## Runs -/

inductive Action where
  | plugin_call (core : Core) (line : Bytes)
  | plugin_fini
  /-- The command thread goes on. -/
  | next (bound_port : Int)
  /-- A server stops listening by itself. -/
  | fail (server : Nat)
  /-- The HTTP server sees that it does not listen any more. -/
  | notice (server : Nat)
  | arrive (r : Request)
  /-- The callback of a server gets the lock, and serves the request. -/
  | serve (r : Request)

def step (s : State) : Action → Option State
  | .plugin_call core line =>
    match s.phase with
    | .idle => some (plugin_call s core line)
    | _ => none
  | .plugin_fini =>
    match s.phase with
    | .idle => some (s.go (.fini_take .http))
    | _ => none
  | .next bound_port => command_step s bound_port
  | .fail server => some (s.drop server)
  | .notice server =>
    if (s.slots .http).server = some server ∧ s.listening server = none then some (s.mark server)
    else none
  | .arrive r =>
    if (s.listening r.server).isSome then some { s with waiting := s.waiting ++ [r] } else none
  | .serve r =>
    if r ∈ s.waiting then
      some { s with waiting := s.waiting.erase r, answered := s.answered ++ [(r, s.session)] }
    else none

/-! ## Where the servers are -/

namespace Phase

/-- The server that the command thread has in its hand. -/
def hand : Phase → Option (Transport × Nat)
  | publish t server _ | stop t server | fini_stop t server => some (t, server)
  | _ => none

/-- The transports whose slot is empty. -/
def vacant : Phase → List Transport
  | stop t _ => [t]
  | fini_take .mcp | fini_stop .http _ => [.http]
  | fini_stop .mcp _ | fini_session => [.http, .mcp]
  | _ => []

/-- The transport that is about to get a server. -/
def free : Phase → Option Transport
  | session_to_start _ t _ | start t _ | publish t _ _ => some t
  | _ => none

/-- There is a session. -/
def bound : Phase → Bool
  | start .. | publish .. | stop .. | query .. | fini_stop .. => true
  | _ => false

/-- The core that the session is to be for. -/
def core : Phase → Option Core
  | session_to_start core _ _ | session_to_query core _ => some core
  | _ => none

/-- The port that the server in the hand is to be published with. -/
def port : Phase → Option Int
  | publish _ _ port => some port
  | _ => none

end Phase

/-- A server that listens is in the slot of its transport, with its port, or in the hand of the
command thread. A slot with a server that runs is not given another one. -/
structure Inv (s : State) : Prop where
  fresh : ∀ server, s.next ≤ server → s.listening server = none
  slot_lt : ∀ t server, (s.slots t).server = some server → server < s.next
  hand_lt : ∀ t server, s.phase.hand = some (t, server) → server < s.next
  running : ∀ server, s.listening server ≠ none → s.running server = true
  held : ∀ server t port, s.listening server = some (t, port) →
    s.slots t = ⟨some server, port, localhost⟩ ∨
      s.phase.hand = some (t, server) ∧ ∀ p ∈ s.phase.port, p = port
  session : ∀ t server, (s.slots t).server = some server → s.session ≠ none
  bound : s.phase.bound = true → s.session ≠ none
  vacant : ∀ t ∈ s.phase.vacant, (s.slots t).server = none
  free : ∀ t ∈ s.phase.free, s.is_running t = false

theorem inv_unloaded : Inv unloaded where
  fresh _ _ := rfl
  slot_lt _ _ h := by cases h
  hand_lt _ _ h := by cases h
  running _ h := absurd rfl h
  held _ _ _ h := by cases h
  session _ _ h := by cases h
  bound h := by cases h
  vacant _ h := by cases h
  free _ h := by cases h

namespace Inv

variable {s : State}

theorem go (hs : Inv s) {phase : Phase} (hfrom : s.phase.hand = none) (hhand : phase.hand = none)
    (hbound : phase.bound = true → s.session ≠ none)
    (hvacant : ∀ t ∈ phase.vacant, (s.slots t).server = none)
    (hfree : ∀ t ∈ phase.free, s.is_running t = false) : Inv (s.go phase) where
  fresh := hs.fresh
  slot_lt := hs.slot_lt
  hand_lt t server h := by
    rw [State.go, hhand] at h
    cases h
  running := hs.running
  held server t port h := by
    rcases hs.held server t port h with hslot | ⟨hhand, -⟩
    · exact Or.inl hslot
    · rw [hfrom] at hhand
      cases hhand
  session := hs.session
  bound := hbound
  vacant := hvacant
  free := hfree

theorem reply (hs : Inv (s.go .idle)) (t : Transport) (r : Reply) : Inv (s.reply t r) :=
  ⟨hs.fresh, hs.slot_lt, hs.hand_lt, hs.running, hs.held, hs.session, hs.bound, hs.vacant, hs.free⟩

theorem ensure_session (hs : Inv s) (core : Core) : Inv (s.ensure_session core) :=
  ⟨hs.fresh, hs.slot_lt, hs.hand_lt, hs.running, hs.held, fun _ _ _ => Option.some_ne_none _,
    fun _ => Option.some_ne_none _, hs.vacant, hs.free⟩

theorem take (hs : Inv s) {t : Transport} {server : Nat} {phase : Phase}
    (hfrom : s.phase.hand = none) (hslot : (s.slots t).server = some server)
    (hhand : phase.hand = some (t, server)) (hport : phase.port = none)
    (hvacant : ∀ t' ∈ phase.vacant, t' = t ∨ (s.slots t').server = none)
    (hfree : phase.free = none) : Inv ((s.take t).go phase) where
  fresh := hs.fresh
  slot_lt t' server' h := by
    by_cases ht : t' = t
    · subst ht
      simp [State.take, State.go, Slot.cleared] at h
    · simp only [State.take, State.go, Function.update_of_ne ht] at h
      exact hs.slot_lt t' server' h
  hand_lt t' server' h := by
    simp only [State.take, State.go, hhand, Option.some.injEq, Prod.mk.injEq] at h
    exact h.2 ▸ hs.slot_lt t server hslot
  running := hs.running
  held server' t' port h := by
    rcases hs.held server' t' port h with heq | ⟨heq, -⟩
    · by_cases ht : t' = t
      · subst ht
        rw [heq, Option.some.injEq] at hslot
        refine Or.inr ⟨hslot ▸ hhand, fun p hp => ?_⟩
        simp [State.go, hport] at hp
      · refine Or.inl ?_
        simpa only [State.take, State.go, Function.update_of_ne ht] using heq
    · rw [hfrom] at heq
      cases heq
  session t' server' h := by
    exact hs.session t server hslot
  bound _ := hs.session t server hslot
  vacant t' h := by
    by_cases ht : t' = t
    · subst ht
      simp [State.take, State.go, Slot.cleared]
    · simp only [State.take, State.go, Function.update_of_ne ht]
      exact (hvacant t' h).resolve_left ht
  free t' h := by
    simp [State.go, hfree] at h

theorem clear (hs : Inv s) {t : Transport} (hslot : (s.slots t).server = none) :
    Inv (s.take t) where
  fresh := hs.fresh
  slot_lt t' server h := by
    by_cases ht : t' = t
    · simp [State.take, ht, Slot.cleared] at h
    · simp only [State.take, Function.update_of_ne ht] at h
      exact hs.slot_lt t' server h
  hand_lt := hs.hand_lt
  running := hs.running
  held server t' port h := by
    rcases hs.held server t' port h with heq | hhand
    · have ht : t' ≠ t := by
        rintro rfl
        rw [heq] at hslot
        cases hslot
      exact Or.inl (by simpa only [State.take, Function.update_of_ne ht] using heq)
    · exact Or.inr hhand
  session t' server h := by
    by_cases ht : t' = t
    · simp [State.take, ht, Slot.cleared] at h
    · simp only [State.take, Function.update_of_ne ht] at h
      exact hs.session t' server h
  bound := hs.bound
  vacant t' h := by
    by_cases ht : t' = t
    · simp [State.take, ht, Slot.cleared]
    · simpa only [State.take, Function.update_of_ne ht] using hs.vacant t' h
  free t' h := by
    by_cases ht : t' = t
    · simp [State.is_running, State.take, ht, Slot.cleared]
    · simpa only [State.is_running, State.take, Function.update_of_ne ht] using hs.free t' h

theorem drop (hs : Inv s) (server : Nat) : Inv (s.drop server) where
  fresh server' h := by
    by_cases heq : server' = server
    · simp [State.drop, heq]
    · simpa only [State.drop, Function.update_of_ne heq] using hs.fresh server' h
  slot_lt := hs.slot_lt
  hand_lt := hs.hand_lt
  running server' h := by
    by_cases heq : server' = server
    · simp [State.drop, heq] at h
    · exact hs.running server' (by simpa only [State.drop, Function.update_of_ne heq] using h)
  held server' t port h := by
    by_cases heq : server' = server
    · simp [State.drop, heq] at h
    · exact hs.held server' t port (by simpa only [State.drop, Function.update_of_ne heq] using h)
  session := hs.session
  bound := hs.bound
  vacant := hs.vacant
  free := hs.free

theorem mark (hs : Inv s) {server : Nat} (hnone : s.listening server = none) :
    Inv (s.mark server) where
  fresh := hs.fresh
  slot_lt := hs.slot_lt
  hand_lt := hs.hand_lt
  running server' h := by
    have hne : server' ≠ server := fun heq => h (heq ▸ hnone)
    simpa only [State.mark, Function.update_of_ne hne] using hs.running server' h
  held := hs.held
  session := hs.session
  bound := hs.bound
  vacant := hs.vacant
  free t h := by
    have hfree := hs.free t h
    unfold State.is_running at hfree ⊢
    cases hslot : (s.slots t).server with
    | none => simp [State.mark, hslot]
    | some server' =>
      simp only [hslot] at hfree
      simp only [State.mark, hslot, Function.update_apply]
      split
      · rfl
      · exact hfree

theorem leave (hs : Inv s) {t : Transport} {server : Nat} {phase : Phase}
    (hfrom : s.phase.hand = some (t, server)) (hnone : s.listening server = none)
    (hhand : phase.hand = none) (hbound : phase.bound = true → s.phase.bound = true)
    (hvacant : ∀ t' ∈ phase.vacant, t' ∈ s.phase.vacant) (hfree : phase.free = none) :
    Inv (s.go phase) where
  fresh := hs.fresh
  slot_lt := hs.slot_lt
  hand_lt t' server' h := by
    rw [State.go, hhand] at h
    cases h
  running := hs.running
  held server' t' port h := by
    rcases hs.held server' t' port h with hslot | ⟨heq, -⟩
    · exact Or.inl hslot
    · rw [hfrom, Option.some.injEq, Prod.mk.injEq] at heq
      rw [State.go, ← heq.2, hnone] at h
      cases h
  session := hs.session
  bound h := hs.bound (hbound h)
  vacant t' h := hs.vacant t' (hvacant t' h)
  free t' h := by
    simp [State.go, hfree] at h

theorem launch (hs : Inv s) {t : Transport} {requested : Int}
    (hphase : s.phase = .start t requested) (bound_port : Int) : Inv (s.launch t bound_port) where
  fresh server h := by
    have hne : server ≠ s.next := by
      unfold State.launch at h
      dsimp only at h
      omega
    simpa only [State.launch, Function.update_of_ne hne] using
      hs.fresh server (Nat.le_of_succ_le h)
  slot_lt t' server h := Nat.lt_succ_of_lt (hs.slot_lt t' server h)
  hand_lt t' server h := by
    cases h
    exact Nat.lt_succ_self _
  running server h := by
    by_cases heq : server = s.next
    · simp [State.launch, heq]
    · simp only [State.launch, Function.update_of_ne heq] at h ⊢
      exact hs.running server h
  held server t' port h := by
    by_cases heq : server = s.next
    · simp only [State.launch, heq, Function.update_self, Option.some.injEq, Prod.mk.injEq] at h
      obtain ⟨rfl, rfl⟩ := h
      refine Or.inr ⟨by rw [heq]; rfl, fun p hp => ?_⟩
      cases hp
      rfl
    · simp only [State.launch, Function.update_of_ne heq] at h
      rcases hs.held server t' port h with hslot | ⟨hhand, -⟩
      · exact Or.inl hslot
      · rw [hphase] at hhand
        cases hhand
  session := hs.session
  bound _ := hs.bound (by rw [hphase]; rfl)
  vacant _ h := by cases h
  free t' h := by
    cases h
    have hfree := hs.free t (by rw [hphase]; rfl)
    unfold State.is_running at hfree ⊢
    cases hslot : (s.slots t).server with
    | none => simp [State.launch, hslot]
    | some server =>
      have hne : server ≠ s.next := Nat.ne_of_lt (hs.slot_lt t server hslot)
      simp only [hslot] at hfree
      simpa only [State.launch, hslot, Function.update_of_ne hne] using hfree

theorem publish (hs : Inv s) {t : Transport} {server : Nat} {port : Int}
    (hphase : s.phase = .publish t server port) : Inv ((s.put t server port).go .idle) where
  fresh := hs.fresh
  slot_lt t' server' h := by
    by_cases ht : t' = t
    · simp only [State.put, State.go, ht, Function.update_self, Option.some.injEq] at h
      exact h ▸ hs.hand_lt t server (by rw [hphase]; rfl)
    · simp only [State.put, State.go, Function.update_of_ne ht] at h
      exact hs.slot_lt t' server' h
  hand_lt _ _ h := by cases h
  running := hs.running
  held server' t' port' h := by
    refine Or.inl ?_
    rcases hs.held server' t' port' h with hslot | ⟨hhand, hport⟩
    · have ht : t' ≠ t := by
        rintro rfl
        have hfree := hs.free t' (by rw [hphase]; rfl)
        have hlistens : s.listening server' = some (t', port') := h
        have hrunning := hs.running server' (by simp [hlistens])
        simp [State.is_running, hslot, hrunning] at hfree
      simpa only [State.put, State.go, Function.update_of_ne ht] using hslot
    · simp only [hphase, Phase.hand, Option.some.injEq, Prod.mk.injEq] at hhand
      have hpp := hport port (by rw [hphase]; rfl)
      simp [State.put, State.go, ← hhand.1, ← hhand.2, hpp]
  session _ _ _ := hs.bound (by rw [hphase]; rfl)
  bound h := by cases h
  vacant _ h := by cases h
  free _ h := by cases h

theorem handle_server_command (hs : Inv s) (hphase : s.phase = .idle) (t : Transport) (core : Core)
    (c : Subcommand) : Inv (handle_server_command s t core c) := by
  have hhand : s.phase.hand = none := by rw [hphase]; rfl
  have hidle : Inv (s.go .idle) :=
    hs.go hhand rfl (fun h => by cases h) (fun _ h => by cases h) (fun _ h => by cases h)
  cases c with
  | status => exact hidle.reply t _
  | stop =>
    unfold servers.handle_server_command
    cases hslot : (s.slots t).server with
    | some server =>
      refine hs.take hhand hslot rfl rfl (fun t' ht' => ?_) rfl
      exact Or.inl (List.mem_singleton.mp ht')
    | none => exact reply (s := s.take t) (hidle.clear hslot) t _
  | start port =>
    unfold servers.handle_server_command
    dsimp only
    split
    · exact hidle.reply t _
    · rename_i hrunning
      refine hs.go hhand rfl (fun h => by cases h) (fun _ h => by cases h) (fun t' h => ?_)
      cases h
      exact Bool.eq_false_iff.mpr hrunning

theorem plugin_call (hs : Inv s) (hphase : s.phase = .idle) (core : Core) (line : Bytes) :
    Inv (plugin_call s core line) := by
  unfold servers.plugin_call
  split
  · rename_i rest _
    unfold dispatch
    cases command_of rest with
    | help => exact hs
    | server t c => exact hs.handle_server_command hphase t core c
    | statement sql =>
      refine hs.go (by rw [hphase]; rfl) rfl ?_ ?_ ?_
      · exact fun h => by cases h
      · exact fun _ h => by cases h
      · exact fun _ h => by cases h
  · exact hs

theorem halt (hs : Inv s) {t : Transport} {server : Nat} {phase : Phase}
    (hfrom : s.phase.hand = some (t, server)) (hhand : phase.hand = none)
    (hbound : phase.bound = true → s.phase.bound = true)
    (hvacant : ∀ t' ∈ phase.vacant, t' ∈ s.phase.vacant) (hfree : phase.free = none) :
    Inv (((s.mark server).drop server).go phase) := by
  have hnone : (s.drop server).listening server = none := by simp [State.drop]
  have hhalt : Inv ((s.drop server).mark server) := (hs.drop server).mark hnone
  exact hhalt.leave hfrom hnone hhand hbound hvacant hfree

theorem command_step (hs : Inv s) {u : State} {bound_port : Int}
    (h : command_step s bound_port = some u) : Inv u := by
  have hidle {s : State} (hs : Inv s) (hhand : s.phase.hand = none) : Inv (s.go .idle) :=
    hs.go hhand rfl (fun h => by cases h) (fun _ h => by cases h) (fun _ h => by cases h)
  unfold servers.command_step at h
  cases hphase : s.phase with
  | idle => simp [hphase] at h
  | session_to_start core t port =>
    simp only [hphase, Option.some.injEq] at h
    subst h
    refine (hs.ensure_session core).go (by rw [State.ensure_session, hphase]; rfl) rfl ?_ ?_ ?_
    · exact fun _ => Option.some_ne_none _
    · exact fun _ h => by cases h
    · exact fun t' ht' => hs.free t' (by rw [hphase]; exact ht')
  | start t port =>
    simp only [hphase] at h
    split at h <;> cases h
    · exact (hidle hs (by rw [hphase]; rfl)).reply t _
    · exact hs.launch hphase bound_port
  | publish t server port =>
    simp only [hphase, Option.some.injEq] at h
    subst h
    exact (hs.publish hphase).reply t _
  | stop t server =>
    simp only [hphase, Option.some.injEq] at h
    subst h
    refine reply (s := (s.mark server).drop server) ?_ t _
    exact hs.halt (by rw [hphase]; rfl) rfl (fun h => by cases h) (fun _ h => by cases h) rfl
  | session_to_query core sql =>
    simp only [hphase, Option.some.injEq] at h
    subst h
    refine (hs.ensure_session core).go (by rw [State.ensure_session, hphase]; rfl) rfl ?_ ?_ ?_
    · exact fun _ => Option.some_ne_none _
    · exact fun _ h => by cases h
    · exact fun _ h => by cases h
  | query core sql =>
    simp only [hphase, Option.some.injEq] at h
    subst h
    have hs' := hidle hs (by rw [hphase]; rfl)
    exact ⟨hs'.fresh, hs'.slot_lt, hs'.hand_lt, hs'.running, hs'.held, hs'.session, hs'.bound,
      hs'.vacant, hs'.free⟩
  | fini_take t =>
    simp only [hphase] at h
    have hhand : s.phase.hand = none := by rw [hphase]; rfl
    -- The slot of HTTP is empty when that of MCP is next.
    have hhttp : t = .mcp → (s.slots .http).server = none := by
      rintro rfl
      exact hs.vacant .http (by rw [hphase]; exact List.mem_singleton.mpr rfl)
    cases hslot : (s.slots t).server with
    | some server =>
      simp only [hslot, Option.some.injEq] at h
      subst h
      refine hs.take hhand hslot rfl rfl (fun t' ht' => ?_) rfl
      cases t with
      | http => exact Or.inl (List.mem_singleton.mp ht')
      | mcp =>
        cases t' with
        | http => exact Or.inr (hhttp rfl)
        | mcp => exact Or.inl rfl
    | none =>
      simp only [hslot, Option.some.injEq] at h
      subst h
      refine clear (s := s.go (after_fini t)) ?_ hslot
      refine hs.go hhand (by cases t <;> rfl) (fun h => by cases t <;> cases h) ?_
        (fun _ h => by cases t <;> cases h)
      intro t' ht'
      cases t with
      | http => exact List.mem_singleton.mp ht' ▸ hslot
      | mcp =>
        cases t' with
        | http => exact hhttp rfl
        | mcp => exact hslot
  | fini_stop t server =>
    simp only [hphase, Option.some.injEq] at h
    subst h
    refine hs.halt (by rw [hphase]; rfl) (by cases t <;> rfl) (fun h => by cases t <;> cases h) ?_
      (by cases t <;> rfl)
    intro t' ht'
    rw [hphase]
    cases t <;> exact ht'
  | fini_session =>
    simp only [hphase, Option.some.injEq] at h
    subst h
    have hs' := hidle hs (by rw [hphase]; rfl)
    refine ⟨hs'.fresh, hs'.slot_lt, hs'.hand_lt, hs'.running, hs'.held, fun t server hslot => ?_,
      fun h => (by cases h), hs'.vacant, hs'.free⟩
    have hnone := hs.vacant t (by rw [hphase]; cases t <;> simp [Phase.vacant])
    rw [show (s.slots t).server = some server from hslot] at hnone
    cases hnone

theorem step (hs : Inv s) {a : Action} {u : State} (h : step s a = some u) : Inv u := by
  cases a with
  | plugin_call core line =>
    simp only [servers.step] at h
    split at h <;> cases h
    rename_i hphase
    exact hs.plugin_call hphase core line
  | plugin_fini =>
    simp only [servers.step] at h
    split at h <;> cases h
    rename_i hphase
    refine hs.go (by rw [hphase]; rfl) rfl ?_ ?_ ?_
    · exact fun h => by cases h
    · exact fun _ h => by cases h
    · exact fun _ h => by cases h
  | next bound_port => exact hs.command_step h
  | fail server =>
    cases h
    exact hs.drop server
  | notice server =>
    simp only [servers.step] at h
    split at h <;> cases h
    rename_i hnone
    exact hs.mark hnone.2
  | arrive r | serve r =>
    simp only [servers.step] at h
    split at h <;> cases h
    exact ⟨hs.fresh, hs.slot_lt, hs.hand_lt, hs.running, hs.held, hs.session, hs.bound, hs.vacant,
      hs.free⟩

end Inv

/-! ## No server is in two places -/

structure Apart (s : State) : Prop where
  slots : ∀ t t' server, (s.slots t).server = some server → (s.slots t').server = some server →
    t = t'
  hand : ∀ t server t', s.phase.hand = some (t, server) → (s.slots t').server ≠ some server
  bind : ∀ t server, (s.slots t).server = some server → (s.slots t).bind = localhost

namespace Apart

variable {s u : State}

theorem of_slots (hs : Apart s) (hslots : u.slots = s.slots) (hhand : u.phase.hand = none) :
    Apart u := by
  refine ⟨fun t t' server => ?_, fun t server t' h => ?_, fun t server => ?_⟩
  · rw [hslots]
    exact hs.slots t t' server
  · rw [hhand] at h
    cases h
  · rw [hslots]
    exact hs.bind t server

theorem take (hs : Apart s) (t : Transport) {phase : Phase}
    (hhand : ∀ t' server, phase.hand = some (t', server) → (s.slots t).server = some server) :
    Apart ((s.take t).go phase) := by
  have hslot : ∀ {t' server}, (((s.take t).go phase).slots t').server = some server →
      t' ≠ t ∧ (s.slots t').server = some server := by
    intro t' server h
    by_cases ht : t' = t
    · simp [State.take, State.go, ht, Slot.cleared] at h
    · exact ⟨ht, by simpa only [State.take, State.go, Function.update_of_ne ht] using h⟩
  refine ⟨fun t' t'' server h h' => ?_, fun t' server t'' h h' => ?_, fun t' server h => ?_⟩
  · exact hs.slots t' t'' server (hslot h).2 (hslot h').2
  · obtain ⟨hne, hthere⟩ := hslot h'
    exact hne (hs.slots t'' t server hthere (hhand t' server h))
  · obtain ⟨hne, hthere⟩ := hslot h
    simpa only [State.take, State.go, Function.update_of_ne hne] using hs.bind t' server hthere

theorem launch (hs : Apart s) (hinv : Inv s) (t : Transport) (bound_port : Int) :
    Apart (s.launch t bound_port) := by
  refine ⟨hs.slots, fun t' server t'' h h' => ?_, hs.bind⟩
  cases h
  exact absurd (hinv.slot_lt t'' s.next h') (lt_irrefl _)

theorem put (hs : Apart s) {t : Transport} {server : Nat} {port : Int}
    (hphase : s.phase = .publish t server port) (r : Reply) :
    Apart ((s.put t server port).reply t r) := by
  have hnew : ∀ t', (s.slots t').server ≠ some server :=
    fun t' => hs.hand t server t' (by rw [hphase]; rfl)
  have hslot : ∀ {t' server'}, (((s.put t server port).reply t r).slots t').server = some server' →
      t' = t ∧ server' = server ∨ t' ≠ t ∧ (s.slots t').server = some server' := by
    intro t' server' h
    by_cases ht : t' = t
    · simp only [State.put, State.reply, ht, Function.update_self, Option.some.injEq] at h
      exact Or.inl ⟨ht, h.symm⟩
    · exact Or.inr ⟨ht, by simpa only [State.put, State.reply, Function.update_of_ne ht] using h⟩
  refine ⟨fun t' t'' server' h h' => ?_, fun _ _ _ h => (by cases h), fun t' server' h => ?_⟩
  · rcases hslot h with ⟨rfl, rfl⟩ | ⟨-, hold⟩
    · rcases hslot h' with ⟨rfl, -⟩ | ⟨-, hold'⟩
      · rfl
      · exact absurd hold' (hnew t'')
    · rcases hslot h' with ⟨-, rfl⟩ | ⟨-, hold'⟩
      · exact absurd hold (hnew t')
      · exact hs.slots t' t'' server' hold hold'
  · rcases hslot h with ⟨rfl, -⟩ | ⟨hne, hold⟩
    · simp [State.put, State.reply]
    · simpa only [State.put, State.reply, Function.update_of_ne hne] using hs.bind t' server' hold

theorem plugin_call (hs : Apart s) (core : Core) (line : Bytes) :
    Apart (plugin_call s core line) := by
  unfold servers.plugin_call
  split
  · rename_i rest _
    unfold dispatch
    cases command_of rest with
    | help => exact hs
    | statement sql => exact hs.of_slots rfl rfl
    | server t c =>
      cases c with
      | status => exact hs.of_slots rfl rfl
      | stop =>
        simp only [handle_server_command]
        cases hslot : (s.slots t).server with
        | some server =>
          refine hs.take t fun t' server' h => ?_
          cases h
          exact hslot
        | none =>
          have hcleared : Apart ((s.take t).go .idle) := hs.take t fun _ _ h => by cases h
          exact hcleared.of_slots rfl rfl
      | start port =>
        simp only [handle_server_command]
        split <;> exact hs.of_slots rfl rfl
  · exact hs

theorem step (hs : Apart s) (hinv : Inv s) {a : Action} (h : step s a = some u) : Apart u := by
  cases a with
  | plugin_call core line =>
    simp only [servers.step] at h
    split at h <;> cases h
    exact hs.plugin_call core line
  | plugin_fini =>
    simp only [servers.step] at h
    split at h <;> cases h
    exact hs.of_slots rfl rfl
  | next bound_port =>
    simp only [servers.step, command_step] at h
    cases hphase : s.phase with
    | idle => simp [hphase] at h
    | start t port =>
      simp only [hphase] at h
      split at h <;> cases h
      · exact hs.of_slots rfl rfl
      · exact hs.launch hinv t bound_port
    | publish t server port =>
      simp only [hphase, Option.some.injEq] at h
      subst h
      exact hs.put hphase _
    | fini_take t =>
      simp only [hphase] at h
      cases hslot : (s.slots t).server with
      | some server =>
        simp only [hslot, Option.some.injEq] at h
        subst h
        refine hs.take t fun t' server' h => ?_
        cases h
        exact hslot
      | none =>
        simp only [hslot, Option.some.injEq] at h
        subst h
        exact hs.take t fun t' server' h => by cases t <;> cases h
    | fini_stop t server =>
      simp only [hphase, Option.some.injEq] at h
      subst h
      exact hs.of_slots rfl (by cases t <;> rfl)
    | session_to_start | stop | session_to_query | query | fini_session =>
      simp only [hphase, Option.some.injEq] at h
      subst h
      exact hs.of_slots rfl rfl
  | fail server =>
    cases h
    exact ⟨hs.slots, hs.hand, hs.bind⟩
  | notice | arrive | serve =>
    simp only [servers.step] at h
    split at h <;> cases h
    exact ⟨hs.slots, hs.hand, hs.bind⟩

end Apart

theorem inv_of_run {as : List Action} {s : State} (hrun : run step unloaded as = some s) :
    Inv s ∧ Apart s := by
  refine run_invariant (I := fun s => Inv s ∧ Apart s)
    (fun s a u hs h => ⟨hs.1.step h, hs.2.step hs.1 h⟩) ⟨inv_unloaded, ?_⟩ hrun
  exact ⟨fun _ _ _ h => (by cases h), fun _ _ _ h => (by cases h), fun _ _ h => (by cases h)⟩

end r2sql.servers
