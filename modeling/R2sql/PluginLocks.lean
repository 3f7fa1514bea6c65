-- The plugin inside radare2, by the locks that its handlers take around each
-- other. Radare2 offers every line of a command to the plugin, on the thread that
-- sent the command.
import R2sql.Lib.Locking
import R2sql.Lib.Runs
import R2sql.R2Launch
import R2sql.TableCommands
import R2sql.Transports

namespace r2sql.plugin

open locking runs

/-- `g_state.mu`, `Session::query_mu_` and `LibrBackend::m_`. Those of all sessions count as one,
since a thread takes them with `mu` alone. -/
inductive Mutex where
  | mu
  | query_mu
  | m
  deriving DecidableEq

/-- An `RCore*`. -/
abbrev Core := Option Nat

/-- `g_state`: the core that the session is bound to, if there is a session, and the servers that
are there. -/
structure PluginState where
  session : Option Core
  http : Bool
  mcp : Bool

/-- What comes from outside the plugin: the replies of radare2 to commands, the calls that SQLite
makes to run a statement, and whether a server is up. -/
structure World where
  reply : Bytes → Bytes
  calls : Bytes → List TableCall
  up : Bool

/-- The programs around the plugin, neither of which is here: the command lines that
`r_core_cmd_str` runs for a string, in their order, the answers that radare2 can give to `tk*`, and
the calls that SQLite can make to run a statement. -/
class Host where
  lines : Bytes → List Bytes
  lists : Bytes → Prop
  makes : Bytes → List TableCall → Prop

/-- The code of the plugin. The commands go to radare2 with their core. -/
abbrev Plugin := Locking Mutex PluginState (Core × Bytes) World

section
variable [Nlohmann] [NlohmannErrors] [CppLibrary]

/-! ## The session and its backend -/

/-- `LibrBackend::cmd`. -/
def libr_cmd (core : Core) (command : Bytes) : Plugin Bytes :=
  if core = none then return []
  else holding .m do
    let w ← run_command (core, c_str command)
    return w.reply (c_str command)

/-- `Session::query`. -/
def query (core : Core) (sql : Bytes) : Plugin Unit :=
  holding .query_mu do
    let w ← world
    (w.calls sql).forM fun call => serve (libr_cmd core) call.code

/-- `Session::raw_cmd`. -/
def raw_cmd (core : Core) (command : Bytes) : Plugin Bytes :=
  holding .query_mu (libr_cmd core command)

/-- `ensure_session`. The constructor of the session looks for a decompiler. -/
def ensure_session (core : Core) : Plugin Unit :=
  holding .mu do
    let s ← load
    if s.session = some core then return ()
    else do
      let _ ← serve (libr_cmd core) detect_decompiler
      store { s with session := some core }

/-! ## The handlers -/

/-- `plugin_raw_or_sql`, the handler of the HTTP server. -/
def plugin_raw_or_sql (body : Bytes) : Plugin Unit :=
  holding .mu do
    let s ← load
    match s.session with
    | none => return ()
    | some core =>
      match raw_request body with
      | some command => discard (raw_cmd core command)
      | none => query core body

/-- The callback of the MCP server. -/
def mcp_callback (sql : Bytes) : Plugin Unit :=
  holding .mu do
    let s ← load
    match s.session with
    | none => return ()
    | some core => query core sql

/-- `sql.http` and `sql.mcp`: `there` tells whether the plugin has the server, and `set` puts it
there or takes it away. -/
def handle_server_command (there : PluginState → Bool) (set : PluginState → Bool → PluginState)
    (core : Core) (tail : Bytes) : Plugin Unit := do
  let is_running : Plugin Bool := holding .mu do
    let s ← load
    let w ← world
    return there s && w.up
  let tail := tail.dropWhile (· ∈ Bytes.lit " \t")
  if tail.head? = some '?'.toUInt8 then discard is_running
  else if tail.head? = some '-'.toUInt8 then
    holding .mu do
      let s ← load
      store (set s false)
  else do
    let running ← is_running
    if running then return ()
    else do
      ensure_session core
      let w ← world
      if w.up then
        holding .mu do
          let s ← load
          store (set s true)
      else return ()

def handle_http_command : Core → Bytes → Plugin Unit :=
  handle_server_command PluginState.http fun s there => { s with http := there }

def handle_mcp_command : Core → Bytes → Plugin Unit :=
  handle_server_command PluginState.mcp fun s there => { s with mcp := there }

def skip_blanks (input : Bytes) : Bytes := input.dropWhile (· ∈ Bytes.lit " \t")

/-- What `dispatch` runs. There is nothing to run where it prints the help. -/
def statement (input : Bytes) : Option Bytes :=
  let input := skip_blanks input
  if input ∈ ["", "?", ".?", "."].map Bytes.lit then none
  else
    let input := skip_blanks (if input.head? = some '.'.toUInt8 then input.tail else input)
    if input = [] then none else some input

/-- The tail of a server subcommand. -/
def server_tail (name : String) (input : Bytes) : Option Bytes :=
  if (Bytes.lit name).isPrefixOf input then
    let rest := input.drop (Bytes.lit name).length
    if ∀ c ∈ rest.head?, c ∈ Bytes.lit " \t-?" then some rest else none
  else none

def dispatch (core : Core) (input : Bytes) : Plugin Unit :=
  match statement input with
  | none => return ()
  | some input =>
    match server_tail "http" input, server_tail "mcp" input with
    | some tail, _ => handle_http_command core tail
    | none, some tail => handle_mcp_command core tail
    | none, none => do
      ensure_session core
      holding .mu do
        let s ← load
        match s.session with
        | some bound => query bound input
        -- `plugin_fini` came between, and the source goes through a null pointer
        | none => return ()

/-- The rest of a command line that the plugin claims. -/
def claimed (input : Bytes) : Option Bytes :=
  if (Bytes.lit "sql").isPrefixOf input then
    let rest := input.drop (Bytes.lit "sql").length
    if ∀ c ∈ rest.head?, c ∈ Bytes.lit " ?." then some rest else none
  else none

def plugin_call (core : Core) (input : Bytes) : Plugin Unit :=
  match claimed input with
  | some rest => dispatch core rest
  | none => return ()

def plugin_fini : Plugin Unit := do
  holding .mu do
    let s ← load
    store { s with http := false }
  holding .mu do
    let s ← load
    store { s with mcp := false }
  holding .mu do
    let s ← load
    store { s with session := none }

/-- The ways into the plugin: the calls of radare2, and the requests to the servers. -/
inductive Handler where
  | plugin_call (core : Core) (input : Bytes)
  | dispatch (core : Core) (input : Bytes)
  | http_request (body : Bytes)
  | mcp_request (sql : Bytes)
  | plugin_fini

def Handler.code : Handler → Plugin Unit
  | plugin_call core input => plugin.plugin_call core input
  | dispatch core input => plugin.dispatch core input
  | http_request body => plugin_raw_or_sql body
  | mcp_request sql => mcp_callback sql
  | plugin_fini => plugin.plugin_fini

/-! ## Runs -/

abbrev State := Machine Mutex PluginState (Core × Bytes) World

inductive Action where
  | start (t : Nat) (h : Handler)
  | step (t : Nat) (w : World)

/-- Nobody has a lock, there is no session, and no handler runs. -/
def idle : State where
  owner _ := none
  shared := { session := none, http := false, mcp := false }
  threads _ := .done ()

/-- What radare2 runs for a command: it offers each line to the plugin. -/
abbrev invoke [Host] (c : Core × Bytes) : Plugin Unit := (Host.lines c.2).forM (plugin_call c.1)

/-- A thread that is done starts a handler, or a thread does its next operation. -/
def step [Host] (s : State) : Action → Option State
  | .start t h =>
    match s.threads t with
    | .done _ => some (s.go t h.code)
    | .ask .. => none
  | .step t w => Machine.step invoke s t w

end

end r2sql.plugin
