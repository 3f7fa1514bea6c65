-- The command queue of the MCP server. Every section under a mutex and every
-- access to an atomic is one step of one thread: the calls of queue_and_wait,
-- the loop of run_until_stopped, and the calls of stop.
import R2sql.Lib.Bytes

namespace r2sql.mcp

/-- A call of `queue_and_wait`, and the command that it makes. -/
abbrev CallId := Nat

def kMcpDefaultMaxQueue : Nat := 64

def starts_with_text (value text : Bytes) : Bool := text.isPrefixOf value

/-! ## Commands and results -/

/-- `McpPendingCommand::Type`. -/
inductive CommandType where
  | Query
  deriving DecidableEq

/-- A command. `done_mutex` is true while a call of `queue_and_wait` holds the mutex from one step
to the next. The other threads take it and give it back within a step. -/
structure McpPendingCommand where
  type : CommandType
  input : Bytes
  result : Bytes
  started : Bool
  canceled : Bool
  completed : Bool
  done_mutex : Bool
  deriving DecidableEq

/-- A fresh command. -/
def McpPendingCommand.make (type : CommandType) (input : Bytes) : McpPendingCommand where
  type := type
  input := input
  result := []
  started := false
  canceled := false
  completed := false
  done_mutex := false

structure McpQueueResult where
  success : Bool
  payload : Bytes
  deriving DecidableEq

/-- The returns of `queue_and_wait`, from the top of its text to the bottom. -/
inductive Branch where
  | not_running
  | full
  | timed_out
  | stopped
  | unfinished
  | completed
  deriving DecidableEq

def failure (text : String) : McpQueueResult := { success := false, payload := Bytes.lit text }

/-- The last return: a callback that fails gives a text that starts with `Error: `. -/
def answer (cmd : McpPendingCommand) : McpQueueResult :=
  { success := !starts_with_text cmd.result (Bytes.lit "Error: "), payload := cmd.result }

/-! ## Where the threads are -/

/-- Where a call of `queue_and_wait` is. It holds `done_mutex` in `looping`, `wait_done` and
`wait_start`, where its next step loads `running_`. -/
inductive Client where
  | absent
  | called (type : CommandType) (input : Bytes)
  | made
  | pushed
  | looping
  | wait_done (timed_out : Bool)
  | wait_start (timed_out : Bool)
  | blocked_done
  | blocked_start
  | erasing
  | left
  | unfinished
  | returned (branch : Branch) (result : McpQueueResult)
  deriving DecidableEq

/-- Where the loop of `run_until_stopped` is. -/
inductive Drainer where
  | checking
  | interruptible
  | stopping
  | popping
  | admitting (cmd : CallId)
  | starting (cmd : CallId)
  | executing (cmd : CallId)
  | finishing (cmd : CallId) (result : Bytes)
  | finished
  deriving DecidableEq

/-- Where a call of `stop` is. `completing` has the commands that `complete_pending_commands`
swapped out of the queue and has not completed. -/
inductive Stop where
  | absent
  | storing
  | swapping
  | completing (pending : List CallId)
  | returned
  deriving DecidableEq

/-- Who calls `stop`: the loop of `run_until_stopped`, or any other thread. -/
inductive Stopper where
  | drainer
  | caller (i : Nat)
  deriving DecidableEq

/-- How the callback ends: with a text, with a `std::exception`, or with another exception. -/
inductive Ending where
  | returned (text : Bytes)
  | threw (what : Bytes)
  | escaped
  deriving DecidableEq

/-- The members of `McpServer`, the commands, the threads, and a log of what happened: the calls
with their inputs, the commands pushed, the callbacks begun with their inputs, and the results. -/
structure Server where
  running_ : Bool
  query_cb_ : Bool
  pending_commands_ : List CallId
  cmds : CallId → McpPendingCommand
  clients : CallId → Client
  drainer : Drainer
  stops : Stopper → Stop
  calls : List (CallId × Bytes)
  pushed : List CallId
  begun : List (CallId × Bytes)
  produced : List (CallId × Bytes)

namespace Server

/-- The server after `start`, with or without a callback. -/
def start (query_cb_ : Bool) : Server where
  running_ := true
  query_cb_ := query_cb_
  pending_commands_ := []
  cmds _ := .make .Query []
  clients _ := .absent
  drainer := .checking
  stops _ := .absent
  calls := []
  pushed := []
  begun := []
  produced := []

def move (s : Server) (c : CallId) (pc : Client) : Server :=
  { s with clients := Function.update s.clients c pc }

def set_cmd (s : Server) (c : CallId) (cmd : McpPendingCommand) : Server :=
  { s with cmds := Function.update s.cmds c cmd }

def move_stop (s : Server) (who : Stopper) (pc : Stop) : Server :=
  { s with stops := Function.update s.stops who pc }

/-- `cmd->done_mutex` is locked or unlocked. -/
def set_mutex (s : Server) (c : CallId) (held : Bool) : Server :=
  s.set_cmd c { s.cmds c with done_mutex := held }

section
variable (s : Server) (c c' : CallId) (who who' : Stopper)

theorem clients_move (pc : Client) :
    (s.move c pc).clients c' = if c' = c then pc else s.clients c' := Function.update_apply ..

theorem cmds_set_cmd (cmd : McpPendingCommand) :
    (s.set_cmd c cmd).cmds c' = if c' = c then cmd else s.cmds c' := Function.update_apply ..

theorem stops_move_stop (pc : Stop) :
    (s.move_stop who pc).stops who' = if who' = who then pc else s.stops who' :=
  Function.update_apply ..

end

/-! ## The steps of the threads -/

/-- The next step of a call of `queue_and_wait`. -/
def queue_and_wait (s : Server) (c : CallId) : Option Server :=
  let cmd := s.cmds c
  match s.clients c with
  | .called type input =>
    if s.running_ then some ((s.set_cmd c (.make type input)).move c .made)
    else some (s.move c (.returned .not_running (failure "Error: MCP server is not running")))
  | .made =>
    if kMcpDefaultMaxQueue > 0 ∧ s.pending_commands_.length ≥ kMcpDefaultMaxQueue then
      some (s.move c (.returned .full (failure "Error: MCP queue is full")))
    else
      some ({ s with
        pending_commands_ := s.pending_commands_ ++ [c], pushed := s.pushed ++ [c] }.move c .pushed)
  | .pushed => if cmd.done_mutex then none else some ((s.set_mutex c true).move c .looping)
  | .looping =>
    if !cmd.completed && s.running_ then
      -- `started` changes under the mutex alone, so its test is part of this step.
      some (s.move c (if cmd.started then .wait_done false else .wait_start false))
    else some ((s.set_mutex c false).move c .left)
  | .wait_done timed_out =>
    if cmd.completed || !s.running_ || timed_out then some (s.move c .looping)
    else some ((s.set_mutex c false).move c .blocked_done)
  | .wait_start timed_out =>
    if cmd.completed || cmd.started || !s.running_ then some (s.move c .looping)
    else if timed_out then
      let canceled := if !cmd.completed && !cmd.started then true else cmd.canceled
      some ((s.set_cmd c { cmd with canceled := canceled, done_mutex := false }).move c .erasing)
    else some ((s.set_mutex c false).move c .blocked_start)
  | .erasing =>
    some ({ s with pending_commands_ := s.pending_commands_.erase c }.move c
      (.returned .timed_out (failure "Error: MCP request timed out in queue")))
  | .left =>
    -- The flag is read without the mutex here.
    if cmd.completed then some (s.move c (.returned .completed (answer cmd)))
    else some (s.move c .unfinished)
  | .unfinished =>
    if !s.running_ then some (s.move c (.returned .stopped (failure "Error: MCP server stopped")))
    else some (s.move c (.returned .unfinished (failure "Error: MCP request timed out in queue")))
  | _ => none

/-- A call wakes up in a wait on `done_cv` and has the mutex back: somebody notified it, the time
ran out, or for no reason. -/
def wake (s : Server) (c : CallId) (timed_out : Bool) : Option Server :=
  if (s.cmds c).done_mutex then none
  else
    match s.clients c with
    | .blocked_done => some ((s.set_mutex c true).move c (.wait_done timed_out))
    | .blocked_start => some ((s.set_mutex c true).move c (.wait_start timed_out))
    | _ => none

/-- The next step of `run_until_stopped`, where nothing outside it decides. -/
def run_until_stopped (s : Server) : Option Server :=
  match s.drainer with
  | .checking => some { s with drainer := if s.running_ then .interruptible else .finished }
  | .stopping => if s.stops .drainer = .returned then some { s with drainer := .finished } else none
  | .popping =>
    match s.pending_commands_ with
    | [] => none
    | c :: rest => some { s with pending_commands_ := rest, drainer := .admitting c }
  | .admitting c =>
    let cmd := s.cmds c
    if cmd.done_mutex then none
    else if !cmd.completed && !cmd.canceled then
      some { s.set_cmd c { cmd with started := true } with drainer := .starting c }
    else if !cmd.completed && cmd.canceled then
      some { s.set_cmd c { cmd with completed := true } with drainer := .checking }
    else some { s with drainer := .checking }
  | .starting c =>
    let cmd := s.cmds c
    if cmd.type = .Query ∧ s.query_cb_ then
      some { s with drainer := .executing c, begun := s.begun ++ [(c, cmd.input)] }
    else
      let result := Bytes.lit "Error: No handler for command type"
      some { s with drainer := .finishing c result, produced := s.produced ++ [(c, result)] }
  | .finishing c result =>
    let cmd := s.cmds c
    if cmd.done_mutex then none
    else if !cmd.completed then
      some { s.set_cmd c { cmd with result := result, completed := true } with
        drainer := .checking }
    else some { s with drainer := .checking }
  | _ => none

/-- `interrupt_check_` answers, where there is one. -/
def interrupt (s : Server) (asked : Bool) : Option Server :=
  match s.drainer with
  | .interruptible =>
    if asked then some { s.move_stop .drainer .storing with drainer := .stopping }
    else some { s with drainer := .popping }
  | _ => none

/-- The wait on `queue_cv_` ends with the queue empty: the time ran out, or the server stopped. -/
def give_up (s : Server) : Option Server :=
  if s.drainer = .popping ∧ s.pending_commands_ = [] then some { s with drainer := .checking }
  else none

/-- The callback ends. An exception that is no `std::exception` leaves the loop. -/
def callback (s : Server) (ending : Ending) : Option Server :=
  match s.drainer, ending with
  | .executing c, .returned text =>
    some { s with drainer := .finishing c text, produced := s.produced ++ [(c, text)] }
  | .executing c, .threw what =>
    let result := Bytes.lit "Error: " ++ what
    some { s with drainer := .finishing c result, produced := s.produced ++ [(c, result)] }
  | .executing _, .escaped => some { s with drainer := .finished }
  | _, _ => none

/-- The next step of a call of `stop`. -/
def stop (s : Server) (who : Stopper) : Option Server :=
  match s.stops who with
  | .storing => some { s.move_stop who .swapping with running_ := false }
  | .swapping =>
    some { s.move_stop who (.completing s.pending_commands_) with pending_commands_ := [] }
  | .completing [] => some (s.move_stop who .returned)
  | .completing (c :: rest) =>
    let cmd := s.cmds c
    if cmd.done_mutex then none
    else if !cmd.completed then
      some ((s.set_cmd c
        { cmd with result := Bytes.lit "Error: MCP server stopped", completed := true }).move_stop
          who (.completing rest))
    else some (s.move_stop who (.completing rest))
  | _ => none

end Server

/-! ## The whole -/

/-- What can happen next: somebody calls `queue_and_wait` or `stop`, or a thread takes a step. -/
inductive Action where
  | call (c : CallId) (type : CommandType) (input : Bytes)
  | client (c : CallId)
  | wake (c : CallId) (timed_out : Bool)
  | drain
  | interrupt (asked : Bool)
  | give_up
  | callback (ending : Ending)
  | call_stop (i : Nat)
  | stop (who : Stopper)
  deriving DecidableEq

/-- One step of the server, where the thread is there to take it. -/
def step (s : Server) : Action → Option Server
  | .call c type input =>
    if s.clients c = .absent then
      some ({ s with calls := s.calls ++ [(c, input)] }.move c (.called type input))
    else none
  | .client c => s.queue_and_wait c
  | .wake c timed_out => s.wake c timed_out
  | .drain => s.run_until_stopped
  | .interrupt asked => s.interrupt asked
  | .give_up => s.give_up
  | .callback ending => s.callback ending
  | .call_stop i =>
    if s.stops (.caller i) = .absent then some (s.move_stop (.caller i) .storing) else none
  | .stop who => s.stop who

end r2sql.mcp
