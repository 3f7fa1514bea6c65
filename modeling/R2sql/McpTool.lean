-- The tool of the MCP server, with its queue and without: what a client of the
-- protocol gets for its query is what the callback gives it, or an error of the
-- queue, and the mark of an error is on the errors alone.
import R2sql.CheckedJson
import R2sql.McpSessions
import R2sql.Transports

namespace r2sql.mcp

open runs

/-! ## The handler -/

def error_start : Bytes := Bytes.lit "Error: "

/-- `{{"content", [{{"type", "text"}, {"text", text}}]}, {"isError", isError}}`. -/
def tool_answer (text : Bytes) (isError : Bool) : Json :=
  .object [(Bytes.lit "content", .array [.object [(Bytes.lit "text", .string text),
    (Bytes.lit "type", .string (Bytes.lit "text"))]]), (Bytes.lit "isError", .boolean isError)]

/-- The handler of `r2sql_query`. What `queue_and_wait` and the callback do is given. -/
def r2sql_query [NlohmannErrors] (use_queue_ : Bool) (queue_and_wait : Bytes → McpQueueResult)
    (query_cb_ : Option (Bytes → Ending)) (args : Json) : Except Thrown Json := do
  let query ← args.value_string (Bytes.lit "query") []
  if query = [] then return tool_answer (Bytes.lit "Error: missing query") true
  else if use_queue_ then
    let qr := queue_and_wait query
    return tool_answer qr.payload (!qr.success)
  else
    match query_cb_ with
    | none => return tool_answer (Bytes.lit "Error: query callback not set") true
    | some query_cb_ =>
      match query_cb_ query with
      | .returned result => return tool_answer result (starts_with_text result error_start)
      | .threw what => throw (.exception what)
      | .escaped => throw .unknown

/-! ## The flag of a result -/

/-- A result fails exactly where its text says so. -/
def Marked (r : McpQueueResult) : Prop := r.success = !starts_with_text r.payload error_start

instance (r : McpQueueResult) : Decidable (Marked r) :=
  inferInstanceAs (Decidable (r.success = !starts_with_text r.payload error_start))

theorem marked_of_queue_and_wait {s t : Server} {c : CallId} (h : s.queue_and_wait c = some t)
    {b : Branch} {r : McpQueueResult} (hc : t.clients c = .returned b r) : Marked r := by
  have hmoved : ∀ {u : Server} {pc : Client}, (u.move c pc).clients c = .returned b r →
      pc = .returned b r := by
    intro u pc hpc
    rwa [Server.clients_move, if_pos rfl] at hpc
  unfold Server.queue_and_wait at h
  cases hpc : s.clients c with
  | absent | blocked_done | blocked_start | returned => simp [hpc] at h
  | called type input =>
    simp only [hpc] at h
    split at h <;> cases h
    · cases hmoved hc
    · cases hmoved hc
      decide
  | made =>
    simp only [hpc] at h
    split at h <;> cases h
    · cases hmoved hc
      decide
    · cases hmoved hc
  | pushed =>
    simp only [hpc] at h
    split at h <;> cases h
    cases hmoved hc
  | looping =>
    simp only [hpc] at h
    split at h <;> cases h
    · have hwait := hmoved hc
      split at hwait <;> cases hwait
    · cases hmoved hc
  | wait_done timed_out =>
    simp only [hpc] at h
    split at h <;> cases h
    · cases hmoved hc
    · cases hmoved hc
  | wait_start timed_out =>
    simp only [hpc] at h
    split at h
    · cases h
      cases hmoved hc
    · split at h <;> cases h
      · cases hmoved hc
      · cases hmoved hc
  | erasing =>
    simp only [hpc, Option.some.injEq] at h
    subst h
    cases hmoved hc
    decide
  | left =>
    simp only [hpc] at h
    split at h <;> cases h
    · cases hmoved hc
      rfl
    · cases hmoved hc
  | unfinished =>
    simp only [hpc] at h
    split at h <;> cases h
    · cases hmoved hc
      decide
    · cases hmoved hc
      decide

/-- What the steps keep about the results: each is marked, and each call is made once. -/
structure Answered (s : Server) : Prop where
  marked : ∀ c b r, s.clients c = .returned b r → Marked r
  calls : ∀ c, c ∈ s.calls.map Prod.fst ↔ s.clients c ≠ .absent
  once : (s.calls.map Prod.fst).Nodup

theorem marked_step {s t : Server} {a : Action}
    (hs : ∀ c b r, s.clients c = .returned b r → Marked r) (h : step s a = some t) :
    ∀ c b r, t.clients c = .returned b r → Marked r := by
  intro c b r hc
  cases ha : a.of_call c with
  | false => exact hs c b r ((clients_of_others h ha).symm.trans hc)
  | true =>
    cases a with
    | client c' =>
      obtain rfl : c' = c := of_decide_eq_true ha
      exact marked_of_queue_and_wait h hc
    | call c' type input =>
      obtain rfl : c' = c := of_decide_eq_true ha
      simp only [step] at h
      split at h <;> cases h
      rw [Server.clients_move, if_pos rfl] at hc
      cases hc
    | wake c' timed_out =>
      obtain rfl : c' = c := of_decide_eq_true ha
      simp only [step, Server.wake] at h
      split at h
      · cases h
      · split at h <;> cases h
        all_goals
          rw [Server.clients_move, if_pos rfl] at hc
          cases hc
    | _ => cases ha

theorem calls_step {s t : Server} {a : Action}
    (hs : ∀ c, c ∈ s.calls.map Prod.fst ↔ s.clients c ≠ .absent)
    (honce : (s.calls.map Prod.fst).Nodup) (h : step s a = some t) :
    (∀ c, c ∈ t.calls.map Prod.fst ↔ t.clients c ≠ .absent) ∧ (t.calls.map Prod.fst).Nodup := by
  have hmoved : ∀ c₀ pc, s.clients c₀ ≠ .absent → pc ≠ .absent → t.calls = s.calls →
      t.clients = (s.move c₀ pc).clients →
      (∀ c, c ∈ t.calls.map Prod.fst ↔ t.clients c ≠ .absent) ∧ (t.calls.map Prod.fst).Nodup := by
    intro c₀ pc hpc hpc' hcalls hclients
    rw [hcalls, hclients]
    refine ⟨fun c => ?_, honce⟩
    rw [hs, Server.clients_move]
    split
    · rename_i heq
      rw [heq]
      exact iff_of_true hpc hpc'
    · rfl
  cases effect_of_step h with
  | @call c₀ type input hpc =>
    refine ⟨fun c => ?_, ?_⟩
    · rw [Server.clients_move]
      show c ∈ (s.calls ++ [(c₀, input)]).map Prod.fst ↔ _
      rw [List.map_append, List.mem_append, hs]
      by_cases heq : c = c₀ <;> simp [heq]
    · show ((s.calls ++ [(c₀, input)]).map Prod.fst).Nodup
      have hfresh : c₀ ∉ s.calls.map Prod.fst := fun hmem => (hs c₀).mp hmem hpc
      rw [List.map_append, List.nodup_append]
      refine ⟨honce, by simp, fun c hc d hd => ?_⟩
      rw [List.mem_singleton.mp hd]
      rintro rfl
      exact hfresh hc
  | refuse hpc | make hpc | full hpc | push hpc | erase hpc | answer hpc | abandon hpc =>
    exact hmoved _ _ (by rw [hpc]; simp) (by simp) rfl rfl
  | wait held hpc hpc' =>
    refine hmoved _ _ ?_ ?_ rfl rfl
    · intro habsent
      rw [habsent] at hpc
      cases hpc
    · rintro rfl
      cases hpc'
  | cancel hpc =>
    refine hmoved _ _ ?_ (by simp) rfl rfl
    intro habsent
    rw [habsent] at hpc
    cases hpc
  | _ => exact ⟨hs, honce⟩

theorem answered_of_run {query_cb_ : Bool} {as : List Action} {s : Server}
    (hrun : run step (.start query_cb_) as = some s) : Answered s := by
  refine run_invariant (fun u a v hu h => ?_) ⟨?_, fun c => ?_, ?_⟩ hrun
  · obtain ⟨hcalls, honce⟩ := calls_step hu.calls hu.once h
    exact ⟨marked_step hu.marked h, hcalls, honce⟩
  · intro c b r hc
    cases hc
  · simp [Server.start]
  · exact List.nodup_nil

/-! ## The two ways of the handler -/

/-- The errors that the queue gives in its own name. -/
def queue_errors : List Bytes :=
  [Bytes.lit "Error: MCP server is not running", Bytes.lit "Error: MCP queue is full",
    Bytes.lit "Error: MCP request timed out in queue", Bytes.lit "Error: MCP server stopped"]

section
variable [NlohmannErrors] {args : Json} {query : Bytes}

theorem queued_answer (hargs : args.value_string (Bytes.lit "query") [] = .ok query)
    (hquery : query ≠ []) {queue : Bytes → McpQueueResult} {r : McpQueueResult}
    (hqueue : queue query = r) (hr : Marked r) (cb : Option (Bytes → Ending)) :
    r2sql_query true queue cb args =
      .ok (tool_answer r.payload (starts_with_text r.payload error_start)) := by
  have hmark : (!r.success) = starts_with_text r.payload error_start := by
    rw [hr, Bool.not_not]
  unfold r2sql_query
  rw [hargs]
  simp only [bind, Except.bind, if_neg hquery, if_true, hqueue, hmark]
  rfl

theorem direct_answer (hargs : args.value_string (Bytes.lit "query") [] = .ok query)
    (hquery : query ≠ []) (queue : Bytes → McpQueueResult) (cb : Bytes → Ending) :
    r2sql_query false queue (some cb) args =
      match cb query with
      | .returned text => .ok (tool_answer text (starts_with_text text error_start))
      | .threw what => .error (.exception what)
      | .escaped => .error .unknown := by
  unfold r2sql_query
  rw [hargs]
  simp only [bind, Except.bind, if_neg hquery, Bool.false_eq_true, if_false]
  cases cb query <;> rfl

/-- The answer that the queue leaves of the end of a callback: the same one as without the queue,
and the text of an exception as an error. -/
def Ending.tool : Ending → Option Json
  | .returned text => some (tool_answer text (starts_with_text text error_start))
  | .threw what => some (tool_answer (error_start ++ what) true)
  | .escaped => none

omit [NlohmannErrors] in
theorem tool_of_payload {ending : Ending} {text : Bytes} (h : ending.payload = some text) :
    ending.tool = some (tool_answer text (starts_with_text text error_start)) := by
  cases ending with
  | returned text' =>
    cases h
    rfl
  | threw what =>
    cases h
    have hmark : starts_with_text (error_start ++ what) error_start = true :=
      List.isPrefixOf_iff_prefix.mpr (List.prefix_append _ _)
    exact congrArg (fun b => some (tool_answer (error_start ++ what) b)) hmark.symm
  | escaped => cases h

section
variable {σ : Type} {exec : σ → Bytes → Ending × σ} {x : σ} {s : Served σ}

omit [NlohmannErrors] in
/-- The place of a query in the order of the callbacks is that of its own call. -/
theorem tool_of_place (horderly : Orderly s) (hanswered : Answered s.server) {c : CallId}
    {query text : Bytes} (hcall : (c, query) ∈ s.server.calls)
    (hplace : AnswersAt exec x s.server.ended c text) :
    ∃ before after, s.server.ended = before ++ (c, query) :: after ∧
      (ending_after exec x (before.map Prod.snd) query).tool =
        some (tool_answer text (starts_with_text text error_start)) := by
  obtain ⟨before, input, after, hended, hpayload⟩ := hplace
  have hmem : (c, input) ∈ s.server.calls := by
    apply horderly.timely.sound.begun
    apply mem_begun_of_ended
    rw [hended]
    simp
  obtain rfl : input = query :=
    congrArg Prod.snd (List.inj_on_of_nodup_map hanswered.once hmem hcall rfl)
  exact ⟨before, after, hended, tool_of_payload hpayload⟩

variable (exec x) in
/-- The answer of a call of the tool that the queue served: the one that the handler gives without
a queue after the queries before it, or the text of the exception with which that handler ends, or
an error of the queue, for a query that did not run before the server stopped. -/
def AnswersForTheCallback (s : Served σ) (c : CallId) (b : Branch) (args : Json) (query : Bytes)
    (answer : Json) : Prop :=
  (∃ before after, s.server.ended = before ++ (c, query) :: after ∧
    match r2sql_query false (fun _ => failure "")
        (some (ending_after exec x (before.map Prod.snd))) args with
    | .ok direct => answer = direct
    | .error (.exception what) => answer = tool_answer (error_start ++ what) true
    | .error .unknown => False) ∨
  (∃ text ∈ queue_errors, answer = tool_answer text true) ∧
    (b = .stopped ∨ c ∉ s.server.begun.map Prod.fst)

/-- In every interleaving, the tool answers through its queue as it answers without one, and marks
as errors the texts that begin as errors. -/
theorem the_queue_answers_for_the_callback {as : List Action}
    (hrun : run (Served.step exec) ⟨.start true, x⟩ as = some s)
    (hargs : args.value_string (Bytes.lit "query") [] = .ok query) (hquery : query ≠ [])
    {c : CallId} {b : Branch} {r : McpQueueResult} (hcall : (c, query) ∈ s.server.calls)
    (hc : s.server.clients c = .returned b r) {queue : Bytes → McpQueueResult}
    (hqueue : queue query = r) (cb : Option (Bytes → Ending)) :
    ∃ answer, r2sql_query true queue cb args = .ok answer ∧
      answer = tool_answer r.payload (starts_with_text r.payload error_start) ∧
      AnswersForTheCallback exec x s c b args query answer := by
  obtain ⟨horderly, hserial⟩ := orderly_of_run hrun
  have hanswered := answered_of_run (server_run hrun)
  refine ⟨_, queued_answer hargs hquery hqueue (hanswered.marked c b r hc) cb, rfl, ?_⟩
  have herror : r.payload ∈ queue_errors → ∃ text ∈ queue_errors,
      tool_answer r.payload (starts_with_text r.payload error_start) = tool_answer text true := by
    intro hmem
    have hmark : ∀ text ∈ queue_errors, starts_with_text text error_start = true := by decide
    exact ⟨r.payload, hmem, by rw [hmark _ hmem]⟩
  by_cases hb : b = .completed
  · subst hb
    rcases answered_of_completed horderly hserial hc with hplace | ⟨htext, hout⟩
    · obtain ⟨before, after, hended, htool⟩ := tool_of_place horderly hanswered hcall hplace
      refine Or.inl ⟨before, after, hended, ?_⟩
      rw [direct_answer hargs hquery]
      cases hending : ending_after exec x (before.map Prod.snd) query with
      | escaped =>
        rw [hending] at htool
        cases htool
      | _ =>
        rw [hending] at htool
        exact (Option.some.inj htool).symm
    · exact Or.inr ⟨herror (by simp [htext, queue_errors]), Or.inr hout⟩
  · have htext := horderly.timely.exits.text c b r hc hb
    have hmem : b ≠ .completed → b.text ∈ queue_errors := by
      cases b <;> decide
    refine Or.inr ⟨herror (htext ▸ hmem hb), ?_⟩
    cases b with
    | completed => exact absurd rfl hb
    | unfinished => exact absurd hc (horderly.timely.exits.returned c r)
    | stopped => exact Or.inl rfl
    | not_running | full | timed_out =>
      exact Or.inr (not_begun_of_refused horderly.timely hc (by decide))

end

end

/-- The results of the queue for two queries. -/
def two_results (query : Bytes) : McpQueueResult :=
  if query = Bytes.lit "a" then { success := true, payload := Bytes.lit "ba" }
  else { success := true, payload := Bytes.lit "b" }

/-- The query that the queue runs second. -/
theorem the_queue_answers_for_the_second_query :
    letI := NlohmannErrors.silent
    ∃ s r, run (Served.step keeps_statements) ⟨.start true, []⟩ twoQueries = some s ∧
      s.server.clients 0 = .returned .completed r ∧
      ∃ answer, r2sql_query true two_results none
          (.object [(Bytes.lit "query", .string (Bytes.lit "a"))]) = .ok answer ∧
        answer = tool_answer r.payload (starts_with_text r.payload error_start) ∧
        AnswersForTheCallback keeps_statements [] s 0 .completed
          (.object [(Bytes.lit "query", .string (Bytes.lit "a"))]) (Bytes.lit "a") answer := by
  let := NlohmannErrors.silent
  have hsome : (run (Served.step keeps_statements) ⟨.start true, []⟩ twoQueries).isSome = true := by
    decide
  obtain ⟨s, hs⟩ := Option.isSome_iff_exists.mp hsome
  have hstate : (run (Served.step keeps_statements) ⟨.start true, []⟩ twoQueries).map
      (fun s => (s.server.clients 0, s.server.calls)) =
        some (.returned .completed { success := true, payload := Bytes.lit "ba" },
          [(0, Bytes.lit "a"), (1, Bytes.lit "b")]) := by decide
  rw [hs, Option.map_some, Option.some.injEq, Prod.mk.injEq] at hstate
  refine ⟨s, _, hs, hstate.1, ?_⟩
  exact the_queue_answers_for_the_callback hs rfl (by decide) (by rw [hstate.2]; simp) hstate.1
    (by decide) none

/-! ## The session of the CLI -/

section
variable [Nlohmann] [NlohmannErrors] {σ : Type}

/-- The callback of the CLI, on a session that answers and changes in any way. -/
def cli_exec (view : σ → SessionState) (next : σ → Bytes → σ) (x : σ) (sql : Bytes) :
    Ending × σ :=
  (callback_ending (sql_cb (view x) sql), next x sql)

/-- What the tool answers for each outcome of the statement. -/
def sql_answer : Except Thrown QueryResult → Option Json
  | .ok r =>
    if r.utf8 then some (tool_answer (Nlohmann.dump (result_to_json r)) false)
    else some (tool_answer (error_start ++ NlohmannErrors.invalid_utf8 (result_to_json r)) true)
  | .error (.exception what) => some (tool_answer (error_start ++ what) true)
  | .error .unknown => none

/-- The library prints an object with its braces. -/
def PrintsBraces : Prop :=
  ∀ fields, (Nlohmann.dump (.object fields)).head? = some '{'.toUInt8

omit [NlohmannErrors] in
/-- The text of an object has no mark of an error. -/
theorem not_error_of_dump (hdump : PrintsBraces) (r : QueryResult) :
    starts_with_text (Nlohmann.dump (result_to_json r)) error_start = false := by
  obtain ⟨fields, hfields⟩ : ∃ fields, result_to_json r = .object fields := by
    cases r <;> exact ⟨_, rfl⟩
  have hhead := hdump fields
  rw [hfields]
  cases htext : Nlohmann.dump (.object fields) with
  | nil => rfl
  | cons c rest =>
    rw [htext] at hhead
    obtain rfl : c = '{'.toUInt8 := Option.some.inj hhead
    rfl

theorem tool_callback_ending (hdump : PrintsBraces) (session : SessionState) (sql : Bytes) :
    (callback_ending (sql_cb session sql)).tool = sql_answer (session.query sql) := by
  unfold sql_cb sql_answer
  cases session.query sql with
  | error e => cases e <;> rfl
  | ok r =>
    simp only [bind, Except.bind, Json.try_dump, utf8_result_to_json]
    cases r.utf8 with
    | true =>
      have hmark := not_error_of_dump hdump r
      simp only [if_true, callback_ending, Ending.tool, hmark]
    | false => rfl

/-- The answers of the tool of the CLI. A statement that fails in SQL is no error of the tool: its
envelope is. The mark of an error is left for exceptions, and for a server that stopped. -/
theorem a_failed_statement_is_no_tool_error (hdump : PrintsBraces)
    {view : σ → SessionState} {next : σ → Bytes → σ} {x : σ} {as : List Action} {s : Served σ}
    (hrun : run (Served.step (cli_exec view next)) ⟨.start true, x⟩ as = some s)
    {args : Json} {query : Bytes} (hargs : args.value_string (Bytes.lit "query") [] = .ok query)
    (hquery : query ≠ []) {c : CallId} {r : McpQueueResult}
    (hcall : (c, query) ∈ s.server.calls) (hc : s.server.clients c = .returned .completed r)
    {queue : Bytes → McpQueueResult} (hqueue : queue query = r) (cb : Option (Bytes → Ending)) :
    ∃ answer, r2sql_query true queue cb args = .ok answer ∧
      (answer = tool_answer (Bytes.lit "Error: MCP server stopped") true ∨
        ∃ before after, s.server.ended = before ++ (c, query) :: after ∧
          sql_answer ((view ((before.map Prod.snd).foldl next x)).query query) = some answer) := by
  obtain ⟨horderly, hserial⟩ := orderly_of_run hrun
  have hanswered := answered_of_run (server_run hrun)
  refine ⟨_, queued_answer hargs hquery hqueue (hanswered.marked c _ r hc) cb, ?_⟩
  rcases answered_of_completed horderly hserial hc with hplace | ⟨htext, -⟩
  · obtain ⟨before, after, hended, htool⟩ := tool_of_place horderly hanswered hcall hplace
    refine Or.inr ⟨before, after, hended, ?_⟩
    rw [← tool_callback_ending hdump]
    exact htool
  · have hmark : starts_with_text (Bytes.lit "Error: MCP server stopped") error_start = true := by
      decide
    left
    rw [htext, hmark]

end

/-- A library that prints the envelope of an error. -/
@[reducible] def error_printer : Nlohmann where
  parse _ := none
  dump
    | .object [(_, .string message), _] =>
      Bytes.lit "\x7b\"error\":\"" ++ message ++ Bytes.lit "\",\"success\":false\x7d"
    | _ => Bytes.lit "\x7b\x7d"

theorem printsBraces_error_printer : @PrintsBraces error_printer := by
  intro fields
  unfold error_printer
  dsimp only
  split <;> rfl

/-- The envelope of the error of a statement about no table. -/
def no_such_table : Bytes :=
  Bytes.lit "\x7b\"error\":\"no such table: t\",\"success\":false\x7d"

/-- A session without tables. -/
def empty_session : SessionState where
  query _ := .ok (.error (Bytes.lit "no such table: t"))
  raw_cmd _ := .ok []

/-- The arguments of a call of the tool. -/
def query_args (query : String) : Json := .object [(Bytes.lit "query", .string (Bytes.lit query))]

/-- The result of the queue for that statement. -/
def failing_queue (query : Bytes) : McpQueueResult :=
  if query = Bytes.lit "SELECT * FROM t" then { success := true, payload := no_such_table }
  else failure "Error: MCP server is not running"

/-- A call whose statement fails. -/
def failedStatement : List Action :=
  [.call 0 .Query (Bytes.lit "SELECT * FROM t"), .client 0, .client 0, .drain, .interrupt false,
    .drain, .drain, .drain, .callback (.returned no_such_table), .drain, .client 0, .client 0,
    .client 0]

theorem a_statement_fails_in_its_envelope :
    letI := error_printer
    letI := NlohmannErrors.silent
    ∃ s : Served Unit, run (Served.step (cli_exec (fun _ => empty_session) fun x _ => x))
        ⟨.start true, ()⟩ failedStatement = some s ∧
      ∃ r answer, s.server.clients 0 = .returned .completed r ∧
        r2sql_query true failing_queue none (query_args "SELECT * FROM t") = .ok answer ∧
        (answer = tool_answer (Bytes.lit "Error: MCP server stopped") true ∨
          ∃ before after, s.server.ended =
              before ++ (0, Bytes.lit "SELECT * FROM t") :: after ∧
            sql_answer (empty_session.query (Bytes.lit "SELECT * FROM t")) = some answer) := by
  let := error_printer
  let := NlohmannErrors.silent
  have hsome : (run (Served.step (cli_exec (fun _ => empty_session) fun x _ => x))
      ⟨.start true, ()⟩ failedStatement).isSome = true := by decide
  obtain ⟨s, hs⟩ := Option.isSome_iff_exists.mp hsome
  have hstate : (run (Served.step (cli_exec (fun _ => empty_session) fun x _ => x))
      ⟨.start true, ()⟩ failedStatement).map (fun s => (s.server.clients 0, s.server.calls)) =
        some (.returned .completed { success := true, payload := no_such_table },
          [(0, Bytes.lit "SELECT * FROM t")]) := by decide
  rw [hs, Option.map_some, Option.some.injEq, Prod.mk.injEq] at hstate
  have hqueue : failing_queue (Bytes.lit "SELECT * FROM t") =
      { success := true, payload := no_such_table } := by decide +kernel
  have hargs : (query_args "SELECT * FROM t").value_string (Bytes.lit "query") [] =
      .ok (Bytes.lit "SELECT * FROM t") := rfl
  obtain ⟨answer, hanswer, h⟩ := a_failed_statement_is_no_tool_error
    printsBraces_error_printer hs hargs (by decide) (by rw [hstate.2]; simp) hstate.1 hqueue none
  exact ⟨s, hs, _, answer, hstate.1, hanswer, h⟩

end r2sql.mcp
