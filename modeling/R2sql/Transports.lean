-- The three handlers that answer a request: the CLI HTTP server, the HTTP
-- server inside radare2, and the MCP tool of the CLI.
import R2sql.JsonErrors
import R2sql.McpResults

namespace r2sql

open runs

/-! ## What they answer -/

/-- A `xsql::Result`: the columns and the rows of a statement, or an error. -/
inductive QueryResult where
  | rows (columns : List Bytes) (rows : List (List Bytes))
  | error (message : Bytes)
  deriving DecidableEq

/-- The state of a session, as far as the next request sees it: what `query` and `raw_cmd` give on
each text, or the exception that they throw. -/
structure SessionState where
  query : Bytes → Except Thrown QueryResult
  raw_cmd : Bytes → Except Thrown Bytes

def text_array (texts : List Bytes) : Json := .array (texts.map .string)

/-- `{{"success", false}, {"error", message}}`. -/
def error_json (message : Bytes) : Json :=
  .object [(Bytes.lit "error", .string message), (Bytes.lit "success", .boolean false)]

/-- `{{"success", true}, {"output", out}}`. -/
def output_json (out : Bytes) : Json :=
  .object [(Bytes.lit "output", .string out), (Bytes.lit "success", .boolean true)]

/-- The CLI's envelope of a result. -/
def result_to_json : QueryResult → Json
  | .error message => error_json message
  | .rows columns rows =>
    .object [(Bytes.lit "columns", text_array columns),
      (Bytes.lit "row_count", .number_integer (Int64.ofNat rows.length)),
      (Bytes.lit "rows", .array (rows.map text_array)),
      (Bytes.lit "success", .boolean true)]

/-- The copy of `result_to_json` in the plugin. -/
def plugin_result_to_json : QueryResult → Json := result_to_json

/-- All strings of the result are UTF-8. -/
def QueryResult.utf8 : QueryResult → Bool
  | .error message => valid_utf8 message
  | .rows columns lines => columns.all valid_utf8 && lines.all fun row => row.all valid_utf8

theorem utf8_text_array (texts : List Bytes) : (text_array texts).utf8 = texts.all valid_utf8 := by
  rw [text_array, Json.utf8, Json.utf8_items_eq, List.all_map]
  simp [Function.comp_def, Json.utf8]

theorem utf8_error_json (message : Bytes) : (error_json message).utf8 = valid_utf8 message := by
  have hkeys : valid_utf8 (Bytes.lit "error") = true ∧ valid_utf8 (Bytes.lit "success") = true := by
    decide
  simp [error_json, Json.utf8, Json.utf8_fields, hkeys]

theorem utf8_output_json (out : Bytes) : (output_json out).utf8 = valid_utf8 out := by
  have hkeys : valid_utf8 (Bytes.lit "output") = true ∧
      valid_utf8 (Bytes.lit "success") = true := by
    decide
  simp [output_json, Json.utf8, Json.utf8_fields, hkeys]

theorem utf8_result_to_json (r : QueryResult) : (result_to_json r).utf8 = r.utf8 := by
  cases r with
  | error message => exact utf8_error_json message
  | rows columns rows =>
    have hkeys : valid_utf8 (Bytes.lit "columns") = true ∧
        valid_utf8 (Bytes.lit "row_count") = true ∧
        valid_utf8 (Bytes.lit "rows") = true ∧ valid_utf8 (Bytes.lit "success") = true := by
      decide
    simp [result_to_json, QueryResult.utf8, Json.utf8, Json.utf8_fields, Json.utf8_items_eq, hkeys,
      utf8_text_array, Function.comp_def]

/-! ## The handlers -/

def kRaw : Bytes := Bytes.lit ".r2cmd "

/-- The command of a body `.r2cmd <command>`, which can have blanks in front. -/
def raw_request (body : Bytes) : Option Bytes :=
  let text := body.dropWhile (· ∈ Bytes.lit " \t\r\n")
  if kRaw.isPrefixOf text then some (text.drop kRaw.length) else none

section
variable [Nlohmann] [NlohmannErrors]

/-- The handler of the CLI's HTTP server. -/
def query_fn (s : SessionState) (body : Bytes) : Except Thrown Bytes :=
  match raw_request body with
  | some command => do
    let out ← s.raw_cmd command
    (output_json out).try_dump
  | none => do
    let r ← s.query body
    (result_to_json r).try_dump

/-- The catch clauses of the plugin's handlers. -/
def answer_thrown : Thrown → Except Thrown Bytes
  | .exception what => (error_json what).try_dump
  | .unknown => (error_json (Bytes.lit "unknown exception")).try_dump

/-- The handler of the plugin's HTTP server, before and after there is a session. -/
def plugin_raw_or_sql (session : Option SessionState) (body : Bytes) : Except Thrown Bytes :=
  match session with
  | none => (error_json (Bytes.lit "session not initialized")).try_dump
  | some s =>
    tryCatch
      (match raw_request body with
        | some command => do
          let out ← s.raw_cmd command
          (output_json out).try_dump
        | none => do
          let r ← s.query body
          (plugin_result_to_json r).try_dump)
      answer_thrown

/-- The callback of the CLI's MCP server. -/
def sql_cb (s : SessionState) (sql : Bytes) : Except Thrown Bytes := do
  let r ← s.query sql
  (result_to_json r).try_dump

/-- How the callback ends, for the queue. -/
def callback_ending : Except Thrown Bytes → mcp.Ending
  | .ok text => .returned text
  | .error (.exception what) => .threw what
  | .error .unknown => .escaped

/-! ## The envelope -/

/-- The print of an object with a boolean member `success`. -/
def IsEnvelope (text : Bytes) : Prop :=
  ∃ fields b, text = Nlohmann.dump (.object fields) ∧
    fields.lookup (Bytes.lit "success") = some (.boolean b)

/-- In a run of the MCP server a call has its callback on `body`, while the session is in the state
`s`, and returns `r`, which is no timeout and no refusal. -/
def AnsweredByQueue (s : SessionState) (body : Bytes) (r : mcp.McpQueueResult) : Prop :=
  ∃ before after u t c, run mcp.step (.start true) before = some u ∧ u.drainer = .executing c ∧
    (c, body) ∈ u.begun ∧
    run mcp.step u (.callback (callback_ending (sql_cb s body)) :: after) = some t ∧
    t.clients c = .returned .completed r

/-- The handlers answer with one envelope: both HTTP servers, and the MCP tool where the body is a
statement for it. -/
def SameEnvelope (s : SessionState) (body : Bytes) : Prop :=
  ∃ text, IsEnvelope text ∧ query_fn s body = .ok text ∧
    plugin_raw_or_sql (some s) body = .ok text ∧
    (body ≠ [] → raw_request body = none →
      (∃ r, AnsweredByQueue s body r) ∧ ∀ r, AnsweredByQueue s body r → r.payload = text)

/-- The session answers the request without an exception, and with nothing but UTF-8. -/
def AnswersInUtf8 (s : SessionState) (body : Bytes) : Prop :=
  match raw_request body with
  | some command => ∃ out, s.raw_cmd command = .ok out ∧ valid_utf8 out = true
  | none => ∃ r, s.query body = .ok r ∧ r.utf8 = true

/-! ## Where they agree -/

/-- The envelope of a request, before it is printed. -/
def reply_json (s : SessionState) (body : Bytes) : Except Thrown Json :=
  match raw_request body with
  | some command => output_json <$> s.raw_cmd command
  | none => result_to_json <$> s.query body

omit [Nlohmann] [NlohmannErrors] in
theorem reply_json_envelope {s : SessionState} {body : Bytes} {j : Json}
    (h : reply_json s body = .ok j) :
    ∃ fields b, j = .object fields ∧ fields.lookup (Bytes.lit "success") = some (.boolean b) := by
  unfold reply_json at h
  cases hraw : raw_request body with
  | some command =>
    cases hout : s.raw_cmd command with
    | error e => simp [hraw, hout] at h
    | ok out =>
      simp only [hraw, hout, Except.map_ok, Except.ok.injEq] at h
      exact ⟨_, true, h.symm, rfl⟩
  | none =>
    cases hr : s.query body with
    | error e => simp [hraw, hr] at h
    | ok r =>
      simp only [hraw, hr, Except.map_ok, Except.ok.injEq] at h
      cases r with
      | error message => exact ⟨_, false, h.symm, rfl⟩
      | rows columns lines => exact ⟨_, true, h.symm, rfl⟩

omit [Nlohmann] [NlohmannErrors] in
theorem answersInUtf8_iff (s : SessionState) (body : Bytes) :
    AnswersInUtf8 s body ↔ ∃ j, reply_json s body = .ok j ∧ j.utf8 = true := by
  unfold AnswersInUtf8 reply_json
  cases raw_request body with
  | some command =>
    dsimp only
    cases s.raw_cmd command with
    | error e => simp
    | ok out => simp [utf8_output_json]
  | none =>
    dsimp only
    cases s.query body with
    | error e => simp
    | ok r => simp [utf8_result_to_json]

theorem query_fn_eq (s : SessionState) (body : Bytes) :
    query_fn s body = reply_json s body >>= Json.try_dump := by
  unfold query_fn reply_json
  cases raw_request body with
  | some command =>
    dsimp only
    cases s.raw_cmd command <;> rfl
  | none =>
    dsimp only
    cases s.query body <;> rfl

theorem plugin_raw_or_sql_eq (s : SessionState) (body : Bytes) :
    plugin_raw_or_sql (some s) body = tryCatch (query_fn s body) answer_thrown := rfl

theorem query_fn_eq_ok_iff {s : SessionState} {body text : Bytes} :
    query_fn s body = .ok text ↔
      ∃ j, reply_json s body = .ok j ∧ j.utf8 = true ∧ text = Nlohmann.dump j := by
  rw [query_fn_eq]
  cases reply_json s body with
  | error e => simp [bind, Except.bind]
  | ok j => simp [bind, Except.bind, ← Json.try_dump_eq_ok_iff]

theorem sql_cb_eq {s : SessionState} {body : Bytes} (h : raw_request body = none) :
    sql_cb s body = query_fn s body := by
  unfold sql_cb query_fn
  rw [h]

/-- A server that gets one request, with an empty queue and no timeout, answers it. -/
theorem answeredByQueue_of_sql_cb {s : SessionState} {body text : Bytes}
    (h : sql_cb s body = .ok text) : ∃ r, AnsweredByQueue s body r := by
  have hbefore : ∃ u, run mcp.step (.start true)
      [.call 0 .Query body, .client 0, .client 0, .drain, .interrupt false, .drain, .drain,
        .drain] = some u ∧ u.drainer = .executing 0 ∧ (0, body) ∈ u.begun ∧
      ∃ t, run mcp.step u [.callback (.returned text), .drain, .client 0, .client 0, .client 0] =
        some t ∧ ∃ r, t.clients 0 = .returned .completed r := by
    refine ⟨_, rfl, rfl, ?_, _, rfl, _, rfl⟩
    exact List.mem_singleton.mpr rfl
  obtain ⟨u, hu, hd, hbegun, t, ht, r, hr⟩ := hbefore
  have hafter : run mcp.step u (.callback (callback_ending (sql_cb s body)) ::
      [.drain, .client 0, .client 0, .client 0]) = some t := by
    rw [h]
    exact ht
  exact ⟨r, _, _, u, t, 0, hu, hd, hbegun, hafter, hr⟩

/-- The handlers answer with one envelope exactly where the session answers in UTF-8 and throws
nothing. -/
theorem transports_agree_on_utf8 (s : SessionState) (body : Bytes) :
    SameEnvelope s body ↔ AnswersInUtf8 s body := by
  rw [answersInUtf8_iff]
  constructor
  · rintro ⟨text, -, hcli, -⟩
    obtain ⟨j, hj, hutf8, -⟩ := query_fn_eq_ok_iff.mp hcli
    exact ⟨j, hj, hutf8⟩
  · rintro ⟨j, hj, hutf8⟩
    have hcli : query_fn s body = .ok (Nlohmann.dump j) :=
      query_fn_eq_ok_iff.mpr ⟨j, hj, hutf8, rfl⟩
    obtain ⟨fields, b, rfl, hsuccess⟩ := reply_json_envelope hj
    refine ⟨_, ⟨fields, b, rfl, hsuccess⟩, hcli, ?_, fun _ hraw => ?_⟩
    · rw [plugin_raw_or_sql_eq, hcli]
      rfl
    · have hcb := sql_cb_eq hraw ▸ hcli
      refine ⟨answeredByQueue_of_sql_cb hcb, fun r hr => ?_⟩
      obtain ⟨before, after, u, t, c, hbefore, hd, -, hafter, hpc⟩ := hr
      refine mcp.payload_of_callback hbefore hd hafter hpc ?_
      rw [hcb]
      rfl

theorem try_dump_error_json {message : Bytes} (h : valid_utf8 message = true) :
    ∃ text, IsEnvelope text ∧ (error_json message).try_dump = .ok text :=
  ⟨_, ⟨_, false, rfl, rfl⟩, Json.try_dump_eq_ok_iff.mpr ⟨by rw [utf8_error_json, h], rfl⟩⟩

/-- The plugin answers with an envelope whatever the session does, where the texts of exceptions are
UTF-8. -/
theorem plugin_answers_with_an_envelope (s : SessionState) (body : Bytes)
    (hwhat : ∀ what, query_fn s body = .error (.exception what) → valid_utf8 what = true) :
    ∃ text, IsEnvelope text ∧ plugin_raw_or_sql (some s) body = .ok text := by
  rw [plugin_raw_or_sql_eq]
  cases hcli : query_fn s body with
  | ok text =>
    obtain ⟨j, hj, -, rfl⟩ := query_fn_eq_ok_iff.mp hcli
    obtain ⟨fields, b, rfl, hsuccess⟩ := reply_json_envelope hj
    exact ⟨_, ⟨fields, b, rfl, hsuccess⟩, rfl⟩
  | error e =>
    cases e with
    | exception what => exact try_dump_error_json (hwhat what hcli)
    | unknown =>
      have hunknown : valid_utf8 (Bytes.lit "unknown exception") = true := by decide
      exact try_dump_error_json hunknown

end

/-- A session where each statement gives one cell, with a byte that is not UTF-8. -/
def byte_session : SessionState where
  query _ := .ok (.rows [Bytes.lit "text"] [[[0xE9]]])
  raw_cmd _ := .ok []

/-- The CLI throws where the plugin answers. -/
theorem a_byte_parts_the_transports :
    let body := Bytes.lit "SELECT text FROM strings"
    letI := Nlohmann.ofTexts []
    letI := NlohmannErrors.silent
    query_fn byte_session body = .error (.exception []) ∧
      (∃ text, IsEnvelope text ∧ plugin_raw_or_sql (some byte_session) body = .ok text) ∧
      ¬ SameEnvelope byte_session body := by
  intro body
  let := Nlohmann.ofTexts []
  let := NlohmannErrors.silent
  have hcli : query_fn byte_session body = .error (.exception []) := by
    have hraw : raw_request body = none := by decide
    have hutf8 : (result_to_json (.rows [Bytes.lit "text"] [[[0xE9]]])).utf8 = false := by decide
    have hdump : (result_to_json (.rows [Bytes.lit "text"] [[[0xE9]]])).try_dump =
        .error (.exception []) := by
      rw [Json.try_dump, hutf8]
      rfl
    unfold query_fn
    rw [hraw]
    exact hdump
  refine ⟨hcli, plugin_answers_with_an_envelope _ _ fun what h => ?_, ?_⟩
  · rw [hcli] at h
    cases h
    decide
  · rintro ⟨text, -, hsame, -⟩
    rw [hcli] at hsame
    cases hsame

end r2sql
