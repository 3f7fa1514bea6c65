-- The backend: every table and every SQL function talks to radare2 through
-- `cmd` and `cmd_json` alone.
import R2sql.Json
import R2sql.Lib.Dialogue

namespace r2sql

/-- A backend that answers each command with a fixed text, as `MockBackend` does. -/
abbrev Backend := Bytes → Bytes

/-- `MockBackend` with its canned responses: an unknown command gets an empty reply. -/
def mock_backend (canned : List (String × String)) : Backend := fun command =>
  ((canned.map fun p => (Bytes.lit p.1, Bytes.lit p.2)).lookup command).getD []

/-- Code that sends commands to a backend. -/
abbrev R2 := Dialogue Bytes Bytes

/-- `Backend::cmd`. -/
def cmd (command : Bytes) : R2 Bytes := .ask command .done

/-- The bytes that `cmd_json` strips from the end of a reply. -/
def trailing (c : UInt8) : Bool :=
  c == '\n'.toUInt8 || c == '\r'.toUInt8 || c == 0 || c == ' '.toUInt8

/-- The part of `Backend::cmd_json` after the reply is there: null for an empty reply and for
one that does not parse. -/
def json_of_reply [Nlohmann] (text : Bytes) : Json :=
  if text = [] then .null
  else
    let text := text.rdropWhile trailing
    if text = [] then .null else (Nlohmann.parse text).getD .null

/-- `Backend::cmd_json`. -/
def cmd_json [Nlohmann] (command : Bytes) : R2 Json := do
  let text ← cmd command
  return json_of_reply text

variable (be : Backend) (command : Bytes)

@[simp] theorem value_cmd : (cmd command).value be = be command := rfl

@[simp] theorem asked_cmd : (cmd command).asked be = [command] := rfl

@[simp] theorem value_cmd_json [Nlohmann] :
    (cmd_json command).value be = json_of_reply (be command) := rfl

@[simp] theorem asked_cmd_json [Nlohmann] : (cmd_json command).asked be = [command] := rfl

section
variable {σ : Type} (step : σ → Bytes → Bytes × σ) (s : σ)

@[simp] theorem play_cmd : (cmd command).play step s = step s command := rfl

@[simp] theorem play_cmd_json [Nlohmann] :
    (cmd_json command).play step s = (json_of_reply (step s command).1, (step s command).2) := rfl

end

end r2sql
