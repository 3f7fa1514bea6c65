-- The SQL functions of session.cpp that change the project or its types, and
-- the arguments that SQLite calls them with.
import R2sql.Backend
import R2sql.JsonUtils

namespace r2sql

open json_utils

/-- The bytes with a meaning of their own in a command line of radare2. -/
def reserved : Bytes := Bytes.lit " \n;|@~>\"#`"

theorem not_reserved_of_name_byte {c : UInt8} (h : name_byte c) : c ∉ reserved := by
  revert h
  revert c
  apply Bytes.forall_byte
  decide +kernel

/-! ## Arguments -/

/-- An `xsql::FunctionArg`, by what its accessors answer. `as_c_str` is the null pointer for an SQL
NULL, and otherwise the text up to its first NUL. -/
structure FunctionArg where
  is_null : Bool
  as_int64 : Int64
  as_c_str : Option Bytes
  as_text : Bytes

/-- An SQL text. -/
def FunctionArg.text (s : Bytes) : FunctionArg :=
  { is_null := false, as_int64 := 0, as_c_str := some s, as_text := s }

/-- Argument `i`, where the call has so many and it is not an SQL NULL. -/
def supplied (argv : List FunctionArg) (i : Nat) : Option FunctionArg :=
  argv[i]?.filter fun arg => !arg.is_null

/-! ## Commands -/

/-- `(void)be->cmd(..)` for one command after the other. -/
def send : List Bytes → R2 Unit
  | [] => return ()
  | command :: commands => do
    let _ ← cmd command
    send commands

@[simp] theorem asked_send (be : Backend) (commands : List Bytes) :
    (send commands).asked be = commands := by
  induction commands with
  | nil => rfl
  | cons command commands ih => simp [send, ih]

/-- The commands change the machine one after the other, and the replies are left alone. -/
@[simp] theorem play_send {σ : Type} (step : σ → Bytes → Bytes × σ) (s : σ)
    (commands : List Bytes) :
    (send commands).play step s = ((), commands.foldl (fun s command => (step s command).2) s) := by
  induction commands generalizing s with
  | nil => rfl
  | cons command commands ih => simp [send, ih]

/-! ## The functions -/

/-- `r2sql_project_save` and `r2sql_project_open`: a command of radare2 on a project name. -/
def project_function (command answer : String) (argv : List FunctionArg) : R2 Bytes :=
  match supplied argv 0 with
  | none => return Bytes.lit "error: project name required"
  | some arg => do
    let name := arg.as_text
    if valid_flag_name name = false then
      return Bytes.lit "error: invalid project name"
    else
      send [Bytes.lit command ++ name]
      return Bytes.lit answer ++ name

def r2sql_project_save : List FunctionArg → R2 Bytes := project_function "Ps " "saved: "

def r2sql_project_open : List FunctionArg → R2 Bytes := project_function "P " "opened: "

/-- `r2sql_type_define`. The quotes are there so that radare2 takes the `;` of a declaration as it
is. -/
def r2sql_type_define (argv : List FunctionArg) : R2 Bytes :=
  match supplied argv 0 with
  | none => return Bytes.lit "error: C declaration required"
  | some arg => do
    let decl := arg.as_text
    send [Bytes.lit "\"td " ++ decl ++ Bytes.lit "\""]
    return Bytes.lit "ok"

end r2sql
