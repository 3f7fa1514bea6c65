-- The tables with writes: funcs, flags, bookmarks and comments have the setter
-- of a writable column, INSERT and DELETE. Types and projects have DELETE
-- alone.
import R2sql.SqlFunctions
import R2sql.TypeTables

namespace r2sql

open json_utils

/-- What a write answers: the row as the write leaves it, or the text of `set_vtab_error` (none
where the write fails without a text). -/
inductive Outcome (Row : Type) where
  | ok (row : Row)
  | refused (error : Option Bytes)
  deriving DecidableEq

/-- The text of the error for a name that `valid_flag_name` refuses. -/
def invalid_name (table : String) : Bytes :=
  Bytes.lit table ++ Bytes.lit ": name must be [A-Za-z0-9._$] (no spaces or r2 metacharacters)"

/-- The setter of a name column. `rename` puts the name into the row. -/
def name_setter {Row : Type} (table : String) (commands : Row → Bytes → List Bytes)
    (rename : Row → Bytes → Row) (r : Row) (v : Option Bytes) : R2 (Outcome Row) :=
  let name := v.getD []
  if name = [] then return .refused none
  else if valid_flag_name name = false then return .refused (some (invalid_name table))
  else do
    send (commands r name)
    return .ok (rename r name)

/-- INSERT of an address and a name. The name is in column 2. -/
def named_insert (table : String) (addr_column : Nat) (commands : Bytes → Int64 → List Bytes)
    (argv : List FunctionArg) : R2 (Outcome Unit) :=
  match supplied argv addr_column, supplied argv 2 with
  | some a, some n =>
    let addr := a.as_int64
    let name := n.as_c_str.getD []
    if name = [] then
      return .refused (some (Bytes.lit table ++ Bytes.lit ": INSERT requires a non-empty name"))
    else if valid_flag_name name = false then return .refused (some (invalid_name table))
    else do
      send (commands name addr)
      return .ok ()
  | _, _ => return .refused (some (Bytes.lit table ++ Bytes.lit ": INSERT requires addr and name"))

/-- DELETE of a row by its name. -/
def named_delete {Row : Type} (table what command : String) (name : Row → Bytes) (r : Row) :
    R2 (Outcome Row) :=
  if name r = [] ∨ valid_flag_name (name r) = false then
    return .refused (some (Bytes.lit table ++ Bytes.lit ": refusing to delete an unsafe/empty " ++
      Bytes.lit what ++ Bytes.lit " name"))
  else do
    send [Bytes.lit command ++ name r]
    return .ok r

/-- The name that a write takes: neither null nor refused by `valid_flag_name`. -/
def accepted (v : Option Bytes) : Option Bytes := v.filter valid_flag_name

theorem valid_of_accepted {v : Option Bytes} {name : Bytes} (h : accepted v = some name) :
    valid_flag_name name := by
  simp only [accepted, Option.filter_eq_some_iff] at h
  exact h.2

theorem accepted_eq (v : Option Bytes) :
    accepted v = if v.getD [] = [] then none
      else if valid_flag_name (v.getD []) = false then none else some (v.getD []) := by
  cases v with
  | none => rfl
  | some name =>
    by_cases hempty : name = []
    · subst hempty
      rfl
    · by_cases hvalid : valid_flag_name name = false <;> simp [accepted, hempty, hvalid]

theorem asked_name_setter {Row : Type} (be : Backend) (table : String)
    (commands : Row → Bytes → List Bytes) (rename : Row → Bytes → Row) (r : Row)
    (v : Option Bytes) :
    (name_setter table commands rename r v).asked be = ((accepted v).map (commands r)).getD [] := by
  rw [accepted_eq]
  unfold name_setter
  by_cases hempty : v.getD [] = []
  · simp [hempty]
  · by_cases hvalid : valid_flag_name (v.getD []) = false <;> simp [hempty, hvalid]

/-- The address and the name that an INSERT takes. -/
def inserted (argv : List FunctionArg) (addr_column : Nat) : Option (Int64 × Bytes) := do
  let a ← supplied argv addr_column
  let n ← supplied argv 2
  let name ← accepted n.as_c_str
  return (a.as_int64, name)

theorem valid_of_inserted {argv : List FunctionArg} {addr_column : Nat} {p : Int64 × Bytes}
    (h : inserted argv addr_column = some p) : valid_flag_name p.2 := by
  unfold inserted at h
  simp only [Option.bind_eq_bind, Option.bind_eq_some_iff] at h
  obtain ⟨a, -, n, -, name, haccepted, hp⟩ := h
  cases hp
  exact valid_of_accepted haccepted

theorem asked_named_insert (be : Backend) (table : String) (addr_column : Nat)
    (commands : Bytes → Int64 → List Bytes) (argv : List FunctionArg) :
    (named_insert table addr_column commands argv).asked be =
      ((inserted argv addr_column).map fun p => commands p.2 p.1).getD [] := by
  unfold named_insert inserted
  cases supplied argv addr_column with
  | none => rfl
  | some a =>
    cases supplied argv 2 with
    | none => rfl
    | some n =>
      simp only [Option.bind_eq_bind, Option.bind_some, accepted_eq]
      by_cases hempty : n.as_c_str.getD [] = []
      · simp [hempty]
      · by_cases hvalid : valid_flag_name (n.as_c_str.getD []) = false <;> simp [hempty, hvalid]

/-! ## funcs -/

structure FuncRow where
  addr : Int64
  name : Bytes
  size : Int64
  nbbs : Int64
  edges : Int64
  cc : Int64
  type : Bytes
  calltype : Bytes

def funcs_cache_builder [Nlohmann] : R2 (List FuncRow) := do
  let arr ← cmd_json (Bytes.lit "aflj")
  return arr.items.map fun j =>
    { addr := i64_addr j
      name := str j (Bytes.lit "name")
      size := i64 j (Bytes.lit "size")
      nbbs := i64 j (Bytes.lit "nbbs")
      edges := i64 j (Bytes.lit "edges")
      cc := i64 j (Bytes.lit "cc")
      type := str j (Bytes.lit "type")
      calltype := str j (Bytes.lit "calltype") }

/-- `afn NAME @ ADDR`. -/
def afn (name : Bytes) (addr : Int64) : Bytes :=
  Bytes.lit "afn " ++ name ++ Bytes.lit " @ " ++ hex_addr addr

def funcs_name_setter : FuncRow → Option Bytes → R2 (Outcome FuncRow) :=
  name_setter "funcs" (fun r name => [afn name r.addr]) fun r name => { r with name := name }

/-- INSERT into funcs. A name that is not valid is left out, and the function is there without
it. -/
def funcs_insertable (argv : List FunctionArg) : R2 (Outcome Unit) :=
  match supplied argv 0 with
  | none => return .refused (some (Bytes.lit "funcs: INSERT requires addr"))
  | some a => do
    let addr := a.as_int64
    send [Bytes.lit "af @ " ++ hex_addr addr]
    match supplied argv 1 with
    | none => return .ok ()
    | some n =>
      let name := n.as_c_str.getD []
      if name ≠ [] ∧ valid_flag_name name then
        send [afn name addr]
        return .ok ()
      else return .ok ()

def funcs_deletable (r : FuncRow) : R2 (Outcome FuncRow) := do
  send [Bytes.lit "af- " ++ hex_addr r.addr]
  return .ok r

/-! ## flags -/

structure FlagRow where
  addr : Int64
  size : Int64
  name : Bytes
  realname : Bytes
  space : Bytes

/-- The text before the first dot of a name with a dot, and nothing for any other name. -/
def space_of_name (name : Bytes) : Bytes :=
  if '.'.toUInt8 ∈ name then name.takeWhile (· ≠ '.'.toUInt8) else []

def flags_cache_builder [Nlohmann] : R2 (List FlagRow) := do
  let arr ← cmd_json (Bytes.lit "fj")
  return arr.items.map fun j =>
    let name := str j (Bytes.lit "name")
    { addr := i64_addr j
      size := i64 j (Bytes.lit "size")
      name := name
      realname := str j (Bytes.lit "realname")
      space := space_of_name name }

/-- `fr OLD NEW`. -/
def fr (old name : Bytes) : Bytes := Bytes.lit "fr " ++ old ++ Bytes.lit " " ++ name

/-- `f- @ ADDR`. -/
def f_minus (addr : Int64) : Bytes := Bytes.lit "f- @ " ++ hex_addr addr

/-- `f NAME @ ADDR`. -/
def f_at (name : Bytes) (addr : Int64) : Bytes :=
  Bytes.lit "f " ++ name ++ Bytes.lit " @ " ++ hex_addr addr

def flags_name_setter : FlagRow → Option Bytes → R2 (Outcome FlagRow) :=
  name_setter "flags" (fun r name => [afn name r.addr, fr r.name name]) fun r name =>
    { r with name := name }

def flags_insertable : List FunctionArg → R2 (Outcome Unit) :=
  named_insert "flags" 0 fun name addr => [f_at name addr]

def flags_deletable (r : FlagRow) : R2 (Outcome FlagRow) := do
  send [f_minus r.addr]
  return .ok r

/-! ## bookmarks -/

structure BookmarkRow where
  id : Int64
  addr : Int64
  name : Bytes

/-- The commands in the flag space of the bookmarks. -/
def in_bookmarks (commands : List Bytes) : List Bytes :=
  Bytes.lit "fss*" :: Bytes.lit "fs bookmarks" :: commands ++ [Bytes.lit "fsr-"]

def bookmarks_cache_builder [Nlohmann] : R2 (List BookmarkRow) := do
  send [Bytes.lit "fss*", Bytes.lit "fs bookmarks"]
  let arr ← cmd_json (Bytes.lit "fj")
  send [Bytes.lit "fsr-"]
  return arr.items.zipIdx.map fun p =>
    { id := Int64.ofNat (p.2 + 1), addr := i64_addr p.1, name := str p.1 (Bytes.lit "name") }

def bookmarks_name_setter : BookmarkRow → Option Bytes → R2 (Outcome BookmarkRow) :=
  name_setter "bookmarks" (fun r name => in_bookmarks [fr r.name name]) fun r name =>
    { r with name := name }

def bookmarks_insertable : List FunctionArg → R2 (Outcome Unit) :=
  named_insert "bookmarks" 1 fun name addr => in_bookmarks [f_at name addr]

def bookmarks_deletable (r : BookmarkRow) : R2 (Outcome BookmarkRow) := do
  send (in_bookmarks [f_minus r.addr])
  return .ok r

/-! ## comments -/

structure CommentRow where
  addr : Int64
  type : Bytes
  text : Bytes

def comments_cache_builder [Nlohmann] : R2 (List CommentRow) := do
  let arr ← cmd_json (Bytes.lit "CCj")
  return arr.items.map fun j =>
    { addr := i64_addr j
      type := str j (Bytes.lit "type") (Bytes.lit "comment")
      text := str j (Bytes.lit "name") }

/-- `CCu base64:TEXT @ ADDR`. -/
def ccu (text : Bytes) (addr : Int64) : Bytes :=
  Bytes.lit "CCu base64:" ++ base64_encode text ++ Bytes.lit " @ " ++ hex_addr addr

/-- The setter of the text column: null is written as the empty text, and leaves the row's own. -/
def comments_text_setter (r : CommentRow) (v : Option Bytes) : R2 (Outcome CommentRow) := do
  send [ccu (v.getD []) r.addr]
  return .ok { r with text := v.getD r.text }

def comments_insertable (argv : List FunctionArg) : R2 (Outcome Unit) :=
  match supplied argv 0, supplied argv 2 with
  | some a, some t => do
    send [ccu (t.as_c_str.getD []) a.as_int64]
    return .ok ()
  | _, _ => return .refused (some (Bytes.lit "comments: INSERT requires addr and text"))

/-- `CC- @ ADDR`. -/
def cc_minus (addr : Int64) : Bytes := Bytes.lit "CC- @ " ++ hex_addr addr

def comments_deletable (r : CommentRow) : R2 (Outcome CommentRow) := do
  send [cc_minus r.addr]
  return .ok r

/-! ## types and projects -/

def types_deletable : TypeRow → R2 (Outcome TypeRow) :=
  named_delete "types" "type" "t- " TypeRow.name

structure ProjectRow where
  name : Bytes

def projects_deletable : ProjectRow → R2 (Outcome ProjectRow) :=
  named_delete "projects" "project" "P- " ProjectRow.name

end r2sql
