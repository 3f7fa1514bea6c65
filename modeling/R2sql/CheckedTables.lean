-- The cache builders, generators and pushdown iterators of all tables, with
-- the exceptions that they can throw. The models without exceptions are what
-- they do where they throw none.
import R2sql.CheckedJson
import R2sql.FunctionTables
import R2sql.Grep
import R2sql.WritableTables
import R2sql.Xrefs

namespace r2sql

/-! ## Rows of the tables that are read only -/

structure WelcomeRow where
  key : Bytes
  value : Bytes

structure StringRow where
  addr : Int64
  length : Int64
  section_ : Bytes
  type : Bytes
  text : Bytes

structure ImportRow where
  addr : Int64
  ordinal : Int64
  bind : Bytes
  type : Bytes
  name : Bytes
  libname : Bytes

structure ExportRow where
  addr : Int64
  size : Int64
  type : Bytes
  bind : Bytes
  name : Bytes

structure SectionRow where
  addr : Int64
  vsize : Int64
  paddr : Int64
  size : Int64
  name : Bytes
  perm : Bytes

/-- The row of the segments table has the members of a section. -/
abbrev SegmentRow := SectionRow

/-- `std::to_string`. -/
def to_string (n : Int) : Bytes := Bytes.lit (toString n)

def version : Bytes := Bytes.lit "0.0.1"

/-- `hex_u64`. -/
def hex_u64 (v : UInt64) : Bytes := Bytes.lit "0x" ++ hex.print v.toNat

def chomp (s : Bytes) : Bytes := s.rdropWhile fun c => c == '\n'.toUInt8 || c == '\r'.toUInt8

namespace checked

variable [Nlohmann] [NlohmannErrors]

/-! ## Tables of one answer -/

/-- `auto arr = be->cmd_json(command)`, and a row for each element of an array. -/
def array_rows {Row : Type} (command : String) (row : Json → Except Thrown Row) :
    Raises (List Row) := do
  let arr ← cmd_json (Bytes.lit command)
  let rows ← (arr.items.mapM row : Except Thrown (List Row))
  return rows

def func_row (j : Json) : Except Thrown FuncRow := do
  return {
    addr := ← i64_addr j
    name := ← str j (Bytes.lit "name")
    size := ← i64 j (Bytes.lit "size")
    nbbs := ← i64 j (Bytes.lit "nbbs")
    edges := ← i64 j (Bytes.lit "edges")
    cc := ← i64 j (Bytes.lit "cc")
    type := ← str j (Bytes.lit "type")
    calltype := ← str j (Bytes.lit "calltype") }

def funcs_cache_builder : Raises (List FuncRow) := array_rows "aflj" func_row

/-- One row of `build_strings`. A query that does not read the text leaves it out. -/
def string_row (with_text : Bool) (j : Json) : Except Thrown StringRow := do
  return {
    addr := ← i64 j (Bytes.lit "vaddr")
    length := ← i64 j (Bytes.lit "length")
    section_ := ← str j (Bytes.lit "section")
    type := ← str j (Bytes.lit "type")
    text := ← if with_text then str j (Bytes.lit "string") else pure [] }

def build_strings (with_text : Bool) : Raises (List StringRow) :=
  array_rows "izj" (string_row with_text)

def strings_cache_builder : Raises (List StringRow) := build_strings true

def kTextColBit : UInt64 := (1 : UInt64) <<< 4

def kColUsedAll : UInt64 := (1 : UInt64) <<< 63

def strings_projection_cache_builder (colUsed : UInt64) : Raises (List StringRow) :=
  build_strings (colUsed &&& kColUsedAll != 0 || colUsed &&& kTextColBit != 0)

def import_row (j : Json) : Except Thrown ImportRow := do
  return {
    addr := ← i64 j (Bytes.lit "plt")
    ordinal := ← i64 j (Bytes.lit "ordinal")
    bind := ← str j (Bytes.lit "bind")
    type := ← str j (Bytes.lit "type")
    name := ← str j (Bytes.lit "name")
    libname := ← str j (Bytes.lit "libname") }

def imports_cache_builder : Raises (List ImportRow) := array_rows "iij" import_row

def export_row (j : Json) : Except Thrown ExportRow := do
  return {
    addr := ← i64 j (Bytes.lit "vaddr")
    size := ← i64 j (Bytes.lit "size")
    type := ← str j (Bytes.lit "type")
    bind := ← str j (Bytes.lit "bind")
    name := ← str j (Bytes.lit "name") }

def exports_cache_builder : Raises (List ExportRow) := array_rows "iEj" export_row

def section_row (j : Json) : Except Thrown SectionRow := do
  return {
    addr := ← i64 j (Bytes.lit "vaddr")
    vsize := ← i64 j (Bytes.lit "vsize")
    paddr := ← i64 j (Bytes.lit "paddr")
    size := ← i64 j (Bytes.lit "size")
    name := ← str j (Bytes.lit "name")
    perm := ← str j (Bytes.lit "perm") }

def sections_cache_builder : Raises (List SectionRow) := array_rows "iSj" section_row

def segments_cache_builder : Raises (List SegmentRow) := array_rows "iSSj" section_row

def flag_row (j : Json) : Except Thrown FlagRow := do
  let addr ← i64_addr j
  let size ← i64 j (Bytes.lit "size")
  let name ← str j (Bytes.lit "name")
  let realname ← str j (Bytes.lit "realname")
  return { addr := addr, size := size, name := name, realname := realname
           space := space_of_name name }

def flags_cache_builder : Raises (List FlagRow) := array_rows "fj" flag_row

def comment_row (j : Json) : Except Thrown CommentRow := do
  return {
    addr := ← i64_addr j
    type := ← str j (Bytes.lit "type") (Bytes.lit "comment")
    text := ← str j (Bytes.lit "name") }

def comments_cache_builder : Raises (List CommentRow) := array_rows "CCj" comment_row

def bookmark_row (p : Json × Nat) : Except Thrown BookmarkRow := do
  return {
    id := Int64.ofNat (p.2 + 1)
    addr := ← i64_addr p.1
    name := ← str p.1 (Bytes.lit "name") }

def bookmarks_cache_builder : Raises (List BookmarkRow) := do
  send [Bytes.lit "fss*", Bytes.lit "fs bookmarks"]
  let arr ← cmd_json (Bytes.lit "fj")
  send [Bytes.lit "fsr-"]
  let rows ← (arr.items.zipIdx.mapM bookmark_row : Except Thrown (List BookmarkRow))
  return rows

/-- The name of a project: the element, or the `name` of an object. -/
def project_name_of (j : Json) : Except Thrown Bytes :=
  if j.is_string then j.get_string
  else if j.is_object then str j (Bytes.lit "name")
  else pure []

def projects_cache_builder : Raises (List ProjectRow) := do
  let names ← array_rows "Plj" project_name_of
  return (names.filter (· ≠ [])).map ProjectRow.mk

/-! ## welcome -/

/-- The value column of a member of the `iIj` answer. -/
def info_value (v : Json) : Except Thrown Bytes :=
  if v.is_string then v.get_string
  else if v.is_boolean then do
    let b ← v.get_bool
    return if b then Bytes.lit "true" else Bytes.lit "false"
  else v.try_dump

def info_row (f : Bytes × Json) : Except Thrown WelcomeRow := do
  return { key := f.1, value := ← info_value f.2 }

/-- The `bits` of the summary: the digits of a number, and any other member as it is printed. -/
def info_bits (info : Json) : Except Thrown Bytes :=
  if info.contains (Bytes.lit "bits") then do
    let bits ← info.at_key (Bytes.lit "bits")
    if bits.is_number then
      let n ← bits.get_int64
      return to_string n.toInt
    else bits.try_dump
  else return []

/-- The rows of the `iIj` answer, and the `arch` and the `bits` of the summary. -/
def welcome_info (info : Json) : Except Thrown (List WelcomeRow × Bytes × Bytes) :=
  match info with
  | .object fields => do
    let rows ← fields.mapM info_row
    let arch ← info.value_string (Bytes.lit "arch") []
    let bits ← info_bits info
    return (rows, arch, bits)
  | _ => return ([], [], [])

/-- The file of the `core` of the `ij` answer. -/
def core_file (core : Json) : Except Thrown (List WelcomeRow) :=
  if core.is_object && core.contains (Bytes.lit "file") then do
    let file ← core.at_key (Bytes.lit "file")
    if file.is_string then
      return [{ key := Bytes.lit "file", value := ← file.get_string }]
    else return []
  else return []

/-- The file row of the `ij` answer. -/
def welcome_file (j : Json) : Except Thrown (List WelcomeRow) :=
  if j.is_object && j.contains (Bytes.lit "core") then do
    let core ← j.at_key (Bytes.lit "core")
    core_file core
  else return []

/-- The address of the first entry point in the `iej` answer. -/
def welcome_entry (j : Json) : Except Thrown (Option Bytes) :=
  match j with
  | .array (first :: _) =>
    if first.is_object && first.contains (Bytes.lit "vaddr") then do
      let vaddr ← first.at_key (Bytes.lit "vaddr")
      if vaddr.is_number then
        let v ← vaddr.get_uint64
        return some (hex_u64 v)
      else return none
    else return none
  | _ => return none

/-- `add_count`: the length of an array answer. -/
def add_count (command : String) : R2 Bytes := do
  let j ← cmd_json (Bytes.lit command)
  return to_string j.items.length

/-- The one-line digest of the last row. -/
def welcome_summary (arch bits entry_hex entry_name func_count section_count string_count : Bytes) :
    Bytes :=
  arch ++ (if bits = [] then [] else Bytes.lit " " ++ bits ++ Bytes.lit "-bit") ++
    (if entry_name ≠ [] then Bytes.lit " | entry: " ++ entry_name ++ Bytes.lit " @ " ++ entry_hex
      else if entry_hex ≠ [] then Bytes.lit " | entry: " ++ entry_hex
      else []) ++
    Bytes.lit " | funcs: " ++ func_count ++ Bytes.lit " | sections: " ++ section_count ++
    Bytes.lit " | strings: " ++ string_count

def welcome_cache_builder : Raises (List WelcomeRow) := do
  let iIj ← cmd_json (Bytes.lit "iIj")
  let (info, arch, bits) ← welcome_info iIj
  let ij ← cmd_json (Bytes.lit "ij")
  let file ← welcome_file ij
  let iej ← cmd_json (Bytes.lit "iej")
  let entry ← welcome_entry iej
  let entry_hex := entry.getD []
  let entry_name ← match entry with
    | some at_entry => chomp <$> cmd (Bytes.lit "fd @ " ++ at_entry)
    | none => pure []
  let func_count ← add_count "aflj"
  let string_count ← add_count "izj"
  let import_count ← add_count "iij"
  let section_count ← add_count "iSj"
  let segment_count ← add_count "iSSj"
  let symbol_count ← add_count "isj"
  return info ++ [⟨Bytes.lit "r2sql_version", version⟩] ++ file ++
    (if entry.isSome then [⟨Bytes.lit "entry", entry_hex⟩] else []) ++
    (if entry_name ≠ [] then [⟨Bytes.lit "entry_name", entry_name⟩] else []) ++
    [⟨Bytes.lit "func_count", func_count⟩, ⟨Bytes.lit "string_count", string_count⟩,
      ⟨Bytes.lit "import_count", import_count⟩, ⟨Bytes.lit "section_count", section_count⟩,
      ⟨Bytes.lit "segment_count", segment_count⟩, ⟨Bytes.lit "symbol_count", symbol_count⟩,
      ⟨Bytes.lit "summary",
        welcome_summary arch bits entry_hex entry_name func_count section_count string_count⟩]

/-! ## blocks, instructions and pseudocode -/

def block_row (fa : Int64) (b : Json) : Except Thrown BlockRow := do
  return {
    addr := ← i64 b (Bytes.lit "addr")
    size := ← i64 b (Bytes.lit "size")
    func_addr := fa }

def blocks_for_func (fa : Int64) : Raises (List BlockRow) := do
  let bbs ← cmd_json (at_addr "afbj" fa)
  let rows ← (bbs.items.mapM (block_row fa) : Except Thrown (List BlockRow))
  return rows

def mnemonic_from_op (op : Json) : Except Thrown Bytes := do
  let opcode ← str op (Bytes.lit "opcode")
  let text ← if opcode = [] then str op (Bytes.lit "disasm") else pure opcode
  if text = [] then str op (Bytes.lit "type")
  else return text.takeWhile fun c => c ∉ Bytes.lit " \t\r\n"

def insn_row (fa : Int64) (op : Json) : Except Thrown InsnRow := do
  return {
    addr := ← i64_addr op
    size := ← i64 op (Bytes.lit "size")
    mnemonic := ← mnemonic_from_op op
    disasm := ← str op (Bytes.lit "disasm")
    bytes := ← str op (Bytes.lit "bytes")
    func_addr := fa }

def insns_for_func (fa : Int64) : Raises (List InsnRow) := do
  let pdf ← cmd_json (at_addr "pdfj" fa)
  match pdf.find (Bytes.lit "ops") with
  | none => return []
  | some ops =>
    let rows ← (ops.items.mapM (insn_row fa) : Except Thrown (List InsnRow))
    return rows

/-- `next()` of `BlocksGen` and `InsnsGen`. -/
def FuncGen.next {Row : Type} (rows_for_func : Int64 → Raises (List Row)) (g : FuncGen Row) :
    Raises (Bool × FuncGen Row) :=
  if hb : g.bi_ < g.buf_.length then
    pure (true, { g with cur_ := g.buf_[g.bi_], bi_ := g.bi_ + 1 })
  else if hf : g.fi_ < g.funcs_.items.length then do
    let fa ← i64_addr g.funcs_.items[g.fi_]
    let buf ← rows_for_func fa
    FuncGen.next rows_for_func { g with fi_ := g.fi_ + 1, buf_ := buf, bi_ := 0 }
  else pure (false, g)
termination_by g.funcs_.items.length - g.fi_

def BlocksInFuncIterator (fa : Int64) : Raises (VecIterator BlockRow) := do
  let rows ← blocks_for_func fa
  return .make rows

def InsnsInFuncIterator (fa : Int64) : Raises (VecIterator InsnRow) := do
  let rows ← insns_for_func fa
  return .make rows

/-- `next()` of `PseudoGen`. -/
def PseudoGen.next (g : PseudoGen) : Raises (Bool × PseudoGen) :=
  if hf : g.fi_ < g.funcs_.items.length then do
    let fa ← i64_addr g.funcs_.items[g.fi_]
    let row ← pseudo_for_func g.dec_cmd_ fa
    return (true, { g with fi_ := g.fi_ + 1, cur_ := row })
  else return (false, g)

/-! ## xrefs -/

def name_in_info (info : Json) : Except Thrown Bytes :=
  match info with
  | .array (.object fields :: _) => str (.object fields) (Bytes.lit "name")
  | .object fields => str (.object fields) (Bytes.lit "name")
  | _ => pure []

def function_name_at (addr : Int64) : Raises Bytes := do
  let info ← cmd_json (at_addr "afij" addr)
  name_in_info info

def xref_to_row (to_addr : Int64) (j : Json) : Except Thrown XrefRow := do
  return {
    from_addr := ← i64 j (Bytes.lit "from")
    to_addr := to_addr
    type := ← str j (Bytes.lit "type")
    from_func := ← str j (Bytes.lit "fcn_name") }

def xrefs_to_addr (to_addr : Int64) : Raises (List XrefRow) := do
  let refs ← cmd_json (at_addr "axtj" to_addr)
  let rows ← (refs.items.mapM (xref_to_row to_addr) : Except Thrown (List XrefRow))
  return rows

/-- A reference of `axfj`, with its own name of the function. -/
def xref_from_row (from_addr : Int64) (j : Json) : Except Thrown XrefRow := do
  return {
    from_addr := ← i64 j (Bytes.lit "from") from_addr
    to_addr := ← i64 j (Bytes.lit "to")
    type := ← str j (Bytes.lit "type")
    from_func := ← str j (Bytes.lit "fcn_name") }

/-- The loop of `xrefs_from_addr`. -/
def from_rows (from_addr : Int64) : Bytes → List Json → Raises (List XrefRow)
  | _, [] => return []
  | from_func, j :: js => do
    let r ← xref_from_row from_addr j
    if r.from_func = [] then
      let name ← if from_func = [] then function_name_at from_addr else pure from_func
      let rows ← from_rows from_addr name js
      return { r with from_func := name } :: rows
    else
      let rows ← from_rows from_addr from_func js
      return r :: rows

def xrefs_from_addr (from_addr : Int64) : Raises (List XrefRow) := do
  let refs ← cmd_json (at_addr "axfj" from_addr)
  from_rows from_addr [] refs.items

def XrefsToIterator (addr : Int64) : Raises (VecIterator XrefRow) := do
  let rows ← xrefs_to_addr addr
  return .make rows

def XrefsFromIterator (addr : Int64) : Raises (VecIterator XrefRow) := do
  let rows ← xrefs_from_addr addr
  return .make rows

/-- A reference of `afxj`, out of the function `fname`. -/
def xref_row (fname : Bytes) (j : Json) : Except Thrown XrefRow := do
  return {
    from_addr := ← i64 j (Bytes.lit "from")
    to_addr := ← i64 j (Bytes.lit "to")
    type := ← str j (Bytes.lit "type")
    from_func := fname }

/-- One turn of the loop over the functions. -/
def xrefs_of_func (f : Json) : Raises (List XrefRow) := do
  let fa ← i64_addr f
  let fname ← str f (Bytes.lit "name")
  let refs ← cmd_json (at_addr "afxj" fa)
  let rows ← (refs.items.mapM (xref_row fname) : Except Thrown (List XrefRow))
  return rows

def xrefs_cache_builder : Raises (List XrefRow) := do
  let funcs ← cmd_json (Bytes.lit "aflj")
  let rows ← funcs.items.mapM xrefs_of_func
  return rows.flatten

/-! ## grep -/

def push_array_row (kind : String) (addr_key : Option String) (name_key : String)
    (parent_key : Option String) (j : Json) : Except Thrown GrepRow := do
  let name ← str j (Bytes.lit name_key)
  let addr ← match addr_key with
    | some k => i64 j (Bytes.lit k)
    | none => i64_addr j
  let parent_name ← match parent_key with
    | some k => str j (Bytes.lit k)
    | none => pure []
  return {
    kind := Bytes.lit kind
    name := name
    full_name := if parent_name = [] then name else parent_name ++ Bytes.lit "!" ++ name
    parent_name := parent_name
    addr := addr }

def grep_comment_row (j : Json) : Except Thrown GrepRow := do
  let name ← str j (Bytes.lit "name")
  let addr ← i64_addr j
  return { kind := Bytes.lit "comment", name := name, full_name := name, parent_name := []
           addr := addr }

def build_grep_rows : Raises (List GrepRow) := do
  let funcs ← array_rows "aflj" (push_array_row "func" none "name" none)
  let flags ← array_rows "fj" (push_array_row "flag" none "name" none)
  let imports ← array_rows "iij" (push_array_row "import" (some "plt") "name" (some "libname"))
  let exports ← array_rows "iEj" (push_array_row "export" (some "vaddr") "name" none)
  let sections ← array_rows "iSj" (push_array_row "section" (some "vaddr") "name" none)
  let comments ← array_rows "CCj" grep_comment_row
  return funcs ++ flags ++ imports ++ exports ++ sections ++ comments

def GrepPatternIterator (pattern : Bytes) : Raises (VecIterator GrepRow) := do
  let pat := effective_pattern pattern
  let all ← build_grep_rows
  return .make (all.filter fun r => like_match r.name pat || like_match r.full_name pat)

/-! ## types and types_members -/

def atomic_entry (j : Json) : Except Thrown (Bytes × Int64 × Bytes) := do
  return (← str j (Bytes.lit "type"), ← i64 j (Bytes.lit "size") (-1), ← str j (Bytes.lit "format"))

def atomic_info (tj : Json) : Except Thrown (List (Bytes × Int64 × Bytes)) :=
  if tj.is_object then do
    let arr ← if tj.contains (Bytes.lit "types") then tj.at_key (Bytes.lit "types")
      else pure (.array [])
    let entries ← arr.elements.mapM atomic_entry
    return entries.reverse
  else return []

/-- The loop over `j["fields"]`, where the object has an array of them. -/
def fields_of (j : Json) : Except Thrown (List Json) :=
  if j.is_object && j.contains (Bytes.lit "fields") then do
    let fields ← j.at_key (Bytes.lit "fields")
    return fields.items
  else return []

def field_size (f : Json) : Except Thrown Int64 := do
  let size ← i64 f (Bytes.lit "size")
  let ar ← i64 f (Bytes.lit "array_size") 1
  return size * (if ar ≤ 0 then 1 else ar)

def record_size (kind : Bytes) (fields : List Json) : Except Thrown Int64 := do
  let sizes ← fields.mapM field_size
  return if kind = Bytes.lit "struct" then sizes.foldl (fun total s => total + s) 0
    else sizes.foldl (fun largest s => if s > largest then s else largest) 0

def type_row (info : List (Bytes × Int64 × Bytes)) (name kind : Bytes) : Raises TypeRow :=
  let r : TypeRow := { name := name, kind := kind, size := -1, format := [] }
  if kind = Bytes.lit "atomic" ∨ kind = Bytes.lit "type" then
    match info.lookup name with
    | some (size, format) => return { r with size := size, format := format }
    | none => return r
  else if kind = Bytes.lit "struct" ∨ kind = Bytes.lit "union" then do
    let j ← cmd_json (record_command name kind)
    if j.is_object then
      let format ← str j (Bytes.lit "format")
      let fields ← fields_of j
      let size ← record_size kind fields
      return { r with size := size, format := format }
    else return r
  else return r

def types_cache_builder [CppLibrary] : Raises (List TypeRow) := do
  let tk ← cmd (Bytes.lit "tk*")
  let kinds := (parse_tk_dump tk).entries
  if kinds = [] then return []
  else
    let tj ← cmd_json (Bytes.lit "tj")
    let info ← atomic_info tj
    let rows ← (CppLibrary.iterate kinds).mapM fun p => type_row info p.1 p.2
    return CppLibrary.sort (fun a b => a.name < b.name) rows

def enum_value (v : Json) : Except Thrown Int64 :=
  if v.is_number_integer then v.get_int64 else return 0

def enum_row (name : Bytes) (p : Bytes × Json) : Except Thrown MemberRow := do
  return { type_name := name, parent_kind := Bytes.lit "enum", member_name := p.1, member_type := []
           offset := 0, size := 0, array_size := 0, value := ← enum_value p.2 }

def enum_rows (name : Bytes) (j : Json) : Except Thrown (List MemberRow) :=
  if j.is_object && j.contains (Bytes.lit "values") then do
    let values ← j.at_key (Bytes.lit "values")
    match values with
    | .object members => members.mapM (enum_row name)
    | _ => return []
  else return []

def field_row (name kind : Bytes) (f : Json) : Except Thrown MemberRow := do
  let member_name ← str f (Bytes.lit "name")
  let member_type ← str f (Bytes.lit "type")
  let offset ← i64 f (Bytes.lit "offset")
  let size ← i64 f (Bytes.lit "size")
  let array_size ← i64 f (Bytes.lit "array_size") 1
  return { type_name := name, parent_kind := kind, member_name := member_name
           member_type := member_type, offset := offset, size := size
           array_size := if array_size ≤ 0 then 1 else array_size, value := 0 }

def field_rows (name kind : Bytes) (j : Json) : Except Thrown (List MemberRow) := do
  let fields ← fields_of j
  fields.mapM (field_row name kind)

def member_rows (name kind : Bytes) : Raises (List MemberRow) :=
  if kind ∉ member_kinds then return []
  else if kind = Bytes.lit "enum" then do
    let j ← cmd_json (Bytes.lit "tej " ++ name)
    enum_rows name j
  else do
    let j ← cmd_json (record_command name kind)
    field_rows name kind j

def types_members_cache_builder [CppLibrary] : Raises (List MemberRow) := do
  let tk ← cmd (Bytes.lit "tk*")
  let kinds := (parse_tk_dump tk).entries
  if kinds = [] then return []
  else
    let rows ← (CppLibrary.iterate kinds).mapM fun p => member_rows p.1 p.2
    return CppLibrary.sort (fun a b =>
      if a.type_name ≠ b.type_name then a.type_name < b.type_name
      else a.offset < b.offset) rows.flatten

end checked

end r2sql
