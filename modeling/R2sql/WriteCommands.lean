-- The commands of the writes: whatever SQL supplies, each command is a fixed
-- text with the encoded operands in its holes, so a value can neither end a
-- command nor start another.
import R2sql.WritableTables
import R2sql.Lib.Templates

namespace r2sql

open json_utils templates

/-! ## Operands -/

/-- The ways in which a value stands in a command. -/
inductive Encoding where
  | name
  | text
  | addr
  deriving DecidableEq

/-- A value that SQL supplies and a command carries. -/
inductive Operand where
  | name (s : Bytes)
  | text (s : Bytes)
  | addr (a : Int64)
  deriving DecidableEq

namespace Operand

@[simp] def encoding : Operand → Encoding
  | name _ => .name
  | text _ => .text
  | addr _ => .addr

/-- The operand as it stands in a command. -/
@[simp] def written : Operand → Bytes
  | name s => s
  | text s => Bytes.lit "base64:" ++ base64_encode s
  | addr a => hex_addr a

/-- A written operand read back: names as they are, texts by a strict base64 decoder, addresses
modulo 2^64. -/
def read : Encoding → Bytes → Option Operand
  | .name, s => some (name s)
  | .text, s => (base64.decode (s.drop (Bytes.lit "base64:").length)).map text
  | .addr, s => some (addr (read_hex_addr s))

/-- The texts of an encoding. -/
def Encoded : Encoding → Bytes → Prop
  | .name, s => s ≠ [] ∧ ∀ c ∈ s, name_byte c
  | .text, s => ∃ letters, s = Bytes.lit "base64:" ++ letters ∧
      ∀ c ∈ letters, c ∈ base64.alphabet ∨ c = base64.pad
  | .addr, s => ∃ digits, digits ≠ [] ∧ s = Bytes.lit "0x" ++ digits ∧ ∀ c ∈ digits, hex.IsDigit c

/-- The only operands that a check guards are names. -/
@[simp] def Accepted : Operand → Prop
  | name s => valid_flag_name s
  | _ => True

theorem read_written (o : Operand) : read o.encoding o.written = some o := by
  cases o with
  | name s => rfl
  | text s =>
    rw [written, encoding, read, List.drop_left, base64_encode_eq, base64.decode_encode]
    rfl
  | addr a => rw [written, encoding, read, read_hex_addr_hex_addr]

theorem written_injective {o p : Operand} (hkind : o.encoding = p.encoding)
    (h : o.written = p.written) : o = p := by
  have ho := read_written o
  rw [hkind, h, read_written p] at ho
  exact (Option.some.inj ho).symm

theorem encoded {o : Operand} (h : o.Accepted) : Encoded o.encoding o.written := by
  cases o with
  | name s =>
    have hs : valid_flag_name s = true := h
    simp only [valid_flag_name, Bool.and_eq_true, decide_eq_true_eq, List.all_eq_true] at hs
    exact hs
  | text s =>
    refine ⟨base64_encode s, rfl, ?_⟩
    intro c hc
    rw [base64_encode_eq] at hc
    exact base64.mem_encode hc
  | addr a =>
    refine ⟨hex.print a.toUInt64.toNat, hex.print_ne_nil _, rfl, ?_⟩
    intro c hc
    exact hex.isDigit_of_mem_print hc

theorem name_byte_of_isDigit {c : UInt8} (h : hex.IsDigit c) : name_byte c := by
  rcases h with ⟨h0, h9⟩ | ⟨ha, hf⟩
  · simp [name_byte, h0, h9]
  · have hz : c ≤ 'z'.toUInt8 := UInt8.le_trans hf (by decide)
    simp [name_byte, ha, hz]

theorem harmless {k : Encoding} {s : Bytes} (h : Encoded k s) {c : UInt8} (hc : c ∈ s) :
    c ∉ reserved ∧ c ≠ '\''.toUInt8 := by
  have hname : ∀ c, name_byte c → c ∉ reserved ∧ c ≠ '\''.toUInt8 := by
    intro c h
    refine ⟨not_reserved_of_name_byte h, ?_⟩
    rintro rfl
    exact absurd h (by decide)
  have hmarks : ∀ c ∈ '\''.toUInt8 :: reserved, c ∉ base64.alphabet := by decide +kernel
  have hletter : ∀ c ∈ base64.alphabet, c ∉ reserved ∧ c ≠ '\''.toUInt8 := by
    intro c hc
    refine ⟨fun h => hmarks c (List.mem_cons_of_mem _ h) hc, ?_⟩
    rintro rfl
    exact hmarks _ List.mem_cons_self hc
  have hbase64 : ∀ c ∈ Bytes.lit "base64:", c ∉ reserved ∧ c ≠ '\''.toUInt8 := by decide +kernel
  have hprefix : ∀ c ∈ Bytes.lit "0x", c ∉ reserved ∧ c ≠ '\''.toUInt8 := by decide +kernel
  cases k with
  | name => exact hname c (h.2 c hc)
  | text =>
    obtain ⟨letters, rfl, hall⟩ := h
    rcases List.mem_append.mp hc with hc | hc
    · exact hbase64 c hc
    · rcases hall c hc with hc | rfl
      · exact hletter c hc
      · decide
  | addr =>
    obtain ⟨digits, -, rfl, hall⟩ := h
    rcases List.mem_append.mp hc with hc | hc
    · exact hprefix c hc
    · exact hname c (name_byte_of_isDigit (hall c hc))

end Operand

/-! ## Writes -/

/-- A write with all that SQL supplies. The setters also get the row. -/
inductive Write where
  | funcs_name (r : FuncRow) (v : Option Bytes)
  | funcs_insert (argv : List FunctionArg)
  | flags_name (r : FlagRow) (v : Option Bytes)
  | flags_insert (argv : List FunctionArg)
  | bookmarks_name (r : BookmarkRow) (v : Option Bytes)
  | bookmarks_insert (argv : List FunctionArg)
  | comments_text (r : CommentRow) (v : Option Bytes)
  | comments_insert (argv : List FunctionArg)
  | project_save (argv : List FunctionArg)
  | project_open (argv : List FunctionArg)

/-- The operation of a write, with the one part of its row that comes from radare2 and stands in a
command. -/
inductive Operation where
  | funcs_name
  | funcs_insert
  | flags_name (old : Bytes)
  | flags_insert
  | bookmarks_name (old : Bytes)
  | bookmarks_insert
  | comments_text
  | comments_insert
  | project_save
  | project_open

namespace Write

@[simp] def operation : Write → Operation
  | funcs_name _ _ => .funcs_name
  | funcs_insert _ => .funcs_insert
  | flags_name r _ => .flags_name r.name
  | flags_insert _ => .flags_insert
  | bookmarks_name r _ => .bookmarks_name r.name
  | bookmarks_insert _ => .bookmarks_insert
  | comments_text _ _ => .comments_text
  | comments_insert _ => .comments_insert
  | project_save _ => .project_save
  | project_open _ => .project_open

/-- The commands that the write sends, oldest first. -/
def sent (be : Backend) : Write → List Bytes
  | funcs_name r v => (funcs_name_setter r v).asked be
  | funcs_insert argv => (funcs_insertable argv).asked be
  | flags_name r v => (flags_name_setter r v).asked be
  | flags_insert argv => (flags_insertable argv).asked be
  | bookmarks_name r v => (bookmarks_name_setter r v).asked be
  | bookmarks_insert argv => (bookmarks_insertable argv).asked be
  | comments_text r v => (comments_text_setter r v).asked be
  | comments_insert argv => (comments_insertable argv).asked be
  | project_save argv => (r2sql_project_save argv).asked be
  | project_open argv => (r2sql_project_open argv).asked be

/-- The project name that a call gives. -/
def project_name (argv : List FunctionArg) : Option Bytes :=
  (supplied argv 0).bind fun arg => accepted (some arg.as_text)

theorem valid_of_project_name {argv : List FunctionArg} {name : Bytes}
    (h : project_name argv = some name) : valid_flag_name name := by
  obtain ⟨arg, -, harg⟩ := Option.bind_eq_some_iff.mp h
  exact valid_of_accepted harg

/-- The values of the write that its commands carry, the address of the row among them. A write that
is refused carries none. -/
@[simp] def carried : Write → List Operand
  | funcs_name r v => ((accepted v).map fun name => [.name name, .addr r.addr]).getD []
  | funcs_insert argv =>
    match supplied argv 0, (supplied argv 1).bind fun n => accepted n.as_c_str with
    | some a, some name => [.addr a.as_int64, .name name]
    | some a, none => [.addr a.as_int64]
    | none, _ => []
  | flags_name r v => ((accepted v).map fun name => [.name name, .addr r.addr]).getD []
  | flags_insert argv => ((inserted argv 0).map fun p => [.name p.2, .addr p.1]).getD []
  | bookmarks_name _ v => ((accepted v).map fun name => [.name name]).getD []
  | bookmarks_insert argv => ((inserted argv 1).map fun p => [.name p.2, .addr p.1]).getD []
  | comments_text r v => [.text (v.getD []), .addr r.addr]
  | comments_insert argv =>
    match supplied argv 0, supplied argv 2 with
    | some a, some t => [.text (t.as_c_str.getD []), .addr a.as_int64]
    | _, _ => []
  | project_save argv => ((project_name argv).map fun name => [.name name]).getD []
  | project_open argv => ((project_name argv).map fun name => [.name name]).getD []

end Write

/-! ## Templates -/

namespace Operation

/-- The lists of values that an operation can carry. -/
@[simp] def shapes : Operation → List (List Encoding)
  | funcs_name => [[], [.name, .addr]]
  | funcs_insert => [[], [.addr], [.addr, .name]]
  | flags_name _ => [[], [.name, .addr]]
  | flags_insert => [[], [.name, .addr]]
  | bookmarks_name _ => [[], [.name]]
  | bookmarks_insert => [[], [.name, .addr]]
  | comments_text => [[.text, .addr]]
  | comments_insert => [[], [.text, .addr]]
  | project_save => [[], [.name]]
  | project_open => [[], [.name]]

/-- A command of radare2 with one hole. -/
def one (command : Bytes) (i : Nat) : Template UInt8 := [.text command, .hole i]

@[simp] theorem fill_one (operands : List Bytes) (command : Bytes) (i : Nat) :
    fill operands (one command i) = command ++ operands.getD i [] := by
  simp [one, fill]

/-- A command of radare2 with an operand, at an address. -/
def one_at (command : String) (i j : Nat) : Template UInt8 :=
  [.text (Bytes.lit command), .hole i, .text (Bytes.lit " @ "), .hole j]

@[simp] theorem fill_one_at (operands : List Bytes) (command : String) (i j : Nat) :
    fill operands (one_at command i j) =
      Bytes.lit command ++ operands.getD i [] ++ Bytes.lit " @ " ++ operands.getD j [] := by
  simp [one_at, fill]

/-- The commands of the bookmarks around one template. -/
def one_in_bookmarks (t : Template UInt8) : List (Template UInt8) :=
  [[.text (Bytes.lit "fss*")], [.text (Bytes.lit "fs bookmarks")], t, [.text (Bytes.lit "fsr-")]]

/-- The commands of an operation that carries values of the given encodings. -/
@[simp] def templates : Operation → List Encoding → List (Template UInt8)
  | funcs_name, [_, _] => [one_at "afn " 0 1]
  | funcs_insert, [_] => [one (Bytes.lit "af @ ") 0]
  | funcs_insert, [_, _] => [one (Bytes.lit "af @ ") 0, one_at "afn " 1 0]
  | flags_name old, [_, _] =>
    [one_at "afn " 0 1, one (Bytes.lit "fr " ++ old ++ Bytes.lit " ") 0]
  | flags_insert, [_, _] => [one_at "f " 0 1]
  | bookmarks_name old, [_] => one_in_bookmarks (one (Bytes.lit "fr " ++ old ++ Bytes.lit " ") 0)
  | bookmarks_insert, [_, _] => one_in_bookmarks (one_at "f " 0 1)
  | comments_text, [_, _] => [one_at "CCu " 0 1]
  | comments_insert, [_, _] => [one_at "CCu " 0 1]
  | project_save, [_] => [one (Bytes.lit "Ps ") 0]
  | project_open, [_] => [one (Bytes.lit "P ") 0]
  | _, _ => []

theorem templates_ok (op : Operation) : ∀ shape ∈ op.shapes, ∀ t ∈ op.templates shape,
    (∀ i ∈ holes t, i < shape.length) ∧ (holes t).Nodup ∧ separated ' '.toUInt8 t := by
  have hat : (Bytes.lit " @ ").head? = some ' '.toUInt8 := by decide
  cases op <;> simp [shapes, templates, one, one_at, one_in_bookmarks, holes, separated, hat]

theorem templates_use_all (op : Operation) : ∀ shape ∈ op.shapes,
    ∀ i < shape.length, ∃ t ∈ op.templates shape, i ∈ holes t := by
  cases op <;> simp [shapes, templates, one, one_at, one_in_bookmarks, holes] <;> omega

/-- The number of commands tells which values an operation carries. -/
theorem shape_of_length (op : Operation) : ∀ shape ∈ op.shapes, ∀ shape' ∈ op.shapes,
    (op.templates shape).length = (op.templates shape').length → shape = shape' := by
  cases op <;> simp [shapes, templates, one_in_bookmarks]

end Operation

/-! ## The commands of a write -/

namespace Write

/-- The templates of the commands of a write. They do not depend on the values that it carries. -/
def templates (w : Write) : List (Template UInt8) :=
  w.operation.templates (w.carried.map Operand.encoding)

/-- The values of a write as they stand in its commands. -/
def written (w : Write) : List Bytes := w.carried.map Operand.written

theorem shape_mem (w : Write) : w.carried.map Operand.encoding ∈ w.operation.shapes := by
  cases w with
  | funcs_name r v | flags_name r v | bookmarks_name r v => cases h : accepted v <;> simp [h]
  | flags_insert argv => cases h : inserted argv 0 <;> simp [h]
  | bookmarks_insert argv => cases h : inserted argv 1 <;> simp [h]
  | project_save argv | project_open argv => cases h : project_name argv <;> simp [h]
  | comments_text r v => simp
  | funcs_insert argv | comments_insert argv =>
    simp only [carried]
    split <;> simp

theorem all_accepted {α : Type} {o : Option α} {operands : α → List Operand}
    (h : ∀ a, o = some a → ∀ p ∈ operands a, p.Accepted) :
    ∀ p ∈ (o.map operands).getD [], p.Accepted := by
  cases o with
  | none => simp
  | some a => simpa using h a rfl

theorem accepted_of_carried (w : Write) : ∀ o ∈ w.carried, o.Accepted := by
  cases w with
  | funcs_name r v | flags_name r v | bookmarks_name r v =>
    apply all_accepted
    intro name h
    simpa using valid_of_accepted h
  | flags_insert argv | bookmarks_insert argv =>
    apply all_accepted
    intro p h
    simpa using valid_of_inserted h
  | project_save argv | project_open argv =>
    apply all_accepted
    intro name h
    simpa using valid_of_project_name h
  | comments_text r v => simp
  | comments_insert argv =>
    simp only [carried]
    split <;> simp
  | funcs_insert argv =>
    simp only [carried]
    split
    · rename_i a name _ hname
      obtain ⟨n, -, hn⟩ := Option.bind_eq_some_iff.mp hname
      simpa using valid_of_accepted hn
    · simp
    · simp

theorem asked_project_function (be : Backend) (command answer : String) (argv : List FunctionArg) :
    (project_function command answer argv).asked be =
      ((project_name argv).map fun name => [Bytes.lit command ++ name]).getD [] := by
  unfold project_function project_name
  cases supplied argv 0 with
  | none => rfl
  | some arg =>
    rw [Option.bind_some, accepted_eq]
    simp only [Option.getD_some]
    by_cases hempty : arg.as_text = []
    · simp [hempty, valid_flag_name]
    · by_cases hvalid : valid_flag_name arg.as_text = false <;> simp [hempty, hvalid]

theorem asked_funcs_insertable (be : Backend) (argv : List FunctionArg) :
    (funcs_insertable argv).asked be =
      match supplied argv 0, (supplied argv 1).bind fun n => accepted n.as_c_str with
      | some a, some name => [Bytes.lit "af @ " ++ hex_addr a.as_int64, afn name a.as_int64]
      | some a, none => [Bytes.lit "af @ " ++ hex_addr a.as_int64]
      | none, _ => [] := by
  unfold funcs_insertable
  cases supplied argv 0 with
  | none => rfl
  | some a =>
    cases supplied argv 1 with
    | none => simp
    | some n =>
      rw [Option.bind_some, accepted_eq]
      by_cases hempty : n.as_c_str.getD [] = []
      · simp [hempty]
      · by_cases hvalid : valid_flag_name (n.as_c_str.getD []) = false <;> simp [hempty, hvalid]

theorem sent_eq (be : Backend) (w : Write) : w.sent be = w.templates.map (fill w.written) := by
  have hccu : Bytes.lit "CCu base64:" = Bytes.lit "CCu " ++ Bytes.lit "base64:" := rfl
  unfold templates written
  cases w with
  | funcs_name r v =>
    rw [sent, funcs_name_setter, asked_name_setter]
    cases h : accepted v <;> simp [h, afn]
  | funcs_insert argv =>
    rw [sent, asked_funcs_insertable, carried]
    split <;> simp [afn]
  | flags_name r v =>
    rw [sent, flags_name_setter, asked_name_setter]
    cases h : accepted v <;> simp [h, afn, fr]
  | flags_insert argv =>
    rw [sent, flags_insertable, asked_named_insert]
    cases h : inserted argv 0 <;> simp [h, f_at]
  | bookmarks_name r v =>
    rw [sent, bookmarks_name_setter, asked_name_setter]
    cases h : accepted v <;> simp [h, Operation.one_in_bookmarks, in_bookmarks, fill, fr]
  | bookmarks_insert argv =>
    rw [sent, bookmarks_insertable, asked_named_insert]
    cases h : inserted argv 1 <;> simp [h, Operation.one_in_bookmarks, in_bookmarks, fill, f_at]
  | comments_text r v => simp [sent, comments_text_setter, ccu, hccu]
  | comments_insert argv =>
    rw [sent, comments_insertable, carried]
    cases supplied argv 0 <;> cases supplied argv 2 <;> simp [ccu, hccu]
  | project_save argv =>
    rw [sent, r2sql_project_save, asked_project_function]
    cases h : project_name argv <;> simp [h]
  | project_open argv =>
    rw [sent, r2sql_project_open, asked_project_function]
    cases h : project_name argv <;> simp [h]

theorem harmless (w : Write) : ∀ s ∈ w.written, ∀ c ∈ s, c ∉ reserved ∧ c ≠ '\''.toUInt8 := by
  intro s hs c hc
  obtain ⟨o, ho, rfl⟩ := List.mem_map.mp hs
  exact Operand.harmless (Operand.encoded (w.accepted_of_carried o ho)) hc

theorem no_space (w : Write) : ∀ s ∈ w.written, ' '.toUInt8 ∉ s := by
  intro s hs hc
  exact (w.harmless s hs _ hc).1 (by decide)

theorem templates_ok (w : Write) : ∀ t ∈ w.templates,
    (∀ i ∈ holes t, i < w.written.length) ∧ (holes t).Nodup ∧ separated ' '.toUInt8 t := by
  have h := w.operation.templates_ok _ w.shape_mem
  rw [List.length_map] at h
  rw [written, List.length_map]
  exact h

theorem templates_use_all (w : Write) : ∀ i < w.written.length, ∃ t ∈ w.templates, i ∈ holes t := by
  have h := w.operation.templates_use_all _ w.shape_mem
  rw [List.length_map] at h
  rw [written, List.length_map]
  exact h

theorem carried_of_sent {be be' : Backend} {w w' : Write} (hop : w'.operation = w.operation)
    (h : w'.sent be' = w.sent be) : w'.carried = w.carried := by
  rw [sent_eq, sent_eq] at h
  have hshape : w'.carried.map Operand.encoding = w.carried.map Operand.encoding := by
    apply w.operation.shape_of_length
    · exact hop ▸ w'.shape_mem
    · exact w.shape_mem
    · have hlen := congrArg List.length h
      rw [List.length_map, List.length_map, templates, templates, hop] at hlen
      exact hlen
  have htemplates : w'.templates = w.templates := by rw [templates, templates, hop, hshape]
  have hlen : w'.written.length = w.written.length := by
    have hlen := congrArg List.length hshape
    rw [List.length_map, List.length_map] at hlen
    rw [written, written, List.length_map, List.length_map]
    exact hlen
  rw [htemplates] at h
  have hwritten : w'.written = w.written := by
    apply fill_injective (fun t ht => (w.templates_ok t ht).2.2) hlen _ w'.no_space w.no_space h
    rw [hlen]
    exact w.templates_use_all
  -- the encoding and the written form of an operand tell which operand it is
  have hinj : Function.Injective fun o : Operand => (o.encoding, o.written) := by
    intro o p hop
    exact Operand.written_injective (Prod.mk.inj hop).1 (Prod.mk.inj hop).2
  apply List.map_injective_iff.mpr hinj
  rw [← List.zip_map', ← List.zip_map', hshape]
  exact congrArg _ hwritten

end Write

/-- What it takes for the values that SQL supplies to stay values. -/
structure Contained (be : Backend) (w : Write) : Prop where
  /-- Each command is a template of the operation, with the written values in its holes. -/
  filled : w.sent be = w.templates.map (fill w.written)
  /-- Around a value in a command stand two texts that do not depend on it. -/
  spliced : ∀ t ∈ w.templates, ∀ i ∈ holes t, i < w.written.length ∧
    ∃ before after, ∀ o, fill (w.written.set i o) t = before ++ o ++ after
  used : ∀ i < w.written.length, ∃ t ∈ w.templates, i ∈ holes t
  encoded : ∀ o ∈ w.carried, Operand.Encoded o.encoding o.written
  harmless : ∀ s ∈ w.written, ∀ c ∈ s, c ∉ reserved ∧ c ≠ '\''.toUInt8
  recovered : ∀ o ∈ w.carried, Operand.read o.encoding o.written = some o
  determined : ∀ (be' : Backend) (w' : Write), w'.operation = w.operation →
    w'.sent be' = w.sent be → w'.carried = w.carried

/-- Every command of every write keeps the values that SQL supplies inside their operands. -/
theorem sql_values_stay_operands (be : Backend) (w : Write) : Contained be w where
  filled := w.sent_eq be
  spliced := by
    intro t ht i hi
    obtain ⟨hbound, honce, -⟩ := w.templates_ok t ht
    exact ⟨hbound i hi, fill_set w.written (hbound i hi) hi honce⟩
  used := w.templates_use_all
  encoded := by
    intro o ho
    exact Operand.encoded (w.accepted_of_carried o ho)
  harmless := w.harmless
  recovered := by
    intro o _
    exact Operand.read_written o
  determined := by
    intro be' w' hop h
    exact Write.carried_of_sent hop h

end r2sql
