-- The tables that the CLI and the plugin print for a statement, and what can be
-- read back from their texts.
import R2sql.Lib.Delimited
import R2sql.Ports
import R2sql.R2Launch
import R2sql.Transports

namespace r2sql

open json_utils

def tab : UInt8 := '\t'.toUInt8

/-! ## What is printed -/

/-- What the CLI writes on its two streams. -/
structure Printed where
  stdout : Bytes
  stderr : Bytes
  deriving DecidableEq

/-- `print_result`. A cell is printed as a C string. -/
def print_result : QueryResult → Printed
  | .error message => ⟨[], Bytes.lit "error: " ++ c_str message ++ Bytes.lit "\n"⟩
  | .rows columns rows =>
    if columns = [] then ⟨[], []⟩
    else ⟨delimited.write tab newline ((columns :: rows).map fun row => row.map c_str), []⟩

/-- The line after the rows of a table. -/
def rows_line (n : Nat) : Bytes := Bytes.lit "(" ++ to_string n ++ Bytes.lit " rows)"

/-- `render_table`. -/
def render_table : QueryResult → Bytes
  | .error message => Bytes.lit "ERROR: " ++ message ++ Bytes.lit "\n"
  | .rows columns rows =>
    delimited.write tab newline (columns :: rows) ++ (rows_line rows.length ++ Bytes.lit "\n")

/-- What `dispatch` prints for a result, as a C string. -/
def plugin_print (r : QueryResult) : Bytes := c_str (render_table r)

/-! ## What is read -/

/-- The header and the rows in a text of the CLI. -/
def read_cli (text : Bytes) : List (List Bytes) := delimited.read tab newline text

/-- The header and the rows in a text of the plugin, without the line after them. -/
def read_plugin (text : Bytes) : List (List Bytes) := (delimited.read tab newline text).dropLast

/-- A cell without a tab, a newline and a NUL. -/
def PlainCell (c : Bytes) : Prop := tab ∉ c ∧ newline ∉ c ∧ 0 ∉ c

instance (c : Bytes) : Decidable (PlainCell c) := inferInstanceAs (Decidable (_ ∧ _))

def PlainRows (rows : List (List Bytes)) : Prop := ∀ row ∈ rows, ∀ c ∈ row, PlainCell c

theorem nul_notMem_c_str (s : Bytes) : 0 ∉ c_str s := by
  unfold c_str before_nul
  intro h
  simpa using List.mem_takeWhile_imp h

theorem plain_rows_line (n : Nat) : PlainCell (rows_line n) := by
  have hdigits : ∀ c ∈ to_string n, digit_value c < 10 := by
    have htext : to_string n = numerals.print 10 n := numerals.lit_toString n
    rw [htext]
    exact digits_print n
  have hne : ∀ a : UInt8, ¬ digit_value a < 10 → a ∉ Bytes.lit "(" → a ∉ Bytes.lit " rows)" →
      a ∉ rows_line n := by
    intro a ha hopen hclose h
    rcases List.mem_append.mp h with h | h
    · rcases List.mem_append.mp h with h | h
      · exact hopen h
      · exact ha (hdigits a h)
    · exact hclose h
  exact ⟨hne _ (by decide) (by decide) (by decide), hne _ (by decide) (by decide) (by decide),
    hne _ (by decide) (by decide) (by decide)⟩

section
variable {rows : List (List Bytes)}

theorem map_c_str_of_plain (h : PlainRows rows) : (rows.map fun row => row.map c_str) = rows := by
  conv_rhs => rw [← List.map_id rows]
  exact List.map_congr_left fun row hrow => map_c_str_eq_self fun c hc => (h row hrow c hc).2.2

theorem nul_notMem_write (h : ∀ row ∈ rows, ∀ c ∈ row, 0 ∉ c) :
    0 ∉ delimited.write tab newline rows := by
  intro hnul
  rcases delimited.mem_write hnul with htab | hnewline | ⟨row, hrow, c, hc, hmem⟩
  · exact absurd htab (by decide)
  · exact absurd hnewline (by decide)
  · exact h row hrow c hc hmem

theorem plain_read {text : Bytes} (h : 0 ∉ text) : PlainRows (delimited.read tab newline text) := by
  intro row hrow c hc
  obtain ⟨htab, hnewline, hmem⟩ := delimited.of_mem_read hrow hc
  exact ⟨htab, hnewline, fun hnul => h (hmem 0 hnul)⟩

theorem marks_of_plain (h : PlainRows rows) : ∀ row ∈ rows, ∀ c ∈ row, tab ∉ c ∧ newline ∉ c :=
  fun row hrow c hc => ⟨(h row hrow c hc).1, (h row hrow c hc).2.1⟩

end

/-! ## The law of the texts -/

/-- What a text tells about a table. -/
structure TextsTell (columns : List Bytes) (rows : List (List Bytes)) : Prop where
  cli : read_cli (print_result (.rows columns rows)).stdout = columns :: rows ↔
    PlainRows (columns :: rows)
  plugin : read_plugin (plugin_print (.rows columns rows)) = columns :: rows ↔
    PlainRows (columns :: rows)
  same : PlainRows (columns :: rows) → plugin_print (.rows columns rows) =
    (print_result (.rows columns rows)).stdout ++ (rows_line rows.length ++ Bytes.lit "\n")

/-- A table can be read back from its text if and only if no cell has a tab, a newline or a NUL, in
the CLI and in radare2 alike. -/
theorem texts_tell_plain_tables {columns : List Bytes} {rows : List (List Bytes)}
    (hcolumns : columns ≠ []) (hwidth : ∀ row ∈ rows, row.length = columns.length) :
    TextsTell columns rows := by
  have hrows : ∀ row ∈ columns :: rows, row ≠ [] := by
    refine List.forall_mem_cons.mpr ⟨hcolumns, fun row hrow hnil => hcolumns ?_⟩
    rw [← List.length_eq_zero_iff, ← hwidth row hrow, hnil, List.length_nil]
  have hne : tab ≠ newline := by decide
  have hcli : (print_result (.rows columns rows)).stdout =
      delimited.write tab newline ((columns :: rows).map fun row => row.map c_str) := by
    simp only [print_result, if_neg hcolumns]
  have hsame : PlainRows (columns :: rows) → plugin_print (.rows columns rows) =
      delimited.write tab newline (columns :: rows) ++
        (rows_line rows.length ++ newline :: []) := by
    intro hplain
    have hnul := nul_notMem_write fun row hrow c hc => (hplain row hrow c hc).2.2
    apply c_str_eq_self
    intro h
    rcases List.mem_append.mp h with h | h
    · exact hnul h
    · rcases List.mem_append.mp h with h | h
      · exact (plain_rows_line _).2.2 h
      · exact absurd h (by decide)
  refine ⟨⟨fun h => ?_, fun hplain => ?_⟩, ⟨fun h => ?_, fun hplain => ?_⟩, fun hplain => ?_⟩
  · rw [← h]
    apply plain_read
    rw [hcli]
    apply nul_notMem_write
    intro row hrow c hc
    obtain ⟨row, -, rfl⟩ := List.mem_map.mp hrow
    obtain ⟨c, -, rfl⟩ := List.mem_map.mp hc
    exact nul_notMem_c_str c
  · rw [hcli, map_c_str_of_plain hplain]
    exact delimited.read_write hne hrows (marks_of_plain hplain)
  · rw [← h]
    intro row hrow
    exact plain_read (nul_notMem_c_str _) row (List.mem_of_mem_dropLast hrow)
  · have hcount := plain_rows_line rows.length
    have hline : [tab].intercalate [rows_line rows.length] = rows_line rows.length :=
      List.intercalate_singleton
    rw [read_plugin, hsame hplain,
      delimited.read_write_append hne hrows (marks_of_plain hplain), ← hline,
      delimited.read_append hne (by simp) (by simpa using ⟨hcount.1, hcount.2.1⟩)]
    exact List.dropLast_concat
  · rw [hsame hplain, hcli, map_c_str_of_plain hplain]
    rfl

/-- The table of one function. -/
theorem the_table_of_main_is_read_back :
    read_plugin (plugin_print (.rows [Bytes.lit "addr", Bytes.lit "name"]
      [[Bytes.lit "4096", Bytes.lit "main"]])) =
      [[Bytes.lit "addr", Bytes.lit "name"], [Bytes.lit "4096", Bytes.lit "main"]] := by
  refine (texts_tell_plain_tables (by decide) ?_).plugin.mpr ?_
  · decide
  · unfold PlainRows
    decide +kernel

end r2sql
