-- Names that `valid_flag_name` refuses: the operation fails, sends nothing and
-- leaves its row alone. INSERT into funcs is the one that does otherwise.
import R2sql.WritableTables

namespace r2sql

open json_utils

/-! ## Operations on a name -/

/-- An operation that takes a name, with all that it reads. -/
inductive NamedOperation where
  | funcs_update (r : FuncRow) (v : Option Bytes)
  | funcs_insert (argv : List FunctionArg)
  | flags_update (r : FlagRow) (v : Option Bytes)
  | flags_insert (argv : List FunctionArg)
  | bookmarks_update (r : BookmarkRow) (v : Option Bytes)
  | bookmarks_insert (argv : List FunctionArg)
  | types_delete (r : TypeRow)
  | projects_delete (r : ProjectRow)
  | project_save (argv : List FunctionArg)
  | project_open (argv : List FunctionArg)

/-- The row after a write. -/
def Outcome.row {Row : Type} (before : Row) : Outcome Row → Row
  | .ok r => r
  | .refused _ => before

namespace NamedOperation

/-- The name that the operation takes, where there is one. -/
def operand : NamedOperation → Option Bytes
  | funcs_update _ v | flags_update _ v | bookmarks_update _ v => v
  | funcs_insert argv => (supplied argv 1).bind FunctionArg.as_c_str
  | flags_insert argv | bookmarks_insert argv => (supplied argv 2).bind FunctionArg.as_c_str
  | types_delete r => some r.name
  | projects_delete r => some r.name
  | project_save argv | project_open argv => (supplied argv 0).map FunctionArg.as_text

/-- The name is not empty, and not valid. -/
def TakesBadName (op : NamedOperation) : Prop :=
  ∃ name, op.operand = some name ∧ name ≠ [] ∧ valid_flag_name name = false

variable (be : Backend)

/-- The commands of the operation. -/
def sent : NamedOperation → List Bytes
  | funcs_update r v => (funcs_name_setter r v).asked be
  | funcs_insert argv => (funcs_insertable argv).asked be
  | flags_update r v => (flags_name_setter r v).asked be
  | flags_insert argv => (flags_insertable argv).asked be
  | bookmarks_update r v => (bookmarks_name_setter r v).asked be
  | bookmarks_insert argv => (bookmarks_insertable argv).asked be
  | types_delete r => (types_deletable r).asked be
  | projects_delete r => (projects_deletable r).asked be
  | project_save argv => (r2sql_project_save argv).asked be
  | project_open argv => (r2sql_project_open argv).asked be

/-- The operation returns false, or the text of an error. -/
def Fails : NamedOperation → Prop
  | funcs_update r v => ∃ e, (funcs_name_setter r v).value be = .refused e
  | funcs_insert argv => ∃ e, (funcs_insertable argv).value be = .refused e
  | flags_update r v => ∃ e, (flags_name_setter r v).value be = .refused e
  | flags_insert argv => ∃ e, (flags_insertable argv).value be = .refused e
  | bookmarks_update r v => ∃ e, (bookmarks_name_setter r v).value be = .refused e
  | bookmarks_insert argv => ∃ e, (bookmarks_insertable argv).value be = .refused e
  | types_delete r => ∃ e, (types_deletable r).value be = .refused e
  | projects_delete r => ∃ e, (projects_deletable r).value be = .refused e
  | project_save argv => Bytes.lit "error:" <+: (r2sql_project_save argv).value be
  | project_open argv => Bytes.lit "error:" <+: (r2sql_project_open argv).value be

/-- The row in memory stays as it was, where the operation has one. -/
def KeepsRow : NamedOperation → Prop
  | funcs_update r v => ((funcs_name_setter r v).value be).row r = r
  | flags_update r v => ((flags_name_setter r v).value be).row r = r
  | bookmarks_update r v => ((bookmarks_name_setter r v).value be).row r = r
  | types_delete r => ((types_deletable r).value be).row r = r
  | projects_delete r => ((projects_deletable r).value be).row r = r
  | _ => True

/-- The operation does nothing but fail. -/
structure Untouched (op : NamedOperation) : Prop where
  fails : op.Fails be
  silent : op.sent be = []
  keeps_row : op.KeepsRow be

/-- An INSERT into funcs that has an address. It defines the function before it looks at the
name, and leaves a bad name out. -/
def DefinesUnnamed (op : NamedOperation) : Prop :=
  ∃ argv, op = .funcs_insert argv ∧ (supplied argv 0).isSome

end NamedOperation

/-! ## The checks -/

theorem name_setter_refuses {Row : Type} (table : String) (commands : Row → Bytes → List Bytes)
    (rename : Row → Bytes → Row) (r : Row) {name : Bytes} (hname : name ≠ [])
    (hbad : valid_flag_name name = false) :
    name_setter table commands rename r (some name) =
      pure (.refused (some (invalid_name table))) := by
  simp [name_setter, hname, hbad]

theorem named_insert_refuses (table : String) (addr_column : Nat)
    (commands : Bytes → Int64 → List Bytes) {argv : List FunctionArg} {name : Bytes}
    (hoperand : (supplied argv 2).bind FunctionArg.as_c_str = some name) (hname : name ≠ [])
    (hbad : valid_flag_name name = false) :
    ∃ e, named_insert table addr_column commands argv = pure (.refused e) := by
  obtain ⟨n, hn, htext⟩ := Option.bind_eq_some_iff.mp hoperand
  unfold named_insert
  cases supplied argv addr_column with
  | none => exact ⟨_, rfl⟩
  | some a => exact ⟨some (invalid_name table), by simp [hn, htext, hname, hbad]⟩

theorem named_delete_refuses {Row : Type} (table what command : String) (name : Row → Bytes)
    {r : Row} (hbad : valid_flag_name (name r) = false) :
    ∃ e, named_delete table what command name r = pure (.refused e) := by
  unfold named_delete
  rw [if_pos (Or.inr hbad)]
  exact ⟨_, rfl⟩

theorem project_function_refuses (command answer : String) {argv : List FunctionArg} {name : Bytes}
    (hoperand : (supplied argv 0).map FunctionArg.as_text = some name)
    (hbad : valid_flag_name name = false) :
    project_function command answer argv = pure (Bytes.lit "error: invalid project name") := by
  obtain ⟨arg, harg, rfl⟩ := Option.map_eq_some_iff.mp hoperand
  unfold project_function
  rw [harg]
  exact if_pos hbad

/-! A write that refuses at once fails, sends nothing and leaves the row. -/

section
variable (be : Backend) {Row : Type} {m : R2 (Outcome Row)} {e : Option Bytes}

theorem fails_of_eq (h : m = pure (.refused e)) : ∃ e, m.value be = .refused e :=
  ⟨e, congrArg (Dialogue.value be) h⟩

theorem asked_of_eq (h : m = pure (.refused e)) : m.asked be = [] :=
  congrArg (Dialogue.asked be) h

theorem row_of_eq (r : Row) (h : m = pure (.refused e)) : (m.value be).row r = r :=
  congrArg (fun m => (Dialogue.value be m).row r) h

end

theorem funcs_insertable_sends (be : Backend) {argv : List FunctionArg} {a : FunctionArg}
    (ha : supplied argv 0 = some a) :
    Bytes.lit "af @ " ++ hex_addr a.as_int64 ∈ (funcs_insertable argv).asked be := by
  unfold funcs_insertable
  rw [ha]
  simp

/-! ## The law -/

open NamedOperation

/-- An operation fails on a bad name, sends nothing and leaves its row alone, exactly when it is
not an INSERT into funcs that has an address and a bad name. -/
theorem bad_names_leave_everything_untouched (be : Backend) (op : NamedOperation) :
    (op.TakesBadName → op.Untouched be) ↔ ¬ (op.DefinesUnnamed ∧ op.TakesBadName) := by
  constructor
  · rintro h ⟨⟨argv, rfl, ha⟩, hbad⟩
    obtain ⟨a, ha⟩ := Option.isSome_iff_exists.mp ha
    have hsilent := (h hbad).silent
    have hsends := funcs_insertable_sends be ha
    rw [show (funcs_insertable argv).asked be = [] from hsilent] at hsends
    cases hsends
  · rintro h ⟨name, hoperand, hname, hbad⟩
    have hnot : ¬ op.DefinesUnnamed := fun hdefines => h ⟨hdefines, name, hoperand, hname, hbad⟩
    cases op with
    | funcs_update r v =>
      cases hoperand
      have heq : funcs_name_setter r (some name) = _ := name_setter_refuses _ _ _ r hname hbad
      exact ⟨fails_of_eq be heq, asked_of_eq be heq, row_of_eq be r heq⟩
    | flags_update r v =>
      cases hoperand
      have heq : flags_name_setter r (some name) = _ := name_setter_refuses _ _ _ r hname hbad
      exact ⟨fails_of_eq be heq, asked_of_eq be heq, row_of_eq be r heq⟩
    | bookmarks_update r v =>
      cases hoperand
      have heq : bookmarks_name_setter r (some name) = _ := name_setter_refuses _ _ _ r hname hbad
      exact ⟨fails_of_eq be heq, asked_of_eq be heq, row_of_eq be r heq⟩
    | funcs_insert argv =>
      have ha : supplied argv 0 = none := by
        rw [← Option.not_isSome_iff_eq_none]
        exact fun ha => hnot ⟨argv, rfl, ha⟩
      have heq : funcs_insertable argv =
          pure (.refused (some (Bytes.lit "funcs: INSERT requires addr"))) := by
        rw [funcs_insertable, ha]
      exact ⟨fails_of_eq be heq, asked_of_eq be heq, trivial⟩
    | flags_insert argv =>
      obtain ⟨e, heq⟩ : ∃ e, flags_insertable argv = pure (.refused e) :=
        named_insert_refuses _ _ _ hoperand hname hbad
      exact ⟨fails_of_eq be heq, asked_of_eq be heq, trivial⟩
    | bookmarks_insert argv =>
      obtain ⟨e, heq⟩ : ∃ e, bookmarks_insertable argv = pure (.refused e) :=
        named_insert_refuses _ _ _ hoperand hname hbad
      exact ⟨fails_of_eq be heq, asked_of_eq be heq, trivial⟩
    | types_delete r =>
      cases hoperand
      obtain ⟨e, heq⟩ : ∃ e, types_deletable r = pure (.refused e) :=
        named_delete_refuses _ _ _ _ hbad
      exact ⟨fails_of_eq be heq, asked_of_eq be heq, row_of_eq be r heq⟩
    | projects_delete r =>
      cases hoperand
      obtain ⟨e, heq⟩ : ∃ e, projects_deletable r = pure (.refused e) :=
        named_delete_refuses _ _ _ _ hbad
      exact ⟨fails_of_eq be heq, asked_of_eq be heq, row_of_eq be r heq⟩
    | project_save argv =>
      have heq : r2sql_project_save argv = _ := project_function_refuses _ _ hoperand hbad
      refine ⟨?_, congrArg (Dialogue.asked be) heq, trivial⟩
      show Bytes.lit "error:" <+: _
      rw [heq]
      exact ⟨_, rfl⟩
    | project_open argv =>
      have heq : r2sql_project_open argv = _ := project_function_refuses _ _ hoperand hbad
      refine ⟨?_, congrArg (Dialogue.asked be) heq, trivial⟩
      show Bytes.lit "error:" <+: _
      rw [heq]
      exact ⟨_, rfl⟩

/-- INSERT INTO funcs with a good address and a name that is not valid. -/
theorem an_insert_defines_a_function_without_its_name :
    ∃ (be : Backend) (op : NamedOperation),
      op.TakesBadName ∧ ¬ op.Untouched be ∧ op.sent be = [Bytes.lit "af @ 0x1000"] := by
  let argv : List FunctionArg :=
    [{ is_null := false, as_int64 := 0x1000, as_c_str := none, as_text := [] },
      .text (Bytes.lit "a b")]
  have hsent : (NamedOperation.funcs_insert argv).sent (mock_backend []) =
      [Bytes.lit "af @ 0x1000"] := by decide +kernel
  refine ⟨mock_backend [], .funcs_insert argv, ⟨Bytes.lit "a b", rfl, ?_, ?_⟩, ?_, hsent⟩
  · decide
  · decide
  · intro h
    rw [h.silent] at hsent
    cases hsent

end r2sql
