-- How SQLite reads a table: it calls `next` until the answer is false. The
-- pushdown iterators of blocks, instructions, xrefs and grep are one
-- iterator over a vector of rows, with their own columns and row ids.
import R2sql.Backend

namespace r2sql

/-- A value in a column of a row. -/
inductive SqlValue where
  | null
  | int (i : Int64)
  | text (s : Bytes)
  deriving DecidableEq

/-- The members of a pushdown iterator over a vector. -/
structure VecIterator (Row : Type) where
  rows_ : List Row
  i_ : Nat
  started_ : Bool

namespace VecIterator

variable {Row : Type}

/-- A fresh iterator over the rows that the constructor got. -/
def make (rows : List Row) : VecIterator Row := { rows_ := rows, i_ := 0, started_ := false }

def next (it : VecIterator Row) : Bool × VecIterator Row :=
  let it := if it.started_ then { it with i_ := it.i_ + 1 } else { it with started_ := true }
  (decide (it.i_ < it.rows_.length), it)

def eof (it : VecIterator Row) : Bool := it.started_ && decide (it.rows_.length ≤ it.i_)

/-- The index and the row of every call of `next` that answers true, with `n` calls at most. -/
def scan : Nat → VecIterator Row → List (Nat × Row)
  | 0, _ => []
  | n + 1, it =>
    let (more, it') := it.next
    if more then
      match it'.rows_[it'.i_]? with
      | some r => (it'.i_, r) :: scan n it'
      | none => []
    else []

/-- All that the iterator delivers. The call after the last row is the one that answers false. -/
def delivered (it : VecIterator Row) : List (Nat × Row) := it.scan (it.rows_.length + 1)

theorem scan_started (rows : List Row) (i n : Nat) (h : rows.length ≤ i + n) :
    scan n { rows_ := rows, i_ := i, started_ := true } =
      ((rows.zipIdx.drop (i + 1)).map fun p => (p.2, p.1)) := by
  induction n generalizing i with
  | zero =>
    have hd : rows.zipIdx.drop (i + 1) = [] := List.drop_of_length_le (by simp; omega)
    simp [scan, hd]
  | succ n ih =>
    by_cases hi : i + 1 < rows.length
    · have hz : rows.zipIdx.drop (i + 1) =
          (rows[i + 1], i + 1) :: rows.zipIdx.drop (i + 1 + 1) := by
        rw [List.drop_eq_getElem_cons (by simpa using hi)]
        simp
      simp only [scan, next, if_true, hi, decide_true, List.getElem?_eq_getElem hi]
      rw [ih (i + 1) (by omega), hz]
      rfl
    · have hd : rows.zipIdx.drop (i + 1) = [] := List.drop_of_length_le (by simp; omega)
      simp [scan, next, hi, hd]

theorem delivered_make (rows : List Row) :
    (make rows).delivered = rows.zipIdx.map fun p => (p.2, p.1) := by
  unfold delivered
  cases rows with
  | nil => rfl
  | cons r rs =>
    have hfirst : scan (rs.length + 2) (make (r :: rs)) =
        (0, r) :: scan (rs.length + 1) { rows_ := r :: rs, i_ := 0, started_ := true } := by
      rw [scan]
      simp [make, next]
    rw [show (make (r :: rs)).rows_.length + 1 = rs.length + 2 from rfl, hfirst,
      scan_started _ _ _ (by simp)]
    rfl

theorem delivered_rows (rows : List Row) : (make rows).delivered.map Prod.snd = rows := by
  rw [delivered_make, List.map_map]
  exact List.zipIdx_map_fst 0 rows

/-- The row at the iterator, and none past the end of the vector. -/
def current (it : VecIterator Row) : Option Row := it.rows_[it.i_]?

/-- What SQLite reads at each row that the iterator delivers: the row id and the columns. -/
def reported (rowid : VecIterator Row → Option Int) (columns : Row → List SqlValue)
    (it : VecIterator Row) : List (Option Int × List SqlValue) :=
  it.delivered.map fun p => (rowid { it with i_ := p.1, started_ := true }, columns p.2)

theorem reported_make (rowid : VecIterator Row → Option Int) (columns : Row → List SqlValue)
    (rows : List Row) :
    (make rows).reported rowid columns = rows.zipIdx.map fun p =>
      (rowid { rows_ := rows, i_ := p.2, started_ := true }, columns p.1) := by
  unfold reported
  rw [delivered_make, List.map_map]
  rfl

/-- A row id that depends on the row alone. -/
theorem reported_by_row (rowid : VecIterator Row → Option Int) (columns : Row → List SqlValue)
    (key : Row → Option Int) (hkey : ∀ it r, it.current = some r → rowid it = key r)
    (rows : List Row) :
    (make rows).reported rowid columns = rows.map fun r => (key r, columns r) := by
  have hmap : (make rows).reported rowid columns =
      rows.zipIdx.map fun p => (key p.1, columns p.1) := by
    rw [reported_make]
    apply List.map_congr_left
    rintro ⟨r, i⟩ hmem
    have hcurrent : current { rows_ := rows, i_ := i, started_ := true } = some r :=
      List.mem_zipIdx_iff_getElem?.mp hmem
    rw [hkey _ r hcurrent]
  rw [hmap]
  conv => rhs; rw [← List.zipIdx_map_fst 0 rows, List.map_map]
  rfl

end VecIterator

end r2sql
