-- The grep table: one row for each function, flag, import, export, section
-- and comment, and the iterator that keeps the rows that a pattern matches.
import R2sql.Iterators
import R2sql.JsonUtils

namespace r2sql

open json_utils

structure GrepRow where
  kind : Bytes
  name : Bytes
  full_name : Bytes
  parent_name : Bytes
  addr : Int64
  deriving DecidableEq

namespace GrepRow

/-- The `pattern` column is input only. -/
def columns (r : GrepRow) : List SqlValue :=
  [.text r.kind, .text r.name, .text r.full_name, .text r.parent_name, .int r.addr, .text []]

/-- `GrepPatternIterator::column`. -/
def column (r : GrepRow) : Nat → SqlValue
  | 0 => .text r.kind
  | 1 => .text r.name
  | 2 => .text r.full_name
  | 3 => .text r.parent_name
  | 4 => .int r.addr
  | 5 => .text []
  | _ => .null

end GrepRow

/-! ## The rows -/

/-- The row that `push_array` makes of one element. With no `addr_key`, the address key is found by
`i64_addr`. -/
def push_array_row [Nlohmann] (kind : String) (addr_key : Option String) (name_key : String)
    (parent_key : Option String) (j : Json) : GrepRow :=
  let name := str j (Bytes.lit name_key)
  let addr := match addr_key with
    | some k => i64 j (Bytes.lit k)
    | none => i64_addr j
  let parent_name := match parent_key with
    | some k => str j (Bytes.lit k)
    | none => []
  { kind := Bytes.lit kind
    name := name
    full_name := if parent_name = [] then name else parent_name ++ Bytes.lit "!" ++ name
    parent_name := parent_name
    addr := addr }

def push_array [Nlohmann] (rows : List GrepRow) (command kind : String) (addr_key : Option String)
    (name_key : String) (parent_key : Option String) : R2 (List GrepRow) := do
  let arr ← cmd_json (Bytes.lit command)
  return rows ++ arr.items.map (push_array_row kind addr_key name_key parent_key)

def build_grep_rows [Nlohmann] : R2 (List GrepRow) := do
  let rows ← push_array [] "aflj" "func" none "name" none
  let rows ← push_array rows "fj" "flag" none "name" none
  let rows ← push_array rows "iij" "import" (some "plt") "name" (some "libname")
  let rows ← push_array rows "iEj" "export" (some "vaddr") "name" none
  let rows ← push_array rows "iSj" "section" (some "vaddr") "name" none
  let ccs ← cmd_json (Bytes.lit "CCj")
  return rows ++ ccs.items.map fun j =>
    let name := str j (Bytes.lit "name")
    { kind := Bytes.lit "comment", name := name, full_name := name, parent_name := []
      addr := i64_addr j }

/-! ## The matcher -/

/-- `std::tolower` in the C locale. -/
def tolower (c : UInt8) : UInt8 := if 'A'.toUInt8 ≤ c ∧ c ≤ 'Z'.toUInt8 then c + 32 else c

def to_lower (s : Bytes) : Bytes := s.map tolower

/-- The variables of the loop of `like_match`. The indices stay in their strings, `retry` is never
past `ti`, and `star` is the index of a `%` before `pi`. -/
structure LikeState (text pattern : Bytes) where
  ti : Nat
  pi : Nat
  star : Option Nat
  retry : Nat
  ti_le : ti ≤ text.length
  pi_le : pi ≤ pattern.length
  retry_le : retry ≤ ti
  star_lt : ∀ k ∈ star, k < pi ∧ pattern[k]? = some '%'.toUInt8

/-- The first index after `star`, and 0 with no star. -/
def LikeState.after_star {text pattern : Bytes} (s : LikeState text pattern) : Nat :=
  match s.star with
  | some k => k + 1
  | none => 0

theorem LikeState.after_star_le {text pattern : Bytes} (s : LikeState text pattern) :
    s.after_star ≤ s.pi := by
  unfold after_star
  split
  · rename_i k hk
    exact (s.star_lt k hk).1
  · exact Nat.zero_le _

/-- The loop of `like_match`, and the test after it. The branches stand in the order of the
source: a `%` of the pattern over a `%` of the text goes the way of a letter. -/
def like_loop {text pattern : Bytes} (s : LikeState text pattern) : Bool :=
  if ht : s.ti < text.length then
    if hq : ∃ h : s.pi < pattern.length,
        pattern[s.pi] = '_'.toUInt8 ∨ pattern[s.pi] = text[s.ti] then
      like_loop { s with
        ti := s.ti + 1, pi := s.pi + 1
        ti_le := ht
        pi_le := hq.1
        retry_le := Nat.le_succ_of_le s.retry_le
        star_lt := fun k hk => ⟨Nat.lt_succ_of_lt (s.star_lt k hk).1, (s.star_lt k hk).2⟩ }
    else if hp : ∃ h : s.pi < pattern.length, pattern[s.pi] = '%'.toUInt8 then
      like_loop { s with
        pi := s.pi + 1, star := some s.pi, retry := s.ti
        pi_le := hp.1
        retry_le := Nat.le_refl _
        star_lt := by
          intro k hk
          cases hk
          obtain ⟨h, hc⟩ := hp
          exact ⟨Nat.lt_succ_self _, by rw [List.getElem?_eq_getElem h, hc]⟩ }
    else
      match hs : s.star with
      | some k =>
        like_loop { s with
          ti := s.retry + 1, pi := k + 1, retry := s.retry + 1
          ti_le := Nat.lt_of_le_of_lt s.retry_le ht
          pi_le := Nat.le_trans (s.star_lt k hs).1 s.pi_le
          retry_le := Nat.le_refl _
          star_lt := fun k' hk' => by
            rw [hs] at hk'
            cases hk'
            exact ⟨Nat.lt_succ_self _, (s.star_lt k hs).2⟩ }
      | none => false
  else (pattern.drop s.pi).all fun c => c == '%'.toUInt8
termination_by (pattern.length - s.after_star, text.length - s.retry, text.length - s.ti)
decreasing_by
  · apply Prod.Lex.right
    apply Prod.Lex.right
    omega
  · have := s.after_star_le
    obtain ⟨h, -⟩ := hp
    apply Prod.Lex.left
    simp only [LikeState.after_star] at *
    omega
  · have := s.retry_le
    rw [show LikeState.after_star
      (LikeState.mk (s.retry + 1) (k + 1) s.star (s.retry + 1) _ _ _ _) = s.after_star from rfl]
    apply Prod.Lex.right
    apply Prod.Lex.left
    omega

/-- The variables as the function sets them before the loop. -/
def LikeState.start (text pattern : Bytes) : LikeState text pattern where
  ti := 0
  pi := 0
  star := none
  retry := 0
  ti_le := Nat.zero_le _
  pi_le := Nat.zero_le _
  retry_le := Nat.le_refl _
  star_lt := nofun

/-- Case-insensitive match of a `LIKE`-style pattern. -/
def like_match (text_in pattern_in : Bytes) : Bool :=
  like_loop (.start (to_lower text_in) (to_lower pattern_in))

/-! ## The iterator -/

/-- Whether the pattern has a wildcard. -/
def has_wild (pattern : Bytes) : Bool :=
  pattern.contains '%'.toUInt8 || pattern.contains '_'.toUInt8

/-- The pattern that the iterator matches with: a pattern with no wildcard is wrapped. -/
def effective_pattern (pattern : Bytes) : Bytes :=
  if has_wild pattern then pattern else Bytes.lit "%" ++ pattern ++ Bytes.lit "%"

/-- The constructor: build the rows once and keep those that match. -/
def GrepPatternIterator [Nlohmann] (pattern : Bytes) : R2 (VecIterator GrepRow) := do
  let pat := effective_pattern pattern
  let all ← build_grep_rows
  return .make (all.filter fun r => like_match r.name pat || like_match r.full_name pat)

/-- `GrepPatternIterator::rowid`: the index among the rows that match. -/
def GrepPatternIterator.rowid (it : VecIterator GrepRow) : Option Int := some it.i_

end r2sql
