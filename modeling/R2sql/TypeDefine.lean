-- The one command of `r2sql_type_define`: when radare2 reads it as `td` with
-- the whole declaration, and what the quoting helper does with any text.
import R2sql.SqlFunctions
import R2sql.R2Pipe
import R2sql.Lib.Quoted

namespace r2sql

open json_utils

def quote : UInt8 := '"'.toUInt8

def backslash : UInt8 := '\\'.toUInt8

/-- The command is one line, and its quotes hold the whole of it: radare2 runs `content` and nothing
else. A newline would end the line, and what follows the closing quote would be a command of its
own. -/
structure OneQuotedCommand (command content : Bytes) : Prop where
  one_line : newline ∉ command
  quoted : ∃ body, command = quote :: body ∧ quoted.read quote backslash body = some (content, [])

/-! ## Declarations -/

theorem plain_cons_iff {c : UInt8} {s : Bytes} (hq : c ≠ quote) (hb : c ≠ backslash) :
    quoted.Plain quote backslash (c :: s) ↔ quoted.Plain quote backslash s := by
  constructor
  · exact quoted.Plain.tail
  · intro h
    have hnext : c = backslash → ∀ d ∈ (s ++ [quote]).head?, d ≠ quote ∧ d ≠ backslash :=
      fun he => absurd he hb
    exact h.cons hq hnext

theorem plain_td_iff (d : Bytes) :
    quoted.Plain quote backslash (Bytes.lit "td " ++ d) ↔ quoted.Plain quote backslash d := by
  have htd : Bytes.lit "td " ++ d = 't'.toUInt8 :: 'd'.toUInt8 :: ' '.toUInt8 :: d := rfl
  rw [htd, plain_cons_iff (by decide) (by decide), plain_cons_iff (by decide) (by decide),
    plain_cons_iff (by decide) (by decide)]

/-- The quotes that `r2sql_type_define` writes hold the declaration exactly where it has no newline
and needs no escapes. -/
theorem one_quoted_command_iff (d : Bytes) :
    OneQuotedCommand (Bytes.lit "\"td " ++ d ++ Bytes.lit "\"") (Bytes.lit "td " ++ d) ↔
      newline ∉ d ∧ quoted.Plain quote backslash d := by
  have hcommand : Bytes.lit "\"td " ++ d ++ Bytes.lit "\"" =
      quote :: ((Bytes.lit "td " ++ d) ++ [quote]) := rfl
  have hline : newline ∉ Bytes.lit "\"td " ++ d ++ Bytes.lit "\"" ↔ newline ∉ d := by
    have h : newline ∉ Bytes.lit "\"td " ∧ newline ∉ Bytes.lit "\"" := by decide
    simp [h.1, h.2]
  rw [← plain_td_iff, ← quoted.read_eq_self_iff]
  constructor
  · intro h
    obtain ⟨body, hbody, hread⟩ := h.quoted
    rw [hcommand] at hbody
    cases hbody
    exact ⟨hline.mp h.one_line, hread⟩
  · intro h
    exact ⟨hline.mpr h.1, _, hcommand, h.2⟩

theorem asked_type_define (be : Backend) (arg : FunctionArg) :
    (r2sql_type_define [{ arg with is_null := false }]).asked be =
      [Bytes.lit "\"td " ++ arg.as_text ++ Bytes.lit "\""] := by
  have hsupplied : supplied [{ arg with is_null := false }] 0 =
      some { arg with is_null := false } := rfl
  unfold r2sql_type_define
  rw [hsupplied]
  simp

/-- A declaration reaches `td` whole, and nothing else runs, exactly where it has no newline, no
quote, no two backslashes in a row and no backslash at its end. -/
theorem type_define_sends_one_command (be : Backend) (arg : FunctionArg) :
    (∃ command, (r2sql_type_define [{ arg with is_null := false }]).asked be = [command] ∧
      OneQuotedCommand command (Bytes.lit "td " ++ arg.as_text)) ↔
    newline ∉ arg.as_text ∧ quote ∉ arg.as_text ∧ ¬ [backslash, backslash] <:+: arg.as_text ∧
      arg.as_text.getLast? ≠ some backslash := by
  rw [asked_type_define]
  constructor
  · rintro ⟨command, hasked, hone⟩
    rw [← List.singleton_inj.mp hasked] at hone
    obtain ⟨hline, hplain⟩ := (one_quoted_command_iff arg.as_text).mp hone
    exact ⟨hline, hplain.no_quote, hplain.no_pair, hplain.last⟩
  · rintro ⟨hline, hquote, hpair, hlast⟩
    refine ⟨_, rfl, (one_quoted_command_iff arg.as_text).mpr ⟨hline, ?_⟩⟩
    exact { no_quote := hquote, no_pair := hpair, last := hlast }

/-- A quote in the declaration ends the quoted command early: here `!id` runs after it. -/
theorem a_quote_in_a_declaration_runs_a_program :
    let arg := FunctionArg.text (Bytes.lit "char x;\";!id;\"")
    let be := mock_backend []
    (r2sql_type_define [arg]).asked be = [Bytes.lit "\"td char x;\";!id;\"\""] ∧
      quoted.read quote backslash (Bytes.lit "td char x;\";!id;\"\"") =
        some (Bytes.lit "td char x;", Bytes.lit ";!id;\"\"") ∧
      ¬ ∃ command, (r2sql_type_define [arg]).asked be = [command] ∧
        OneQuotedCommand command (Bytes.lit "td " ++ arg.as_text) := by
  intro arg be
  have hasked : (r2sql_type_define [arg]).asked be = [Bytes.lit "\"td char x;\";!id;\"\""] := by
    decide +kernel
  have hread : quoted.read quote backslash (Bytes.lit "td char x;\";!id;\"\"") =
      some (Bytes.lit "td char x;", Bytes.lit ";!id;\"\"") := by decide +kernel
  refine ⟨hasked, hread, ?_⟩
  rintro ⟨command, hcommand, hone⟩
  rw [hasked] at hcommand
  obtain ⟨body, hbody, hcontent⟩ := hone.quoted
  rw [← List.singleton_inj.mp hcommand] at hbody
  cases hbody
  exact absurd (hread.symm.trans hcontent) (by decide)

/-! ## The quoting helper -/

/-- What radare2 reads for one byte of a quoted text: a line break is a backslash and a letter. -/
def spelled (c : UInt8) : Bytes :=
  if c = '\n'.toUInt8 then Bytes.lit "\\n" else if c = '\r'.toUInt8 then Bytes.lit "\\r" else [c]

theorem read_letter {c : UInt8} (hq : c ≠ quote) (hb : c ≠ backslash) (rest : Bytes) :
    quoted.read quote backslash (backslash :: c :: rest) =
      (quoted.read quote backslash rest).map fun p => (backslash :: c :: p.1, p.2) := by
  have hnext : backslash = backslash → ∀ d ∈ (c :: rest).head?, d ≠ quote ∧ d ≠ backslash := by
    rintro - d hd
    cases hd
    exact ⟨hq, hb⟩
  rw [quoted.read_cons (by decide) hnext, quoted.read_cons hq fun he => absurd he hb,
    Option.map_map]
  rfl

theorem read_quote_byte (c : UInt8) (rest : Bytes) :
    quoted.read quote backslash (quote_byte c ++ rest) =
      (quoted.read quote backslash rest).map fun p => (spelled c ++ p.1, p.2) := by
  by_cases hb : c = '\\'.toUInt8
  · subst hb
    exact quoted.read_escape (by decide) (Or.inr rfl)
  · by_cases hq : c = '"'.toUInt8
    · subst hq
      exact quoted.read_escape (by decide) (Or.inl rfl)
    · by_cases hn : c = '\n'.toUInt8
      · subst hn
        exact read_letter (by decide) (by decide) rest
      · by_cases hr : c = '\r'.toUInt8
        · subst hr
          exact read_letter (by decide) (by decide) rest
        · have hbyte : quote_byte c = [c] := by
            rw [quote_byte, if_neg hb, if_neg hq, if_neg hn, if_neg hr]
          rw [hbyte, spelled, if_neg hn, if_neg hr]
          exact quoted.read_cons hq fun he => absurd he hb

theorem read_quote_bytes (s : Bytes) :
    quoted.read quote backslash (s.flatMap quote_byte ++ [quote]) =
      some (s.flatMap spelled, []) := by
  induction s with
  | nil => rfl
  | cons c s ih =>
    rw [List.flatMap_cons, List.append_assoc, read_quote_byte, ih]
    rfl

theorem no_newline_in_quote_byte : ∀ c : UInt8, newline ∉ quote_byte c := by
  apply Bytes.forall_byte
  decide +kernel

/-- `r2_quote` makes one command of any text, so it would keep every declaration inside `td`. -/
theorem r2_quote_is_one_command (s : Bytes) :
    OneQuotedCommand (r2_quote s) (s.flatMap spelled) where
  one_line := by
    have h : newline ∉ Bytes.lit "\"" := by decide
    simp [r2_quote, h, no_newline_in_quote_byte]
  quoted := ⟨s.flatMap quote_byte ++ [quote], rfl, read_quote_bytes s⟩

end r2sql
