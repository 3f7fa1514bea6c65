-- The CLI after its command line is read: one statement, a script, or a
-- dialogue that takes a line at a time.
import R2sql.BackendNames
import R2sql.CliArgs
import R2sql.ResultTexts

namespace r2sql.cli

/-! ## What the programs work on -/

/-- A session, by what a statement and a command give and the state that they leave. -/
structure Engine (σ : Type) where
  query : σ → Bytes → QueryResult × σ
  raw_cmd : σ → Bytes → Bytes × σ

/-- What a program returns to `main`, what it printed, and the state of the session. -/
structure Ran (σ : Type) where
  status : Nat
  printed : Printed
  state : σ

instance : Append Printed := ⟨fun a b => ⟨a.stdout ++ b.stdout, a.stderr ++ b.stderr⟩⟩

@[simp] theorem stdout_append (a b : Printed) : (a ++ b).stdout = a.stdout ++ b.stdout := rfl

@[simp] theorem stderr_append (a b : Printed) : (a ++ b).stderr = a.stderr ++ b.stderr := rfl

def on_stdout (text : Bytes) : Printed := ⟨text, []⟩

def on_stderr (text : Bytes) : Printed := ⟨[], text⟩

section
variable {σ : Type} (e : Engine σ)

/-! ## One statement, and a script -/

/-- `is_raw_cmd`: the command after a `.`, which can have blanks in front. -/
def is_raw_cmd (line : Bytes) : Option Bytes :=
  match line.dropWhile (· ∈ Bytes.lit " \t") with
  | [] => none
  | c :: out => if c = '.'.toUInt8 then some out else none

/-- The output of a command, with a newline at its end. -/
def raw_output (out : Bytes) : Printed :=
  if out = [] then on_stdout []
  else on_stdout (c_str out ++ if out.getLast? = some newline then [] else [newline])

def run_raw (s : σ) (cmd : Bytes) : Ran σ :=
  let (out, s) := e.raw_cmd s cmd
  { status := 0, printed := raw_output out, state := s }

def run_sql (s : σ) (sql : Bytes) : Ran σ :=
  match is_raw_cmd sql with
  | some raw => run_raw e s raw
  | none =>
    let (r, s) := e.query s sql
    let status := match r with
      | .rows _ _ => 0
      | .error _ => 1
    { status := status, printed := print_result r, state := s }

/-- `run_script`. `files` has the text of each file that can be opened. -/
def run_script (files : Bytes → Option Bytes) (s : σ) (path : Bytes) : Ran σ :=
  match files path with
  | none =>
    { status := 1
      printed := on_stderr (Bytes.lit "r2sql: cannot open script " ++ c_str path ++
        Bytes.lit "\n")
      state := s }
  | some text => run_sql e s text

/-! ## The dialogue -/

/-- `std::getline`: the bytes before the next newline, and the bytes after it. It fails where there
is nothing left. -/
def getline (input : Bytes) : Option (Bytes × Bytes) :=
  if input = [] then none
  else
    let line := input.takeWhile (· ≠ newline)
    some (line, input.drop (line.length + 1))

theorem length_getline {input line rest : Bytes} (h : getline input = some (line, rest)) :
    rest.length < input.length := by
  unfold getline at h
  split at h
  · cases h
  · rename_i hne
    cases h
    rw [List.length_drop]
    have := List.length_pos_iff.mpr hne
    omega

def prompt : Printed := on_stdout (Bytes.lit "sql> ")

/-- The lines that end the dialogue. -/
def quits : List Bytes := [Bytes.lit ".quit", Bytes.lit ".exit", Bytes.lit "exit"]

/-- The loop of `run_repl`. -/
def repl_loop (s : σ) (input : Bytes) : Printed × σ :=
  match _h : getline input with
  | none => (prompt, s)
  | some (line, rest) =>
    if line = [] then
      let (printed, t) := repl_loop s rest
      (prompt ++ printed, t)
    else if line ∈ quits then (prompt, s)
    else
      match is_raw_cmd line with
      | some raw =>
        let r := run_raw e s raw
        let (printed, t) := repl_loop r.state rest
        (prompt ++ r.printed ++ printed, t)
      | none =>
        let (r, s) := e.query s line
        let (printed, t) := repl_loop s rest
        (prompt ++ print_result r ++ printed, t)
termination_by input.length
decreasing_by all_goals exact length_getline ‹_›

/-- The dash of the texts, in UTF-8. -/
def em_dash : Bytes := [0xE2, 0x80, 0x94]

def banner : Bytes :=
  Bytes.lit "r2sql " ++ version ++ Bytes.lit " " ++ em_dash ++
    Bytes.lit " interactive REPL. Type .quit to exit.\n" ++
    Bytes.lit "Lines starting with '.' run a raw r2 command (e.g. .pdf @ entry0).\n"

/-- `run_repl`, on the bytes of its input. -/
def run_repl (s : σ) (input : Bytes) : Ran σ :=
  let (printed, t) := repl_loop e s input
  { status := 0, printed := on_stdout banner ++ printed, state := t }

/-! ## The dialogue as statements -/

/-- The lines of a text. A newline at the end of the text begins no line. -/
def lines (input : Bytes) : List Bytes :=
  let pieces := input.splitOn newline
  if pieces.getLast? = some [] then pieces.dropLast else pieces

/-- The lines that a dialogue takes: those before the first one that ends it. -/
def taken (input : Bytes) : List Bytes := (lines input).takeWhile (· ∉ quits)

/-- What a line of a dialogue does: an empty one does nothing, and any other is a statement of its
own. -/
def answer (s : σ) (line : Bytes) : Printed × σ :=
  if line = [] then (on_stdout [], s)
  else ((run_sql e s line).printed, (run_sql e s line).state)

/-- A dialogue: a prompt before each line, and one at the end. -/
def dialogue : σ → List Bytes → Printed × σ
  | s, [] => (prompt, s)
  | s, line :: rest =>
    (prompt ++ (answer e s line).1 ++ (dialogue (answer e s line).2 rest).1,
      (dialogue (answer e s line).2 rest).2)

/-! ## The lines that are read -/

theorem lines_nil : lines [] = [] := rfl

theorem lines_append_newline {line : Bytes} (h : newline ∉ line) (rest : Bytes) :
    lines (line ++ newline :: rest) = line :: lines rest := by
  have hne := List.splitOn_ne_nil newline rest
  unfold lines
  rw [List.splitOn_append_cons_self_of_not_mem h]
  dsimp only
  rw [List.getLast?_cons_of_ne_nil hne, List.dropLast_cons_of_ne_nil hne]
  split <;> rfl

theorem lines_of_last {line : Bytes} (h : newline ∉ line) (hne : line ≠ []) :
    lines line = [line] := by
  unfold lines
  rw [List.splitOn_eq_singleton h]
  simp [hne]

theorem lines_of_getline {input line rest : Bytes} (h : getline input = some (line, rest)) :
    lines input = line :: lines rest := by
  unfold getline at h
  split at h
  · cases h
  · rename_i hne
    simp only [Option.some.injEq, Prod.mk.injEq] at h
    obtain ⟨rfl, rfl⟩ := h
    have hline : newline ∉ input.takeWhile (· ≠ newline) := by
      intro hmem
      simpa using List.mem_takeWhile_imp hmem
    by_cases hmem : newline ∈ input
    · have hsplit := split_at_first hmem
      conv_lhs => rw [hsplit]
      exact lines_append_newline hline _
    · have hall : input.takeWhile (· ≠ newline) = input := by
        rw [List.takeWhile_eq_self_iff]
        intro c hc
        simpa using ne_of_mem_of_not_mem hc hmem
      rw [hall, lines_of_last hmem hne, List.drop_eq_nil_of_le (by omega), lines_nil]

theorem taken_of_getline {input line rest : Bytes} (h : getline input = some (line, rest)) :
    taken input = if line ∈ quits then [] else line :: taken rest := by
  unfold taken
  rw [lines_of_getline h, List.takeWhile_cons]
  by_cases hquit : line ∈ quits <;> simp [hquit]

theorem taken_of_end {input : Bytes} (h : getline input = none) : taken input = [] := by
  unfold getline at h
  split at h
  · rename_i hnil
    rw [hnil]
    rfl
  · cases h

/-- The loop is the dialogue with the lines that it takes. -/
theorem repl_loop_eq (s : σ) (input : Bytes) :
    repl_loop e s input = dialogue e s (taken input) := by
  fun_induction repl_loop e s input with
  | case1 s input h => rw [taken_of_end h, dialogue]
  | case2 s input rest printed t hloop h ih =>
    have hempty : prompt ++ on_stdout [] = prompt := rfl
    rw [taken_of_getline h, if_neg (by decide), dialogue, answer, if_pos rfl, ← ih, hloop, hempty]
  | case3 s input line rest h hne hquit => rw [taken_of_getline h, if_pos hquit, dialogue]
  | case4 s input line rest h hne hquit raw hraw r printed t hloop ih =>
    have hsql : run_sql e s line = r := by simp only [run_sql, hraw, r]
    rw [taken_of_getline h, if_neg hquit, dialogue, answer, if_neg hne, hsql, ← ih, hloop]
  | case5 s input line rest h hne hquit hraw r t hquery printed u hloop ih =>
    have hprinted : (run_sql e s line).printed = print_result r := by
      simp only [run_sql, hraw, hquery]
    have hstate : (run_sql e s line).state = t := by simp only [run_sql, hraw, hquery]
    rw [taken_of_getline h, if_neg hquit, dialogue, answer, if_neg hne, hprinted, hstate, ← ih,
      hloop]

theorem state_of_dialogue (s : σ) (ls : List Bytes) :
    (dialogue e s ls).2 =
      (ls.filter (· ≠ [])).foldl (fun s line => (run_sql e s line).state) s := by
  induction ls generalizing s with
  | nil => rfl
  | cons line ls ih =>
    rw [dialogue]
    dsimp only
    rw [ih]
    by_cases hline : line = []
    · simp [answer, hline]
    · simp [answer, hline]

theorem taken_before_quit {before quit : Bytes} (hquit : quit ∈ quits) (more : Bytes) :
    taken (before ++ newline :: (quit ++ newline :: more)) =
      (before.splitOn newline).takeWhile (· ∉ quits) := by
  have hplain : ∀ q ∈ quits, newline ∉ q := by decide
  have hne := List.splitOn_ne_nil newline more
  have hstop : ∀ ls rest : List Bytes, (ls ++ quit :: rest).takeWhile (fun l => l ∉ quits) =
      ls.takeWhile fun l => l ∉ quits := by
    intro ls rest
    induction ls with
    | nil => simp [hquit]
    | cons l ls ih =>
      rw [List.cons_append, List.takeWhile_cons, List.takeWhile_cons, ih]
  unfold taken lines
  rw [List.splitOn_append_cons_self, List.splitOn_append_cons_self_of_not_mem (hplain quit hquit)]
  dsimp only
  split
  · rw [List.dropLast_append_of_ne_nil (List.cons_ne_nil _ _),
      List.dropLast_cons_of_ne_nil hne, hstop]
  · rw [hstop]

/-! ## The law of the dialogue -/

/-- What a dialogue is: a statement for each line that is not empty, one after the other on one
session, up to the first line that ends it. -/
structure Interactive (s : σ) (input : Bytes) : Prop where
  status : (run_repl e s input).status = 0
  printed : (run_repl e s input).printed =
    on_stdout banner ++ (dialogue e s (taken input)).1
  state : (run_repl e s input).state =
    ((taken input).filter (· ≠ [])).foldl (fun s line => (run_sql e s line).state) s
  deaf : ∀ before quit more, quit ∈ quits → input = before ++ newline :: (quit ++ newline :: more) →
    taken input = (before.splitOn newline).takeWhile (· ∉ quits)

theorem a_dialogue_is_its_statements (s : σ) (input : Bytes) : Interactive e s input := by
  refine ⟨rfl, ?_, ?_, ?_⟩
  · rw [run_repl, repl_loop_eq]
  · rw [run_repl, repl_loop_eq]
    exact state_of_dialogue e s _
  · rintro before quit more hquit rfl
    exact taken_before_quit hquit more

end

end r2sql.cli
