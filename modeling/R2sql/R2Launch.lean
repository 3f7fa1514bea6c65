-- How the two r2pipe backends start radare2: on POSIX with a vector of
-- arguments, on Windows with one command line that the child splits again.
import R2sql.Lib.ArgvQuotes
import R2sql.ReadLoops

namespace r2sql

open argv

/-! ## The two platforms -/

/-- What a call of the system sees of a string: the bytes before its first NUL. -/
def c_str (s : Bytes) : Bytes := before_nul s

/-- The arguments in `R2PipePosixBackend::start`, with the program first. -/
def R2PipePosixBackend.args (opts : R2PipeOpenOptions) : List Bytes :=
  let exe := if opts.r2_executable = [] then Bytes.lit "radare2" else opts.r2_executable
  let args := [exe, Bytes.lit "-q0"]
  let args := if opts.write then args ++ [Bytes.lit "-w"] else args
  let args := args ++ opts.extra_args
  if opts.path ≠ [] then args ++ [opts.path] else args ++ [Bytes.lit "-"]

/-- The vector that `start` passes to `posix_spawnp`. -/
def R2PipePosixBackend.argv (opts : R2PipeOpenOptions) : List Bytes := (args opts).map c_str

/-- The command line in `R2PipeWinBackend::start`. -/
def R2PipeWinBackend.cmdline (opts : R2PipeOpenOptions) : Bytes :=
  let exe := if opts.r2_executable = [] then Bytes.lit "radare2.exe" else opts.r2_executable
  let cmdline := Bytes.lit "\"" ++ exe ++ Bytes.lit "\"" ++ Bytes.lit " -q0"
  let cmdline := if opts.write then cmdline ++ Bytes.lit " -w" else cmdline
  let cmdline := if opts.analyze then cmdline else cmdline ++ Bytes.lit " -e bin.cache=true"
  let cmdline := opts.extra_args.foldl (fun cmdline a => cmdline ++ Bytes.lit " " ++ a) cmdline
  if opts.path ≠ [] then cmdline ++ Bytes.lit " \"" ++ opts.path ++ Bytes.lit "\""
  else cmdline ++ Bytes.lit " -"

/-- The rules of the C runtime on Windows. -/
def crt : Signs UInt8 where
  quote := '"'.toUInt8
  escape := '\\'.toUInt8
  blank := fun c => c == ' '.toUInt8 || c == '\t'.toUInt8
  escape_ne_quote := by decide
  blank_quote := by decide
  blank_escape := by decide

/-- An escaped quote, and a pair of quotes inside of quotes. -/
example : args crt (Bytes.lit "\"ab\\\"c\" \"\\\\\" a\"b\"\" c d") =
    [Bytes.lit "ab\"c", Bytes.lit "\\", Bytes.lit "ab\" c d"] := by decide

/-- The arguments that the child on Windows gets, after the name of the program. -/
def R2PipeWinBackend.child_arguments (opts : R2PipeOpenOptions) : List Bytes :=
  arguments crt (c_str (cmdline opts))

/-! ## What passes -/

/-- The path comes out of the quotes that are put around it. The text after a NUL is lost on both
platforms, and the second quote with it. -/
def PathPasses (path : Bytes) : Prop :=
  if 0 ∈ path then crt.quote ∉ c_str path else Quotable crt path

/-- The options with which the command line says what the vector says. -/
structure Passes (opts : R2PipeOpenOptions) : Prop where
  analyze : opts.analyze = true
  no_nul : 0 ∉ opts.r2_executable
  exe : Whole crt true opts.r2_executable
  extra_args : ∀ a ∈ opts.extra_args, 0 ∉ a ∧ Word crt a
  path : PathPasses opts.path

/-! ## The command line, word by word -/

section
variable (opts : R2PipeOpenOptions)

/-- The arguments that no platform has alone. -/
def flags : List Bytes := Bytes.lit "-q0" :: if opts.write then [Bytes.lit "-w"] else []

/-- What Windows alone adds. -/
def cache_flag : List Bytes :=
  if opts.analyze then [] else [Bytes.lit "-e", Bytes.lit "bin.cache=true"]

def win_exe : Bytes :=
  if opts.r2_executable = [] then Bytes.lit "radare2.exe" else opts.r2_executable

/-- The last argument as the command line has it. -/
def quoted_path : Bytes :=
  if opts.path ≠ [] then crt.quote :: (opts.path ++ [crt.quote]) else Bytes.lit "-"

def last_arg : Bytes := if opts.path ≠ [] then c_str opts.path else Bytes.lit "-"

/-- The part of the command line after the name of the program. -/
def rest_of_line : Bytes :=
  spaced ' '.toUInt8 (flags opts ++ cache_flag opts ++ opts.extra_args) ++
    ' '.toUInt8 :: quoted_path opts

/-- The arguments as they are meant, after the name of the program. -/
def meant : List Bytes := flags opts ++ opts.extra_args.map c_str ++ [last_arg opts]

theorem foldl_extra_args (line : Bytes) (extra_args : List Bytes) :
    extra_args.foldl (fun cmdline a => cmdline ++ Bytes.lit " " ++ a) line =
      line ++ spaced ' '.toUInt8 extra_args := by
  induction extra_args generalizing line with
  | nil => simp [spaced]
  | cons a extra_args ih =>
    rw [List.foldl_cons, ih]
    simp [spaced, Bytes.lit]

theorem cmdline_eq :
    R2PipeWinBackend.cmdline opts =
      crt.quote :: (win_exe opts ++ crt.quote :: rest_of_line opts) := by
  have hflags : spaced ' '.toUInt8 (flags opts ++ cache_flag opts ++ opts.extra_args) =
      Bytes.lit " -q0" ++ (if opts.write then Bytes.lit " -w" else []) ++
        (if opts.analyze then [] else Bytes.lit " -e bin.cache=true") ++
        spaced ' '.toUInt8 opts.extra_args := by
    rw [spaced_append, spaced_append]
    cases hwrite : opts.write <;> cases hanalyze : opts.analyze <;>
      simp only [flags, cache_flag, hwrite, hanalyze] <;> rfl
  have hquote : Bytes.lit "\"" = [crt.quote] := rfl
  have hopen : Bytes.lit " \"" = [' '.toUInt8, crt.quote] := rfl
  have hdash : Bytes.lit " -" = ' '.toUInt8 :: Bytes.lit "-" := rfl
  unfold R2PipeWinBackend.cmdline
  simp only [foldl_extra_args, rest_of_line, quoted_path, hflags, win_exe, hquote, hopen, hdash]
  by_cases hpath : opts.path = [] <;> cases hwrite : opts.write <;>
    cases hanalyze : opts.analyze <;> simp [hpath]

theorem argv_tail : (R2PipePosixBackend.argv opts).tail = meant opts := by
  have hq0 : c_str (Bytes.lit "-q0") = Bytes.lit "-q0" := by decide
  have hw : c_str (Bytes.lit "-w") = Bytes.lit "-w" := by decide
  have hdash : c_str (Bytes.lit "-") = Bytes.lit "-" := by decide
  unfold R2PipePosixBackend.argv R2PipePosixBackend.args meant flags last_arg
  by_cases hpath : opts.path = [] <;> cases hwrite : opts.write <;>
    simp [hpath, hq0, hw, hdash]

end

/-! ## The last argument -/

theorem c_str_append {s : Bytes} (h : 0 ∉ s) (t : Bytes) : c_str (s ++ t) = s ++ c_str t :=
  before_nul_append h t

theorem c_str_eq_self {s : Bytes} (h : 0 ∉ s) : c_str s = s := by
  simpa [c_str, before_nul] using c_str_append h []

theorem map_c_str_eq_self {ws : List Bytes} (h : ∀ w ∈ ws, 0 ∉ w) : ws.map c_str = ws :=
  (List.map_congr_left fun w hw => c_str_eq_self (h w hw)).trans (List.map_id ws)

theorem c_str_append_of_mem {s : Bytes} (h : 0 ∈ s) (t : Bytes) : c_str (s ++ t) = c_str s := by
  obtain ⟨text, rest, rfl, hfree⟩ := List.eq_append_cons_of_mem h
  rw [List.append_assoc, List.cons_append, c_str_append hfree, c_str_append hfree]
  rfl

theorem c_str_cons {c : UInt8} (hc : 0 ≠ c) (s : Bytes) : c_str (c :: s) = c :: c_str s :=
  c_str_append (s := [c]) (by simpa using hc) s

/-- With a NUL in the path, the text of the last argument has no second quote. -/
theorem c_str_quoted_path (opts : R2PipeOpenOptions) :
    c_str (quoted_path opts) =
      if opts.path = [] then Bytes.lit "-"
      else if 0 ∈ opts.path then crt.quote :: c_str opts.path
      else crt.quote :: (opts.path ++ [crt.quote]) := by
  unfold quoted_path
  by_cases hpath : opts.path = []
  · rw [if_neg (not_not.mpr hpath), if_pos hpath]
    decide
  · rw [if_pos hpath, if_neg hpath, c_str_cons (by decide)]
    split
    · rename_i hnul
      rw [c_str_append_of_mem hnul]
    · rename_i hnul
      rw [c_str_append hnul]
      rfl

section
variable (opts : R2PipeOpenOptions)

theorem length_quoted_path :
    (c_str (quoted_path opts)).length ≤
      (last_arg opts).length + min 2 ((c_str (quoted_path opts)).count crt.quote) := by
  rw [c_str_quoted_path, last_arg]
  by_cases hpath : opts.path = []
  · simp [hpath]
  · rw [if_neg hpath, if_pos hpath]
    split
    · simp
    · rename_i hnul
      rw [c_str_eq_self hnul]
      simp

theorem count_quoted_path {c : UInt8} (hc : c ≠ crt.quote) :
    (c_str (quoted_path opts)).count c = (last_arg opts).count c := by
  rw [c_str_quoted_path, last_arg]
  by_cases hpath : opts.path = []
  · simp [hpath]
  · rw [if_neg hpath, if_pos hpath]
    split
    · rw [List.count_cons_of_ne hc.symm]
    · rename_i hnul
      rw [c_str_eq_self hnul, List.count_cons_of_ne hc.symm, List.count_append,
        List.count_singleton, if_neg (by simpa using hc.symm), Nat.add_zero]

theorem args_quoted_path :
    args crt (c_str (quoted_path opts)) = [last_arg opts] ↔ PathPasses opts.path := by
  rw [c_str_quoted_path, last_arg, PathPasses]
  by_cases hpath : opts.path = []
  · rw [if_pos hpath, if_neg (not_not.mpr hpath), hpath, if_neg List.not_mem_nil]
    exact iff_of_true (by decide) ⟨[], Or.inl rfl, List.not_mem_nil, by simp⟩
  · rw [if_neg hpath, if_pos hpath]
    split
    · exact args_open_iff _
    · rename_i hnul
      rw [c_str_eq_self hnul]
      exact args_quoted_iff _

end

/-! ## The text before a NUL -/

theorem not_mem_flags (opts : R2PipeOpenOptions) : ∀ w ∈ flags opts, 0 ∉ w := by
  unfold flags
  split <;> decide

theorem not_mem_cache_flag (opts : R2PipeOpenOptions) : ∀ w ∈ cache_flag opts, 0 ∉ w := by
  unfold cache_flag
  split
  · nofun
  · decide

theorem not_mem_spaced {c : UInt8} (hc : c ≠ ' '.toUInt8) {ws : List Bytes}
    (h : ∀ w ∈ ws, c ∉ w) : c ∉ spaced ' '.toUInt8 ws := by
  intro hmem
  obtain ⟨w, hw, hmem⟩ := List.mem_flatMap.mp hmem
  rcases List.mem_cons.mp hmem with h0 | hmem
  · exact hc h0
  · exact h w hw hmem

theorem c_str_spaced {ws : List Bytes} (h : ∀ w ∈ ws, 0 ∉ w) (s : Bytes) :
    c_str (spaced ' '.toUInt8 ws ++ ' '.toUInt8 :: s) =
      spaced ' '.toUInt8 ws ++ ' '.toUInt8 :: c_str s := by
  rw [c_str_append (not_mem_spaced (by decide) h), c_str_cons (by decide)]

section
variable {opts : R2PipeOpenOptions}

theorem c_str_name (h : 0 ∉ opts.r2_executable) (s : Bytes) :
    c_str (crt.quote :: (win_exe opts ++ crt.quote :: s)) =
      crt.quote :: (win_exe opts ++ crt.quote :: c_str s) := by
  have hexe : 0 ∉ win_exe opts := by
    unfold win_exe
    split
    · decide
    · exact h
  rw [c_str_cons (by decide), c_str_append hexe, c_str_cons (by decide)]

theorem not_mem_words {extra_args : List Bytes} (h : ∀ a ∈ extra_args, 0 ∉ a) :
    ∀ w ∈ flags opts ++ cache_flag opts ++ extra_args, 0 ∉ w := by
  intro w hw
  rcases List.mem_append.mp hw with hw | hw
  · rcases List.mem_append.mp hw with hw | hw
    · exact not_mem_flags opts w hw
    · exact not_mem_cache_flag opts w hw
  · exact h w hw

/-- The command line as the child sees it, where no NUL is before the path. -/
theorem c_str_cmdline (hexe : 0 ∉ opts.r2_executable) (hargs : ∀ a ∈ opts.extra_args, 0 ∉ a) :
    c_str (R2PipeWinBackend.cmdline opts) =
      crt.quote :: (win_exe opts ++ crt.quote ::
        (spaced ' '.toUInt8 (flags opts ++ cache_flag opts ++ opts.extra_args) ++
          ' '.toUInt8 :: c_str (quoted_path opts))) := by
  rw [cmdline_eq, c_str_name hexe, rest_of_line, c_str_spaced (not_mem_words hargs)]

/-- And where the first one is in an extra argument. -/
theorem c_str_cmdline_args (hexe : 0 ∉ opts.r2_executable) {before after : List Bytes} {a : Bytes}
    (hargs : opts.extra_args = before ++ a :: after) (hbefore : ∀ w ∈ before, 0 ∉ w)
    (ha : 0 ∈ a) :
    c_str (R2PipeWinBackend.cmdline opts) =
      crt.quote :: (win_exe opts ++ crt.quote ::
        spaced ' '.toUInt8 (flags opts ++ cache_flag opts ++ (before ++ [c_str a]))) := by
  have hline : rest_of_line opts =
      spaced ' '.toUInt8 (flags opts ++ cache_flag opts ++ before) ++ ' '.toUInt8 ::
        (a ++ (spaced ' '.toUInt8 after ++ ' '.toUInt8 :: quoted_path opts)) := by
    rw [rest_of_line, hargs, ← List.append_assoc _ before, spaced_append, List.append_assoc,
      spaced_cons]
  rw [cmdline_eq, c_str_name hexe, hline, c_str_spaced (not_mem_words hbefore),
    c_str_append_of_mem ha, ← List.append_assoc _ before, spaced_append]
  simp [spaced]

/-- And where it is in the name of the program. -/
theorem c_str_cmdline_exe (hexe : 0 ∈ opts.r2_executable) :
    c_str (R2PipeWinBackend.cmdline opts) = crt.quote :: c_str opts.r2_executable := by
  have hname : win_exe opts = opts.r2_executable := if_neg (List.ne_nil_of_mem hexe)
  rw [cmdline_eq, c_str_cons (by decide), hname, c_str_append_of_mem hexe]

end

/-! ## The signs of the command line -/

theorem blank_space : crt.blank ' '.toUInt8 = true := by decide

theorem letter_of_byte {c : UInt8}
    (h : c ≠ crt.quote ∧ c ≠ crt.escape ∧ crt.blank c = false) : Letter crt c where
  ne_quote := h.1
  ne_escape := h.2.1
  not_blank := h.2.2

theorem letter_q : Letter crt 'q'.toUInt8 := letter_of_byte (by decide)

theorem letter_equals : Letter crt '='.toUInt8 := letter_of_byte (by decide)

theorem word_of_bytes {w : Bytes}
    (h : w ≠ [] ∧ crt.quote ∉ w ∧ (w.all fun c => !crt.blank c) = true) : Word crt w where
  ne_nil := h.1
  no_quote := h.2.1
  no_blank := by simpa using h.2.2

theorem word_q0 : Word crt (Bytes.lit "-q0") := word_of_bytes (by decide)

theorem word_flags (opts : R2PipeOpenOptions) : ∀ w ∈ flags opts, Word crt w := by
  have hw : Word crt (Bytes.lit "-w") := word_of_bytes (by decide)
  unfold flags
  split <;> simp [word_q0, hw]

theorem word_cache_flag (opts : R2PipeOpenOptions) : ∀ w ∈ cache_flag opts, Word crt w := by
  have he : Word crt (Bytes.lit "-e") := word_of_bytes (by decide)
  have hcache : Word crt (Bytes.lit "bin.cache=true") := word_of_bytes (by decide)
  unfold cache_flag
  split <;> simp [he, hcache]

theorem word_front (opts : R2PipeOpenOptions) :
    ∀ w ∈ flags opts ++ cache_flag opts, Word crt w := by
  intro w hw
  rcases List.mem_append.mp hw with hw | hw
  · exact word_flags opts w hw
  · exact word_cache_flag opts w hw

section
variable {opts : R2PipeOpenOptions}

theorem whole_win_exe : Whole crt true (win_exe opts) ↔ Whole crt true opts.r2_executable := by
  unfold win_exe
  split
  · rename_i hexe
    rw [hexe]
    exact iff_of_true (whole_of_no_quote (by decide)) rfl
  · rfl

theorem spaced_flags (ws : List Bytes) (s : Bytes) :
    spaced ' '.toUInt8 (flags opts ++ ws) ++ s =
      ' '.toUInt8 :: (Bytes.lit "-q0" ++ (spaced ' '.toUInt8 ((flags opts).tail ++ ws) ++ s)) :=
  spaced_cons _ _ _ s

theorem arguments_of_line (hexe : Whole crt true opts.r2_executable) (ws : List Bytes) (s : Bytes) :
    arguments crt (crt.quote :: (win_exe opts ++ crt.quote ::
      (spaced ' '.toUInt8 (flags opts ++ ws) ++ s))) =
      args crt (spaced ' '.toUInt8 (flags opts ++ ws) ++ s) := by
  rw [spaced_flags, arguments_of_whole blank_space (whole_win_exe.mpr hexe)]

end

/-! ## Options without a NUL before the path -/

theorem count_line (opts : R2PipeOpenOptions) {c : UInt8} (hc : Letter crt c) :
    (spaced ' '.toUInt8 (flags opts ++ cache_flag opts ++ opts.extra_args) ++
      ' '.toUInt8 :: c_str (quoted_path opts)).count c =
      (flags opts ++ opts.extra_args ++ [last_arg opts]).flatten.count c +
        (cache_flag opts).flatten.count c := by
  have hblank : ' '.toUInt8 ≠ c := by
    rintro rfl
    exact absurd hc.not_blank (by decide)
  rw [List.count_append, count_spaced hblank, List.count_cons_of_ne hblank,
    count_quoted_path opts hc.ne_quote]
  simp only [List.flatten_append, List.flatten_singleton, List.count_append]
  omega

section
variable {opts : R2PipeOpenOptions}

theorem meant_of_uncut (hargs : ∀ a ∈ opts.extra_args, 0 ∉ a) :
    meant opts = flags opts ++ opts.extra_args ++ [last_arg opts] := by
  rw [meant, map_c_str_eq_self hargs]

variable (hexe : 0 ∉ opts.r2_executable) (hargs : ∀ a ∈ opts.extra_args, 0 ∉ a)
include hexe hargs

theorem child_arguments_of_whole (hwhole : Whole crt true opts.r2_executable) :
    R2PipeWinBackend.child_arguments opts =
      args crt (spaced ' '.toUInt8 (flags opts ++ cache_flag opts ++ opts.extra_args) ++
        ' '.toUInt8 :: c_str (quoted_path opts)) := by
  rw [R2PipeWinBackend.child_arguments, c_str_cmdline hexe hargs, List.append_assoc (flags opts),
    arguments_of_line hwhole]

/-- The `q` of `-q0` tells that the name has not taken it. -/
theorem whole_of_same (h : R2PipeWinBackend.child_arguments opts = meant opts) :
    Whole crt true opts.r2_executable := by
  have hcount := count_line opts letter_q
  have hcache : (cache_flag opts).flatten.count 'q'.toUInt8 = 0 := by
    unfold cache_flag
    split <;> decide
  rw [meant_of_uncut hargs, R2PipeWinBackend.child_arguments, c_str_cmdline hexe hargs,
    List.append_assoc (flags opts), spaced_flags] at h
  rw [hcache, List.append_assoc (flags opts) (cache_flag opts), spaced_flags,
    List.count_cons_of_ne (by decide)] at hcount
  exact whole_win_exe.mp
    (whole_of_arguments blank_space letter_q word_q0 (by decide) hcount.symm h)

/-- The `=` of `bin.cache=true` is one too many. -/
theorem analyze_of_same (h : R2PipeWinBackend.child_arguments opts = meant opts) :
    opts.analyze = true := by
  have hcount := count_line opts letter_equals
  rw [← count_args letter_equals,
    ← child_arguments_of_whole hexe hargs (whole_of_same hexe hargs h), h, meant_of_uncut hargs]
    at hcount
  by_contra hoff
  have hcache : (cache_flag opts).flatten.count '='.toUInt8 = 1 := by
    rw [cache_flag, if_neg hoff]
    decide
  omega

theorem same_of_uncut :
    R2PipeWinBackend.child_arguments opts = meant opts ↔ Passes opts := by
  have hargs_iff (hanalyze : opts.analyze = true) (hwhole : Whole crt true opts.r2_executable) :
      R2PipeWinBackend.child_arguments opts = meant opts ↔
        (∀ w ∈ flags opts ++ opts.extra_args, Word crt w) ∧ PathPasses opts.path := by
    have hcache : cache_flag opts = [] := if_pos hanalyze
    rw [child_arguments_of_whole hexe hargs hwhole, meant_of_uncut hargs, hcache, List.append_nil,
      args_spaced_iff blank_space (length_quoted_path opts), args_quoted_path]
  constructor
  · intro h
    have hanalyze := analyze_of_same hexe hargs h
    have hwhole := whole_of_same hexe hargs h
    obtain ⟨hwords, hpath⟩ := (hargs_iff hanalyze hwhole).mp h
    exact ⟨hanalyze, hexe, hwhole, fun a ha => ⟨hargs a ha, hwords a (List.mem_append_right _ ha)⟩,
      hpath⟩
  · intro h
    refine (hargs_iff h.analyze h.exe).mpr ⟨fun w hw => ?_, h.path⟩
    rcases List.mem_append.mp hw with hw | hw
    · exact word_flags opts w hw
    · exact (h.extra_args w hw).2

end

/-! ## Options that a NUL cuts before the path -/

theorem meant_ne_nil (opts : R2PipeOpenOptions) : meant opts ≠ [] := List.cons_ne_nil _ _

section
variable {opts : R2PipeOpenOptions}

/-- With a NUL in its name, radare2 gets only arguments that stand in that name. -/
theorem same_of_cut_exe (hexe : 0 ∈ opts.r2_executable) :
    R2PipeWinBackend.child_arguments opts = meant opts ↔
      ∃ rest, Leaves crt true (c_str opts.r2_executable) rest ∧ args crt rest = meant opts := by
  have hname : R2PipeWinBackend.child_arguments opts =
      args crt (after_name crt true (c_str opts.r2_executable ++ [])) := by
    rw [R2PipeWinBackend.child_arguments, c_str_cmdline_exe hexe, List.append_nil, arguments,
      after_name, if_pos rfl]
    rfl
  rw [hname]
  constructor
  · intro h
    by_cases hwhole : Whole crt true (c_str opts.r2_executable)
    · rw [after_name_whole hwhole] at h
      exact absurd h.symm (meant_ne_nil opts)
    · rcases name_cases hwhole with ⟨rest, hrest⟩ | hopen
      · rw [after_name_leaves hrest, List.append_nil] at h
        exact ⟨rest, hrest, h⟩
      · rw [hopen] at h
        exact absurd h.symm (meant_ne_nil opts)
  · rintro ⟨rest, hrest, hargs⟩
    rw [after_name_leaves hrest, List.append_nil, hargs]

variable (hexe : 0 ∉ opts.r2_executable) {before after : List Bytes} {a : Bytes}
  (hargs : opts.extra_args = before ++ a :: after) (hbefore : ∀ w ∈ before, 0 ∉ w) (ha : 0 ∈ a)

include hargs hbefore in
theorem meant_of_cut : meant opts =
    flags opts ++ ((before ++ [c_str a]) ++ (after.map c_str ++ [last_arg opts])) := by
  rw [meant, hargs, List.map_append, List.map_cons, map_c_str_eq_self hbefore]
  simp

include hexe hargs hbefore ha

/-- What is lost after a NUL in an extra argument is what Windows adds before the first of them. -/
theorem same_of_cut_args (hwhole : Whole crt true opts.r2_executable) :
    R2PipeWinBackend.child_arguments opts = meant opts ↔
      cache_flag opts ++ (before ++ [c_str a]) =
        (before ++ [c_str a]) ++ (after.map c_str ++ [last_arg opts]) := by
  have hends : Ends crt (spaced ' '.toUInt8 (before ++ [c_str a])) := by
    simpa using ends_spaced blank_space (before ++ [c_str a]) (s := []) nofun
  have hline := arguments_of_line hwhole (cache_flag opts ++ (before ++ [c_str a])) []
  rw [List.append_nil, ← List.append_assoc (flags opts)] at hline
  rw [R2PipeWinBackend.child_arguments, c_str_cmdline_args hexe hargs hbefore ha, hline,
    meant_of_cut hargs hbefore, spaced_append, args_spaced blank_space (word_front opts) hends,
    List.append_assoc, List.append_cancel_left_eq]
  exact append_args_spaced_iff blank_space (word_cache_flag opts) (by simp) _

/-- What is lost stands in the name, behind a blank. A name that goes on after its closing quote
takes the flags with it. -/
theorem same_of_cut_both (hname : ¬ Whole crt true opts.r2_executable) :
    R2PipeWinBackend.child_arguments opts = meant opts ↔
      ∃ rest, Leaves crt true (win_exe opts) rest ∧ args crt (rest ++ crt.quote ::
        spaced ' '.toUInt8 (flags opts ++ cache_flag opts ++ (before ++ [c_str a]))) =
          meant opts := by
  have hline : R2PipeWinBackend.child_arguments opts =
      args crt (after_name crt true (win_exe opts ++ crt.quote ::
        spaced ' '.toUInt8 (flags opts ++ cache_flag opts ++ (before ++ [c_str a])))) := by
    rw [R2PipeWinBackend.child_arguments, c_str_cmdline_args hexe hargs hbefore ha, arguments,
      after_name, if_pos rfl]
    rfl
  rw [hline]
  constructor
  · intro h
    rcases name_cases (mt whole_win_exe.mp hname) with ⟨rest, hrest⟩ | hopen
    · rw [after_name_leaves hrest] at h
      exact ⟨rest, hrest, h⟩
    · have hquote : crt.quote ∉ spaced ' '.toUInt8 (flags opts ++ cache_flag opts) :=
        not_mem_spaced (by decide) fun w hw => (word_front opts w hw).no_quote
      have hafter : after_name crt false (crt.quote ::
          spaced ' '.toUInt8 (flags opts ++ cache_flag opts ++ (before ++ [c_str a]))) =
          after_name crt true (spaced ' '.toUInt8 (before ++ [c_str a])) := by
        rw [after_name, if_pos rfl, spaced_append]
        exact after_name_whole (whole_of_no_quote hquote) _
      have hle := weight_args_le crt
        (after_name crt true (spaced ' '.toUInt8 (before ++ [c_str a])))
      have hlen :=
        (after_name_suffix (g := crt) true (spaced ' '.toUInt8 (before ++ [c_str a]))).length_le
      rw [hopen, hafter] at h
      rw [h, meant_of_cut hargs hbefore, weight_append, weight_append (before ++ [c_str a]), flags,
        weight_cons] at hle
      rw [length_spaced] at hlen
      have hq0 : (Bytes.lit "-q0").length = 3 := rfl
      omega
  · rintro ⟨rest, hrest, hargs⟩
    rw [after_name_leaves hrest, hargs]

end

/-- The options with which a NUL cuts the command line before the path, and what is left of it says
the same all the same. -/
inductive CutShort (opts : R2PipeOpenOptions) : Prop where
  /-- The name of the program holds all the arguments, behind a blank. -/
  | exe (nul : 0 ∈ opts.r2_executable) (rest : Bytes)
      (name : Leaves crt true (c_str opts.r2_executable) rest)
      (spelled : args crt rest = meant opts)
  /-- What is lost is what Windows adds before the extra arguments. -/
  | extra_args (no_nul : 0 ∉ opts.r2_executable)
      (name : Whole crt true opts.r2_executable)
      (before after : List Bytes) (a : Bytes)
      (args : opts.extra_args = before ++ a :: after)
      (first : ∀ w ∈ before, 0 ∉ w) (nul : 0 ∈ a)
      (shifted : cache_flag opts ++ (before ++ [c_str a]) =
        (before ++ [c_str a]) ++ (after.map c_str ++ [last_arg opts]))
  /-- What is lost stands in the name of the program, behind a blank. -/
  | both (no_nul : 0 ∉ opts.r2_executable)
      (name : ¬ Whole crt true opts.r2_executable)
      (before after : List Bytes) (a : Bytes)
      (extra_args : opts.extra_args = before ++ a :: after)
      (first : ∀ w ∈ before, 0 ∉ w) (nul : 0 ∈ a)
      (rest : Bytes) (behind : Leaves crt true (win_exe opts) rest)
      (spelled : args crt (rest ++ crt.quote :: spaced ' '.toUInt8
        (flags opts ++ cache_flag opts ++ (before ++ [c_str a]))) = meant opts)

theorem exists_first_nul {extra_args : List Bytes} (h : ∃ a ∈ extra_args, 0 ∈ a) :
    ∃ before after a, extra_args = before ++ a :: after ∧ (∀ w ∈ before, 0 ∉ w) ∧ 0 ∈ a := by
  obtain ⟨a, ha, hnul⟩ := h
  induction extra_args with
  | nil => cases ha
  | cons w extra_args ih =>
    by_cases hw : 0 ∈ w
    · exact ⟨[], extra_args, w, rfl, nofun, hw⟩
    · have hmem : a ∈ extra_args := by
        rcases List.mem_cons.mp ha with rfl | hmem
        · exact absurd hnul hw
        · exact hmem
      obtain ⟨before, after, b, rfl, hbefore, hb⟩ := ih hmem
      exact ⟨w :: before, after, b, rfl, List.forall_mem_cons.mpr ⟨hw, hbefore⟩, hb⟩

/-- The child on Windows gets the arguments that the one on POSIX gets, exactly with the options
that pass the command line, or for which a NUL cuts it short without a loss. -/
theorem same_arguments_iff (opts : R2PipeOpenOptions) :
    R2PipeWinBackend.child_arguments opts = (R2PipePosixBackend.argv opts).tail ↔
      Passes opts ∨ CutShort opts := by
  rw [argv_tail]
  constructor
  · intro h
    by_cases hexe : 0 ∈ opts.r2_executable
    · obtain ⟨rest, hname, hspelled⟩ := (same_of_cut_exe hexe).mp h
      exact Or.inr (.exe hexe rest hname hspelled)
    · by_cases hargs : ∃ a ∈ opts.extra_args, 0 ∈ a
      · obtain ⟨before, after, a, heq, hbefore, ha⟩ := exists_first_nul hargs
        by_cases hwhole : Whole crt true opts.r2_executable
        · have hshifted := (same_of_cut_args hexe heq hbefore ha hwhole).mp h
          exact Or.inr (.extra_args hexe hwhole before after a heq hbefore ha hshifted)
        · obtain ⟨rest, hrest, hspelled⟩ := (same_of_cut_both hexe heq hbefore ha hwhole).mp h
          exact Or.inr (.both hexe hwhole before after a heq hbefore ha rest hrest hspelled)
      · have hfree : ∀ a ∈ opts.extra_args, 0 ∉ a := fun a ha hnul => hargs ⟨a, ha, hnul⟩
        exact Or.inl ((same_of_uncut hexe hfree).mp h)
  · rintro (h | h)
    · exact (same_of_uncut h.no_nul fun a ha => (h.extra_args a ha).1).mpr h
    · cases h with
      | exe hexe rest hname hspelled => exact (same_of_cut_exe hexe).mpr ⟨rest, hname, hspelled⟩
      | extra_args hexe hname before after a heq hbefore ha hshifted =>
        exact (same_of_cut_args hexe heq hbefore ha hname).mpr hshifted
      | both hexe hname before after a heq hbefore ha rest hrest hspelled =>
        exact (same_of_cut_both hexe heq hbefore ha hname).mpr ⟨rest, hrest, hspelled⟩

/-- A backslash at the end of the path escapes the quote that should close it. -/
theorem a_trailing_backslash_takes_the_quote :
    ¬ ∀ opts : R2PipeOpenOptions, R2PipeWinBackend.child_arguments opts =
      (R2PipePosixBackend.argv opts).tail := by
  intro h
  exact absurd (h { path := Bytes.lit "C:\\bin\\" }) (by decide)

end r2sql
