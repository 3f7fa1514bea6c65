-- Projects over the sessions of the CLI: a session with `--project` goes on from
-- what the last one in write mode has left, over libr and r2pipe alike.
import R2sql.BackendNames
import R2sql.CliArgs
import R2sql.CommandLines
import R2sql.Lib.Checkpoints
import R2sql.Lib.Keyed
import R2sql.ProjectLists
import R2sql.R2Launch

namespace r2sql.projects

open keyed command_line

/-! ## radare2 and its projects -/

/-- A name that radare2 keeps a project under: one operand that a listing can show. -/
def Named (name : Bytes) : Prop := SafeName name ∧ '\r'.toUInt8 ∉ name ∧ 0 ∉ name

instance (name : Bytes) : Decidable (Named name) := inferInstanceAs (Decidable (_ ∧ _))

/-- What a process of radare2 has, and the directory of the projects. -/
structure Process (A D : Type) where
  core : A
  disk : D

/-- radare2, with states of type `A` and a directory of projects of type `D`. A file that cannot be
opened gives no state. `launch` is for the arguments of a program, `step` for a command line, and
`run` for one that is not about projects. -/
structure Radare (A D : Type) where
  core_new : A
  file_open : A → Bytes → Bool → Option A
  bin_load : A → Bytes → A
  project_open : A → D → Bytes → Bool × A
  project_save : A → D → Bytes → D
  launch : List Bytes → Option A
  step : Process A D → Bytes → Bytes × Process A D
  run : A → Bytes → Bytes × A

section
variable {A D C : Type} (r : Radare A D)

/-! ## The backends -/

/-- The backend of a session, with the radare2 that it has started. -/
inductive Opened (A D : Type) where
  | libr (p : Process A D)
  | r2pipe (p : Process A D)

def Opened.process : Opened A D → Process A D
  | libr p | r2pipe p => p

/-- The part of `LibrBackend::open` that opens the file, if there is one, and reopens it so that its
image is mapped. -/
def open_file (a : cli.Args) (p : Process A D) : Except Bytes (Process A D) :=
  if a.source = [] then .ok p
  else
    match r.file_open p.core (c_str a.source) a.write with
    | none => .error (Bytes.lit "could not open file: " ++ a.source)
    | some core =>
      let core := r.bin_load core (c_str a.source)
      .ok (r.step { p with core := core } (Bytes.lit (if a.write then "oo+" else "oo"))).2

/-- `LibrBackend::open`, on the directory. An error is what goes into `err`. -/
def open_libr (a : cli.Args) (disk : D) : Except Bytes (Process A D) :=
  let (loaded_project, core) :=
    if a.project = [] then (false, r.core_new)
    else r.project_open r.core_new disk (c_str a.project)
  let p : Process A D := { core := core, disk := disk }
  if loaded_project then .ok p
  else do
    let p ← open_file r a p
    return if a.analyze then (r.step p (Bytes.lit "aaa")).2 else p

/-- The destructor of `LibrBackend`. -/
def close_libr (a : cli.Args) (p : Process A D) : Process A D :=
  if a.write ∧ a.project ≠ [] then
    { p with disk := r.project_save p.core p.disk (c_str a.project) }
  else p

/-- The options that `open_backend` makes of the arguments. -/
def pipe_options (a : cli.Args) : R2PipeOpenOptions where
  r2_executable := a.r2_exe
  path := a.source
  project := a.project
  analyze := a.analyze
  write := a.write

/-- `R2PipePosixBackend::start`, where the process can be spawned. Without its NUL the handshake
fails. -/
def open_r2pipe (a : cli.Args) (disk : D) : Except Bytes (Process A D) :=
  match r.launch (R2PipePosixBackend.argv (pipe_options a)) with
  | none => .error (Bytes.lit "r2 -q0 handshake failed")
  | some core =>
    .ok ((start_project (pipe_options a)).play r.step { core := core, disk := disk }).2

/-- The lines of its input that the child runs: those before `q`. -/
def child_commands (input : Bytes) : List Bytes :=
  (input.splitOn newline).dropLast.takeWhile (· ≠ Bytes.lit "q")

/-- `R2PipePosixBackend::shutdown`, by what the child does with its input. -/
def close_r2pipe (a : cli.Args) (p : Process A D) : Process A D :=
  (child_commands (shutdown_input (pipe_options a))).foldl (fun p command => (r.step p command).2) p

def libr_failed (message : Bytes) : Bytes :=
  Bytes.lit "r2sql: libr open failed (" ++ c_str message ++
    Bytes.lit "); falling back to r2pipe\n"

def r2pipe_failed (message : Bytes) : Bytes :=
  Bytes.lit "r2sql: r2pipe open failed: " ++ c_str message ++ Bytes.lit "\n"

/-- `open_backend`, and what it prints on stderr. `have_libr` is `R2SQL_HAVE_LIBR`. -/
def open_backend (have_libr : Bool) (a : cli.Args) (disk : D) : Option (Opened A D) × Bytes :=
  let over_pipe (printed : Bytes) : Option (Opened A D) × Bytes :=
    match open_r2pipe r a disk with
    | .ok p => (some (.r2pipe p), printed)
    | .error message => (none, printed ++ r2pipe_failed message)
  if have_libr = true ∧ a.use_pipe = false then
    match open_libr r a disk with
    | .ok p => (some (.libr p), [])
    | .error message => over_pipe (libr_failed message)
  else over_pipe []

/-- The destructor of the backend. -/
def close_backend (a : cli.Args) (p : Process A D) : Opened A D → Process A D
  | .libr _ => close_libr r a p
  | .r2pipe _ => close_r2pipe r a p

/-! ## Sessions -/

/-- A run of the CLI: its build, its arguments, and what the session does with the backend until it
ends, with what it prints. -/
structure CliSession where
  have_libr : Bool
  args : cli.Args
  work : R2 Bytes

/-- A session from its start to its end: what it prints and the directory that it leaves, if the
backend could be opened. -/
def CliSession.run (s : CliSession) (disk : D) : Option (Bytes × D) :=
  match (open_backend r s.have_libr s.args disk).1 with
  | none => none
  | some be =>
    let (text, p) := s.work.play r.step be.process
    some (text, (close_backend r s.args p be).disk)

/-- Sessions one after another, all opened. -/
def run_all : List CliSession → D → Option (List Bytes × D)
  | [], disk => some ([], disk)
  | s :: ss, disk => do
    let (text, disk) ← s.run r disk
    let (texts, disk) ← run_all ss disk
    return (text :: texts, disk)

/-! ## What they are for -/

/-- What is known of the projects: what the directory has under a name, what comes back of it, and
what is saved of a state. -/
structure Projects (A D C : Type) where
  find : D → Bytes → Option C
  load : C → A
  save : A → C

/-- The command works on the state alone, as one that is not about projects does. -/
def Radare.Alone (command : Bytes) : Prop :=
  ∀ p, r.step p command =
    ((r.run p.core command).1, { p with core := (r.run p.core command).2 })

/-- The state with a file, as libr opens it. -/
def Radare.file (path : Bytes) (write : Bool) : Option A :=
  (r.file_open r.core_new path write).map fun core =>
    (r.run (r.bin_load core path) (Bytes.lit (if write then "oo+" else "oo"))).2

/-- What is known of radare2. The functions on projects open and save them by their names, and what
was open before makes no difference. `P` and `Ps` call them, and `Pl` lists the projects. With a
file, the launcher ends where libr's calls do. -/
structure Radare.Documented (ps : Projects A D C) : Prop where
  loads : ∀ core disk name, Named name → r.project_open core disk name =
    match ps.find disk name with
    | some saved => (true, ps.load saved)
    | none => (false, core)
  saves : ∀ core disk name, Named name → ps.find (r.project_save core disk name) =
    Function.update (ps.find disk) name (some (ps.save core))
  opens_project : ∀ p name, Named name → (r.step p (Bytes.lit "P " ++ name)).2 =
    { p with core := (r.project_open p.core p.disk name).2 }
  saves_project : ∀ p name, Named name → (r.step p (Bytes.lit "Ps " ++ name)).2.disk =
    r.project_save p.core p.disk name
  lists : ∀ p, ∃ lines final, r.step p (Bytes.lit "Pl") = (listing lines final, p) ∧
    ∀ name, Named name →
      ((∃ l ∈ lines, l.project.text = name) ↔ (ps.find p.disk name).isSome)
  opens : ∀ a : cli.Args, a.r2_exe = [] → a.source ≠ [] → 0 ∉ a.source →
    a.source.head? ≠ some '-'.toUInt8 →
      r.launch (R2PipePosixBackend.argv (pipe_options a)) = r.file a.source a.write
  alone : ∀ command ∈ ["aaa", "oo", "oo+"], r.Alone (Bytes.lit command)

/-- The build and the options choose libr. -/
def CliSession.over_libr (s : CliSession) : Prop :=
  s.have_libr = true ∧ s.args.use_pipe = false

instance (s : CliSession) : Decidable s.over_libr := inferInstanceAs (Decidable (_ ∧ _))

/-- What the backend of a session starts with: the file, or what each backend has without one. -/
def CliSession.started (s : CliSession) : Option A :=
  if s.args.source ≠ [] then r.file s.args.source s.args.write
  else if s.over_libr then some r.core_new
  else r.launch (R2PipePosixBackend.argv (pipe_options s.args))

/-- That, analysed if it is asked for. -/
def CliSession.fresh (s : CliSession) : A :=
  let core := (s.started r).getD r.core_new
  if s.args.analyze then (r.run core (Bytes.lit "aaa")).2 else core

/-- A session on checkpoints. -/
def CliSession.meant (ps : Projects A D C) (s : CliSession) :
    checkpoints.Session Bytes C A Bytes where
  key := if s.args.project = [] then none else some s.args.project
  fresh := s.fresh r
  load := ps.load
  work core := s.work.play r.run core
  save := ps.save
  saves := s.args.write

/-- The session has a name that a project can have, if any, and a file that is no option and can be
opened, if any. What it does is not about projects. The program that it spawns is radare2. -/
structure CliSession.Ok (s : CliSession) : Prop where
  program : s.over_libr ∨ s.args.r2_exe = []
  named : s.args.project = [] ∨ Named s.args.project
  source : 0 ∉ s.args.source ∧ s.args.source.head? ≠ some '-'.toUInt8
  starts : ∃ core, s.started r = some core
  work : s.work.Asks r.Alone

/-! ## One command -/

variable {r} {ps : Projects A D C} (p : Process A D)

theorem play_of_alone {α : Type} {m : R2 α} (h : m.Asks r.Alone) :
    m.play r.step p = ((m.play r.run p.core).1, { p with core := (m.play r.run p.core).2 }) := by
  induction m generalizing p with
  | done a => rfl
  | ask command k ih =>
    rw [Dialogue.play_ask, Dialogue.play_ask, h.1 p]
    exact ih _ _ (h.2 _)

theorem play_project_exists (hr : r.Documented ps) {name : Bytes} (hname : Named name) :
    (project_exists_ name).play r.step p = ((ps.find p.disk name).isSome, p) := by
  obtain ⟨lines, final, hreply, hlines⟩ := hr.lists p
  have hfound := found_iff_listed (fun _ => listing lines final) hname.1.1 rfl
  rw [hlines name hname, Bool.coe_iff_coe] at hfound
  unfold project_exists_
  rw [Dialogue.play_bind, play_cmd, hreply, Dialogue.play_pure]
  exact congrArg (·, p) hfound

theorem play_start_project (hr : r.Documented ps) {opts : R2PipeOpenOptions}
    (hnamed : opts.project = [] ∨ Named opts.project) :
    ((start_project opts).play r.step p).2 =
      match if opts.project = [] then none else ps.find p.disk opts.project with
      | some saved => { p with core := ps.load saved }
      | none => if opts.analyze then (r.step p (Bytes.lit "aaa")).2 else p := by
  unfold start_project
  by_cases hproject : opts.project = []
  · by_cases hanalyze : opts.analyze = true <;> simp [hproject, hanalyze]
  · have hname := hnamed.resolve_left hproject
    have hplay := play_project_exists p hr hname
    rw [if_neg fun h => hproject h.2, if_pos hproject, if_neg hproject]
    simp only [Dialogue.play_bind, hplay]
    cases hfind : ps.find p.disk opts.project with
    | none => by_cases hanalyze : opts.analyze = true <;> simp [hanalyze]
    | some saved => simp [hr.opens_project p _ hname, hr.loads _ _ _ hname, hfind]

theorem child_commands_shutdown {opts : R2PipeOpenOptions}
    (hnamed : opts.project = [] ∨ Named opts.project) :
    child_commands (shutdown_input opts) =
      if opts.write ∧ opts.project ≠ [] then [Bytes.lit "Ps " ++ opts.project] else [] := by
  have hquit : child_commands (Bytes.lit "q\n") = [] := by decide
  unfold shutdown_input
  split
  · rename_i hsave
    have hname := (hnamed.resolve_left hsave.2).1
    have hline : newline ∉ Bytes.lit "Ps " ++ opts.project := by
      intro h
      rcases List.mem_append.mp h with h | h
      · exact absurd h (by decide)
      · exact hname.2 _ h (by decide)
    have hne : Bytes.lit "Ps " ++ opts.project ≠ Bytes.lit "q" := by
      intro h
      exact absurd (List.cons.inj h).1 (by decide)
    have hsplit := List.splitOn_append_cons_self_of_not_mem hline (Bytes.lit "q\n")
    unfold child_commands at hquit ⊢
    rw [List.append_assoc, List.singleton_append, hsplit,
      List.dropLast_cons_of_ne_nil (List.splitOn_ne_nil _ _), List.takeWhile_cons, hquit,
      if_pos (by simpa using hne)]
  · exact hquit

/-! ## The start and the end of a session -/

/-- What a session begins with. -/
def begun (r : Radare A D) (ps : Projects A D C) (s : CliSession) (disk : D) : Process A D :=
  { core := (s.meant r ps).start (ps.find disk), disk := disk }

section
variable {s : CliSession} (hr : r.Documented ps) (h : s.Ok r) (disk : D)

/-- The checkpoint of a session. -/
def kept (ps : Projects A D C) (s : CliSession) (disk : D) : Option C :=
  if s.args.project = [] then none else ps.find disk s.args.project

theorem start_eq : (s.meant r ps).start (ps.find disk) =
    ((kept ps s disk).map ps.load).getD (s.fresh r) := by
  unfold checkpoints.Session.start checkpoints.Session.restore CliSession.meant kept
  dsimp only
  split <;> rfl

theorem begun_of_saved {saved : C} (hkept : kept ps s disk = some saved) :
    begun r ps s disk = { core := ps.load saved, disk := disk } := by
  rw [begun, start_eq, hkept]
  rfl

theorem c_str_project (h : s.Ok r) : c_str s.args.project = s.args.project := by
  rcases h.named with hnil | hnamed
  · rw [hnil]
    rfl
  · exact c_str_eq_self hnamed.2.2

include hr

theorem begun_of_started {core : A} (hstarted : s.started r = some core)
    (hkept : kept ps s disk = none) :
    begun r ps s disk =
      if s.args.analyze then (r.step { core := core, disk := disk } (Bytes.lit "aaa")).2
      else { core := core, disk := disk } := by
  rw [begun, start_eq, hkept, hr.alone "aaa" (by simp), CliSession.fresh, hstarted]
  dsimp only [Option.map_none, Option.getD_none, Option.getD_some]
  split <;> rfl

include h

theorem open_file_eq (hlibr : s.over_libr) {core : A} (hstarted : s.started r = some core) :
    open_file r s.args { core := r.core_new, disk := disk } =
      .ok { core := core, disk := disk } := by
  unfold CliSession.started at hstarted
  unfold open_file
  rw [c_str_eq_self h.source.1]
  split
  · rename_i hsource
    rw [if_neg (not_not.mpr hsource), if_pos hlibr, Option.some.injEq] at hstarted
    rw [hstarted]
  · rename_i hsource
    rw [if_pos hsource, Radare.file, Option.map_eq_some_iff] at hstarted
    obtain ⟨file, hfile, rfl⟩ := hstarted
    have halone : r.Alone (Bytes.lit (if s.args.write then "oo+" else "oo")) :=
      hr.alone _ (by split <;> simp)
    rw [hfile]
    dsimp only
    rw [halone]

theorem open_libr_eq (hlibr : s.over_libr) : open_libr r s.args disk = .ok (begun r ps s disk) := by
  have hproject : (if s.args.project = [] then (false, r.core_new)
      else r.project_open r.core_new disk (c_str s.args.project)) =
        match kept ps s disk with
        | some saved => (true, ps.load saved)
        | none => (false, r.core_new) := by
    rw [c_str_project h]
    unfold kept
    split
    · rfl
    · rename_i hsome
      exact hr.loads _ _ _ (h.named.resolve_left hsome)
  unfold open_libr
  rw [hproject]
  cases hkept : kept ps s disk with
  | some saved =>
    rw [begun_of_saved disk hkept]
    rfl
  | none =>
    obtain ⟨core, hstarted⟩ := h.starts
    have hfile := open_file_eq hr h disk hlibr hstarted
    dsimp only
    rw [if_neg Bool.false_ne_true, hfile, begun_of_started hr disk hstarted hkept]
    rfl

theorem open_r2pipe_eq (hpipe : ¬ s.over_libr) :
    open_r2pipe r s.args disk = .ok (begun r ps s disk) := by
  obtain ⟨core, hstarted⟩ := h.starts
  have hlaunch : r.launch (R2PipePosixBackend.argv (pipe_options s.args)) = some core := by
    rw [← hstarted, CliSession.started, if_neg hpipe]
    split
    · rename_i hsource
      exact hr.opens _ (h.program.resolve_left hpipe) hsource h.source.1 h.source.2
    · rfl
  unfold open_r2pipe
  rw [hlaunch]
  dsimp only
  rw [play_start_project _ hr h.named]
  cases hkept : kept ps s disk with
  | some saved =>
    have hproject : (if (pipe_options s.args).project = [] then none
        else ps.find disk (pipe_options s.args).project) = some saved := hkept
    rw [hproject, begun_of_saved disk hkept]
  | none =>
    have hproject : (if (pipe_options s.args).project = [] then none
        else ps.find disk (pipe_options s.args).project) = none := hkept
    rw [hproject, begun_of_started hr disk hstarted hkept]
    rfl

theorem close_eq (p : Process A D) (be : Opened A D) :
    ps.find (close_backend r s.args p be).disk =
      if s.args.write ∧ s.args.project ≠ [] then
        Function.update (ps.find p.disk) s.args.project (some (ps.save p.core))
      else ps.find p.disk := by
  have hsaves : s.args.write = true ∧ s.args.project ≠ [] → Named s.args.project :=
    fun hsave => h.named.resolve_left hsave.2
  cases be with
  | libr q =>
    rw [close_backend, close_libr, c_str_project h]
    split
    · rename_i hsave
      exact hr.saves _ _ _ (hsaves hsave)
    · rfl
  | r2pipe q =>
    have hcommands : child_commands (shutdown_input (pipe_options s.args)) =
        if s.args.write ∧ s.args.project ≠ [] then [Bytes.lit "Ps " ++ s.args.project] else [] :=
      child_commands_shutdown h.named
    rw [close_backend, close_r2pipe, hcommands]
    split
    · rename_i hsave
      rw [List.foldl_cons, List.foldl_nil, hr.saves_project _ _ (hsaves hsave),
        hr.saves _ _ _ (hsaves hsave)]
    · rfl

theorem open_backend_eq : ∃ be, (open_backend r s.have_libr s.args disk).1 = some be ∧
    be.process = begun r ps s disk := by
  unfold open_backend
  dsimp only
  split
  · rename_i hlibr
    rw [open_libr_eq hr h disk hlibr]
    exact ⟨_, rfl, rfl⟩
  · rename_i hpipe
    rw [open_r2pipe_eq hr h disk hpipe]
    exact ⟨_, rfl, rfl⟩

/-! ## One session, and all -/

theorem run_eq : ∃ after, s.run r disk = some (((s.meant r ps).run (ps.find disk)).1, after) ∧
    ps.find after = ((s.meant r ps).run (ps.find disk)).2 := by
  obtain ⟨be, hopen, hprocess⟩ := open_backend_eq hr h disk
  let p : Process A D := { core := (s.work.play r.run (begun r ps s disk).core).2, disk := disk }
  have hplay : s.work.play r.step be.process = (((s.meant r ps).run (ps.find disk)).1, p) := by
    rw [hprocess, play_of_alone _ h.work]
    rfl
  refine ⟨(close_backend r s.args p be).disk, ?_, ?_⟩
  · simp only [CliSession.run, hopen, hplay]
  · have hkept : ((s.meant r ps).run (ps.find disk)).2 =
        (s.meant r ps).kept (ps.find disk) p.core := rfl
    rw [close_eq hr h, hkept]
    unfold checkpoints.Session.kept CliSession.meant
    dsimp only
    by_cases hproject : s.args.project = []
    · rw [if_neg fun hsave => hsave.2 hproject, if_pos hproject]
    · by_cases hwrite : s.args.write = true
      · rw [if_pos ⟨hwrite, hproject⟩, if_neg hproject]
        dsimp only
        rw [if_pos hwrite]
      · rw [if_neg fun hsave => hwrite hsave.1, if_neg hproject]
        dsimp only
        rw [if_neg hwrite]

end

/-- The sessions of the CLI, over either backend and in any mixture of the two, are sessions over
checkpoints. -/
theorem sessions_go_on_from_projects (hr : r.Documented ps) {ss : List CliSession}
    (hok : ∀ s ∈ ss, s.Ok r) (disk : D) :
    ∃ texts after, run_all r ss disk = some (texts, after) ∧
      (texts, ps.find after) = checkpoints.runs (ps.find disk) (ss.map (CliSession.meant r ps)) ∧
      ∀ name, ps.find after name =
        checkpoints.history name (ps.find disk name) (ss.map (CliSession.meant r ps)) := by
  have hruns : ∃ texts after, run_all r ss disk = some (texts, after) ∧
      (texts, ps.find after) =
        checkpoints.runs (ps.find disk) (ss.map (CliSession.meant r ps)) := by
    induction ss generalizing disk with
    | nil => exact ⟨[], disk, rfl, rfl⟩
    | cons s ss ih =>
      rw [List.forall_mem_cons] at hok
      obtain ⟨next, hrun, hnext⟩ := run_eq hr hok.1 disk
      obtain ⟨texts, after, hall, hafter⟩ := ih hok.2 next
      refine ⟨((s.meant r ps).run (ps.find disk)).1 :: texts, after, ?_, ?_⟩
      · simp [run_all, hrun, hall]
      · rw [hnext] at hafter
        rw [List.map_cons, checkpoints.runs_cons, ← hafter]
  obtain ⟨texts, after, hall, hafter⟩ := hruns
  refine ⟨texts, after, hall, hafter, fun name => ?_⟩
  rw [← checkpoints.runs_store, ← hafter]

end

/-! ## A project of two sessions -/

/-- A project in a table. -/
structure Saved where
  name : Bytes
  named : Named name
  commands : List Bytes

abbrev Disk := Table Saved.name

def Disk.save (disk : Disk) (name : Bytes) (commands : List Bytes) : Disk :=
  if h : Named name then disk.put { name := name, named := h, commands := commands } else disk

theorem find_save (disk : Disk) {name : Bytes} (hname : Named name) (commands : List Bytes) :
    (fun k => ((disk.save name commands).find k).map Saved.commands) =
      Function.update (fun k => (disk.find k).map Saved.commands) name (some commands) := by
  funext k
  rw [Disk.save, dif_pos hname, Table.find_put, Function.update_apply]
  split <;> rfl

/-- A radare2 whose state is the list of what it was told. A project has that list. -/
def recorder : Radare (List Bytes) Disk where
  core_new := []
  file_open core path _ := some (core ++ [path])
  bin_load core _ := core
  project_open core disk name :=
    match disk.find name with
    | some saved => (true, saved.commands)
    | none => (false, core)
  project_save core disk name := disk.save name core
  launch argv := argv.getLast?.map fun path =>
    if path = Bytes.lit "-" then [Bytes.lit "malloc://512"]
    else [path, Bytes.lit (if Bytes.lit "-w" ∈ argv then "oo+" else "oo")]
  step p command :=
    if command = Bytes.lit "Pl" then (p.disk.rows.flatMap fun saved => saved.name ++ [newline], p)
    else if verb command = Bytes.lit "P" then
      match p.disk.find (arguments command) with
      | some saved => ([], { p with core := saved.commands })
      | none => ([], p)
    else if verb command = Bytes.lit "Ps" then
      ([], { p with disk := p.disk.save (arguments command) p.core })
    else ([], { p with core := p.core ++ [command] })
  run core command := ([], core ++ [command])

/-- Its projects. -/
def recorded : Projects (List Bytes) Disk (List Bytes) where
  find disk name := (disk.find name).map Saved.commands
  load commands := commands
  save core := core

/-- The line of a project in a listing. -/
def line_of (saved : Saved) : ListingLine where
  project :=
    { text := saved.name
      no_newline := fun hmem => saved.named.1.2 _ hmem (by decide)
      no_return := saved.named.2.1
      no_space_before := fun hhead => saved.named.1.2 _ (List.mem_of_mem_head? hhead) (by decide)
      no_space_after := fun hlast => saved.named.1.2 _ (List.mem_of_getLast? hlast) (by decide) }
  before := 0
  after := 0
  crlf := false

theorem recorder_alone {command : Bytes} (hlist : command ≠ Bytes.lit "Pl")
    (hopen : verb command ≠ Bytes.lit "P") (hsave : verb command ≠ Bytes.lit "Ps") :
    recorder.Alone command := by
  intro p
  change (if command = Bytes.lit "Pl" then _ else _) = _
  rw [if_neg hlist, if_neg hopen, if_neg hsave]
  rfl

theorem recorder_documented : recorder.Documented recorded where
  loads core disk name _ := by
    change (match disk.find name with | some saved => _ | none => _) = _
    cases hfind : disk.find name <;> simp [recorded, hfind]
  saves core disk name hname := find_save disk hname core
  opens_project p name hname := by
    have hcommand : Bytes.lit "P " ++ name = Bytes.lit "P" ++ ' '.toUInt8 :: name := rfl
    have hlist : Bytes.lit "P" ++ ' '.toUInt8 :: name ≠ Bytes.lit "Pl" := by
      intro h
      exact absurd (List.cons.inj (List.cons.inj h).2).1 (by decide)
    rw [hcommand]
    change Prod.snd (if _ then _ else _) = _
    rw [if_neg hlist, verb_append (by decide), if_pos rfl, arguments_append (by decide)]
    change _ = Process.mk (Prod.snd (match p.disk.find name with | some saved => _ | none => _)) _
    cases p.disk.find name <;> rfl
  saves_project p name _ := by
    have hcommand : Bytes.lit "Ps " ++ name = Bytes.lit "Ps" ++ ' '.toUInt8 :: name := rfl
    have hlist : Bytes.lit "Ps" ++ ' '.toUInt8 :: name ≠ Bytes.lit "Pl" := by
      intro h
      exact absurd (List.cons.inj (List.cons.inj h).2).1 (by decide)
    rw [hcommand]
    change Process.disk (Prod.snd (if _ then _ else _)) = _
    rw [if_neg hlist, verb_append (by decide), if_neg (by decide), if_pos rfl,
      arguments_append (by decide)]
    rfl
  lists p := by
    refine ⟨p.disk.rows.map line_of, true, ?_, fun name _ => ?_⟩
    · have htext : (p.disk.rows.map line_of).flatMap (fun l => l.text ++ [newline]) =
          p.disk.rows.flatMap fun saved => saved.name ++ [newline] := by
        rw [List.flatMap_map]
        refine List.flatMap_congr fun saved _ => ?_
        simp [ListingLine.text, line_of]
      change _ = ((p.disk.rows.map line_of).flatMap (fun l => l.text ++ [newline]), p)
      rw [htext]
      rfl
    · rw [recorded, Option.isSome_map, Option.isSome_iff_exists]
      simp [Table.find_eq_some_iff, line_of]
  opens a hprogram hsource hnul hoption := by
    have hargv : R2PipePosixBackend.argv (pipe_options a) =
        (if a.write then ["radare2", "-q0", "-w"] else ["radare2", "-q0"]).map Bytes.lit ++
          [a.source] := by
      have hpath : c_str a.source = a.source := c_str_eq_self hnul
      have hwords : ∀ word ∈ ["radare2", "-q0", "-w"],
          c_str (Bytes.lit word) = Bytes.lit word := by
        decide +kernel
      cases hwrite : a.write <;>
        simp [R2PipePosixBackend.argv, R2PipePosixBackend.args, pipe_options, hprogram, hsource,
          hwrite, hpath, hwords]
    have hfile : ∀ option ∈ ["-", "-w"], Bytes.lit option ≠ a.source := by
      rintro option hmem heq
      rw [← heq] at hoption
      rcases List.mem_pair.mp hmem with rfl | rfl <;> exact hoption rfl
    have hdash := hfile "-" (by simp)
    have hw := hfile "-w" (by simp)
    have hwords : ∀ word ∈ ["radare2", "-q0"], Bytes.lit "-w" ≠ Bytes.lit word := by
      decide +kernel
    cases hwrite : a.write <;>
      simp [recorder, Radare.file, hargv, hwrite, hwords, hw, hdash.symm]
  alone command hcommand := by
    have hverbs : ∀ c ∈ ["aaa", "oo", "oo+"], Bytes.lit c ≠ Bytes.lit "Pl" ∧
        verb (Bytes.lit c) ≠ Bytes.lit "P" ∧ verb (Bytes.lit c) ≠ Bytes.lit "Ps" := by
      decide +kernel
    obtain ⟨hlist, hopen, hsave⟩ := hverbs command hcommand
    exact recorder_alone hlist hopen hsave

/-- Runs of `r2sql -s fw.bin --project fw`, the last two with `--r2pipe`, and the first two with
`-w`. -/
def a_project_of_two_sessions : List CliSession :=
  let args : cli.Args := { source := Bytes.lit "fw.bin", project := Bytes.lit "fw" }
  [{ have_libr := true, args := { args with write := true }
     work := cmd (Bytes.lit "afn main @ 0x10") },
    { have_libr := true, args := { args with write := true, use_pipe := true }
      work := cmd (Bytes.lit "afn init @ 0x20") },
    { have_libr := true, args := { args with use_pipe := true }
      work := cmd (Bytes.lit "afn fini @ 0x30") }]

theorem the_project_has_both_names :
    ∃ texts after, run_all recorder a_project_of_two_sessions ⟨[], List.nodup_nil⟩ =
        some (texts, after) ∧
      recorded.find after (Bytes.lit "fw") = some (["fw.bin", "oo+", "aaa", "afn main @ 0x10",
        "afn init @ 0x20"].map Bytes.lit) := by
  have hnamed : Named (Bytes.lit "fw") := by decide +kernel
  have halone : ∀ c ∈ ["afn main @ 0x10", "afn init @ 0x20", "afn fini @ 0x30"],
      Bytes.lit c ≠ Bytes.lit "Pl" ∧ verb (Bytes.lit c) ≠ Bytes.lit "P" ∧
        verb (Bytes.lit c) ≠ Bytes.lit "Ps" := by
    decide +kernel
  have hwork : ∀ c ∈ ["afn main @ 0x10", "afn init @ 0x20", "afn fini @ 0x30"],
      (cmd (Bytes.lit c)).Asks recorder.Alone := by
    intro c hc
    obtain ⟨hlist, hopen, hsave⟩ := halone c hc
    exact ⟨recorder_alone hlist hopen hsave, fun _ => trivial⟩
  have hok : ∀ s ∈ a_project_of_two_sessions, s.Ok recorder := by
    refine List.forall_mem_cons.mpr ⟨?_, List.forall_mem_cons.mpr ⟨?_,
      List.forall_mem_singleton.mpr ?_⟩⟩
    all_goals exact ⟨by decide, .inr hnamed, by decide, ⟨_, rfl⟩, hwork _ (by simp)⟩
  obtain ⟨texts, after, hall, -, hkept⟩ :=
    sessions_go_on_from_projects recorder_documented hok ⟨[], List.nodup_nil⟩
  refine ⟨texts, after, hall, ?_⟩
  rw [hkept]
  decide +kernel

end r2sql.projects
