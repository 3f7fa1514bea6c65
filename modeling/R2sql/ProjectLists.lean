-- The project of an r2pipe backend: `start` looks for it in the reply of `Pl`
-- and loads it where it is there. The scan finds a name exactly where the
-- listing has it, so no saved project is taken for a new one.
import R2sql.Backend
import R2sql.R2Pipe

namespace r2sql

/-! ## The scan -/

/-- `list.find('\n', pos)`, none for `npos`. -/
def find_newline (list : Bytes) (pos : Nat) : Option Nat :=
  ((list.drop pos).findIdx? fun c => c == newline).map fun i => pos + i

/-- The two trimming loops: CRs and spaces at the end, then spaces at the front. -/
def trim (line : Bytes) : Bytes :=
  (line.rdropWhile fun c => c == '\r'.toUInt8 || c == ' '.toUInt8).dropWhile fun c =>
    c == ' '.toUInt8

/-- The line at a position:
`string_view(list.data() + pos, (nl == npos ? list.size() : nl) - pos)`. -/
def line_at (list : Bytes) (pos : Nat) : Bytes :=
  (list.drop pos).take ((find_newline list pos).getD list.length - pos)

/-- The position after the line: `(nl == npos) ? list.size() : nl + 1`. -/
def next_pos (list : Bytes) (pos : Nat) : Nat :=
  match find_newline list pos with
  | some nl => nl + 1
  | none => list.length

theorem lt_next_pos {list : Bytes} {pos : Nat} (h : pos < list.length) :
    pos < next_pos list pos := by
  unfold next_pos
  split
  · rename_i nl hnl
    obtain ⟨i, -, rfl⟩ := Option.map_eq_some_iff.mp hnl
    omega
  · exact h

/-- The loop of `project_exists_` from a position of the listing. -/
def listed_from (list name : Bytes) (pos : Nat) : Bool :=
  if pos < list.length then
    if trim (line_at list pos) = name then true else listed_from list name (next_pos list pos)
  else false
termination_by list.length - pos
decreasing_by
  have := lt_next_pos ‹pos < list.length›
  omega

/-- `project_exists_`. -/
def project_exists_ (name : Bytes) : R2 Bool := do
  let list ← cmd (Bytes.lit "Pl")
  return listed_from list name 0

/-- What `start` does with the project after the handshake. A project that is there is loaded, and
takes the place of a fresh analysis. -/
def start_project (opts : R2PipeOpenOptions) : R2 Unit := do
  if opts.analyze ∧ opts.project = [] then
    let _ ← cmd (Bytes.lit "aaa")
  if opts.project ≠ [] then
    let found ← project_exists_ opts.project
    if found then
      let _ ← cmd (Bytes.lit "P " ++ opts.project)
    else if opts.analyze then
      let _ ← cmd (Bytes.lit "aaa")

/-- What `shutdown` writes to the child: the save of the project, if it is one to write, and the
end. -/
def shutdown_input (opts : R2PipeOpenOptions) : Bytes :=
  (if opts.write ∧ opts.project ≠ [] then Bytes.lit "Ps " ++ opts.project ++ [newline] else []) ++
    Bytes.lit "q\n"

/-! ## The lines of a listing -/

section
variable {list name : Bytes} {pos : Nat}

theorem find_newline_of_not_mem (h : newline ∉ list.drop pos) : find_newline list pos = none := by
  unfold find_newline
  rw [Option.map_eq_none_iff, List.findIdx?_eq_none_iff]
  intro c hc
  simpa using ne_of_mem_of_not_mem hc h

theorem find_newline_of_line {line rest : Bytes} (hlist : list.drop pos = line ++ newline :: rest)
    (hline : newline ∉ line) : find_newline list pos = some (pos + line.length) := by
  have hnone : line.findIdx? (fun c => c == newline) = none := by
    rw [List.findIdx?_eq_none_iff]
    intro c hc
    simpa using ne_of_mem_of_not_mem hc hline
  unfold find_newline
  rw [hlist, List.findIdx?_append, hnone]
  simp [List.findIdx?_cons]

theorem listed_from_of_line {line rest : Bytes} (hlist : list.drop pos = line ++ newline :: rest)
    (hline : newline ∉ line) :
    listed_from list name pos =
      (decide (trim line = name) || listed_from list name (pos + line.length + 1)) := by
  have hlt : pos < list.length := by
    by_contra hge
    rw [List.drop_of_length_le (by omega)] at hlist
    simp at hlist
  have hnl := find_newline_of_line hlist hline
  have hat : line_at list pos = line := by
    rw [line_at, hnl, Option.getD_some, Nat.add_sub_cancel_left, hlist, List.take_left]
  have hnext : next_pos list pos = pos + line.length + 1 := by rw [next_pos, hnl]
  rw [listed_from, if_pos hlt, hat, hnext]
  by_cases hfound : trim line = name <;> simp [hfound]

/-- The last turn of the loop, where no newline is left. A name that is not empty is not found in
the nothing after the last newline. -/
theorem listed_from_of_last (hname : name ≠ []) (hlast : newline ∉ list.drop pos) :
    listed_from list name pos = decide (trim (list.drop pos) = name) := by
  rw [listed_from]
  by_cases hlt : pos < list.length
  · have hnl := find_newline_of_not_mem hlast
    have hat : line_at list pos = list.drop pos := by
      rw [line_at, hnl, Option.getD_none, List.take_of_length_le (by simp)]
    have hnext : next_pos list pos = list.length := by rw [next_pos, hnl]
    have hend : listed_from list name list.length = false := by
      rw [listed_from, if_neg (Nat.lt_irrefl _)]
    rw [if_pos hlt, hat, hnext, hend]
    by_cases hfound : trim (list.drop pos) = name <;> simp [hfound]
  · rw [if_neg hlt, List.drop_of_length_le (by omega)]
    exact (decide_eq_false fun h : trim [] = name => hname h.symm).symm

/-- The scan finds a name that some line from the position on has. -/
theorem listed_from_iff (hname : name ≠ []) :
    listed_from list name pos = true ↔
      ∃ line ∈ (list.drop pos).splitOn newline, trim line = name := by
  induction hn : (list.drop pos).length using Nat.strong_induction_on generalizing pos with
  | _ n ih =>
    subst hn
    by_cases hmem : newline ∈ list.drop pos
    · obtain ⟨line, rest, hlist, hline⟩ := List.eq_append_cons_of_mem hmem
      have hrest : list.drop (pos + line.length + 1) = rest := by
        rw [Nat.add_assoc, ← List.drop_drop, hlist, ← List.drop_drop, List.drop_left]
        rfl
      have hlen : (list.drop (pos + line.length + 1)).length < (list.drop pos).length := by
        rw [hrest, hlist]
        simp only [List.length_append, List.length_cons]
        omega
      rw [listed_from_of_line hlist hline, Bool.or_eq_true, decide_eq_true_iff, ih _ hlen rfl,
        hrest, hlist, List.splitOn_append_cons_self_of_not_mem hline]
      simp
    · rw [listed_from_of_last hname hmem, decide_eq_true_iff, List.splitOn_eq_singleton hmem]
      simp

end

/-! ## Rendered listings -/

/-- The name of a project that a listing can show. -/
structure ProjectName where
  text : Bytes
  no_newline : newline ∉ text
  no_return : '\r'.toUInt8 ∉ text
  no_space_before : text.head? ≠ some ' '.toUInt8
  no_space_after : text.getLast? ≠ some ' '.toUInt8

/-- One line of a listing: a name, the spaces before and after it, and whether its line ends in
CRLF. -/
structure ListingLine where
  project : ProjectName
  before : Nat
  after : Nat
  crlf : Bool

/-- The line without its LF. -/
def ListingLine.text (l : ListingLine) : Bytes :=
  List.replicate l.before ' '.toUInt8 ++ l.project.text ++ List.replicate l.after ' '.toUInt8 ++
    if l.crlf then ['\r'.toUInt8] else []

/-- The lines one after another, with or without the last LF. -/
def listing (lines : List ListingLine) (final : Bool) : Bytes :=
  let text := lines.flatMap fun l => l.text ++ [newline]
  if final then text else text.dropLast

theorem rdropWhile_append {p : UInt8 → Bool} {u v : Bytes} (h : ∀ c ∈ v, p c) :
    (u ++ v).rdropWhile p = u.rdropWhile p := by
  unfold List.rdropWhile
  rw [List.reverse_append, List.dropWhile_append_of_pos (by simpa using h)]

/-- What the first trimming loop takes off the end of a line. -/
def ends_blank (c : UInt8) : Bool := c == '\r'.toUInt8 || c == ' '.toUInt8

theorem ProjectName.not_ends_blank (name : ProjectName) (hne : name.text ≠ []) :
    ¬ ends_blank (name.text.getLast hne) := by
  have hreturn := ne_of_mem_of_not_mem (List.getLast_mem hne) name.no_return
  have hspace : name.text.getLast hne ≠ ' '.toUInt8 := by
    intro h
    exact name.no_space_after (by rw [List.getLast?_eq_some_getLast hne, h])
  simp [ends_blank, hreturn, hspace]

theorem trim_text (l : ListingLine) : trim l.text = l.project.text := by
  have hend : l.text.rdropWhile ends_blank =
      (List.replicate l.before ' '.toUInt8 ++ l.project.text).rdropWhile ends_blank := by
    unfold ListingLine.text
    rw [List.append_assoc]
    apply rdropWhile_append
    intro c hc
    have hc' : c = ' '.toUInt8 ∨ c = '\r'.toUInt8 := by
      rcases List.mem_append.mp hc with hc | hc
      · exact Or.inl (List.eq_of_mem_replicate hc)
      · split at hc
        · exact Or.inr (List.mem_singleton.mp hc)
        · cases hc
    rcases hc' with rfl | rfl <;> rfl
  change (l.text.rdropWhile ends_blank).dropWhile _ = _
  rw [hend]
  by_cases hne : l.project.text = []
  · -- a line of blanks alone goes in the first loop
    rw [hne, List.append_nil, List.rdropWhile_eq_nil_iff.mpr]
    · rfl
    · intro c hc
      rw [List.eq_of_mem_replicate hc]
      rfl
  · rw [List.rdropWhile_eq_self_iff.mpr]
    · rw [List.dropWhile_append_of_pos]
      · cases htext : l.project.text with
        | nil => rfl
        | cons c rest =>
          have hspace : c ≠ ' '.toUInt8 :=
            fun h => l.project.no_space_before (by rw [htext, h]; rfl)
          rw [List.dropWhile_cons_of_neg (by simpa using hspace)]
      · intro c hc
        rw [List.eq_of_mem_replicate hc]
        rfl
    · intro _
      rw [List.getLast_append_of_ne_nil _ hne]
      exact l.project.not_ends_blank hne

theorem no_newline_in_text (l : ListingLine) : newline ∉ l.text := by
  unfold ListingLine.text
  simp only [List.mem_append, not_or]
  refine ⟨⟨⟨?_, l.project.no_newline⟩, ?_⟩, ?_⟩
  · exact fun h => absurd (List.eq_of_mem_replicate h) (by decide)
  · exact fun h => absurd (List.eq_of_mem_replicate h) (by decide)
  · split <;> decide

/-- The lines of a listing that ends with a newline, and nothing after the newline. -/
theorem splitOn_listing (lines : List ListingLine) :
    (listing lines true).splitOn newline = lines.map ListingLine.text ++ [[]] := by
  unfold listing
  dsimp only
  rw [if_pos rfl]
  induction lines with
  | nil => rfl
  | cons l lines ih =>
    rw [List.flatMap_cons, List.append_assoc, List.singleton_append,
      List.splitOn_append_cons_self_of_not_mem (no_newline_in_text l), ih]
    rfl

theorem splitOn_listing_open {lines : List ListingLine} (hne : lines ≠ []) :
    (listing lines false).splitOn newline = lines.map ListingLine.text := by
  have hclosed : listing lines true = listing lines false ++ newline :: [] := by
    unfold listing
    obtain ⟨front, l, rfl⟩ := List.eq_nil_or_concat' lines |>.resolve_left hne
    simp [← List.append_assoc]
  have hsplit := splitOn_listing lines
  rw [hclosed, List.splitOn_append_cons_self] at hsplit
  exact List.append_cancel_right hsplit

/-- The lines of a listing have the names of its projects. A newline at the end gives no line with a
name. -/
theorem exists_line_listing {name : Bytes} (hname : name ≠ []) (lines : List ListingLine)
    (final : Bool) :
    (∃ line ∈ (listing lines final).splitOn newline, trim line = name) ↔
      ∃ l ∈ lines, l.project.text = name := by
  have hnil : trim [] ≠ name := fun h => hname h.symm
  have hlines : (∃ line ∈ lines.map ListingLine.text, trim line = name) ↔
      ∃ l ∈ lines, l.project.text = name := by
    simp [trim_text]
  cases final with
  | true =>
    rw [splitOn_listing, ← hlines]
    simp [hnil]
  | false =>
    by_cases hne : lines = []
    · subst hne
      simpa [listing] using hnil
    · rw [splitOn_listing_open hne, hlines]

/-! ## The law -/

section
variable (be : Backend) {name : Bytes}

theorem found_iff_line (hname : name ≠ []) :
    (project_exists_ name).value be = true ↔
      ∃ line ∈ (be (Bytes.lit "Pl")).splitOn newline, trim line = name := by
  change listed_from (be (Bytes.lit "Pl")) name 0 = true ↔ _
  rw [listed_from_iff hname, List.drop_zero]

theorem found_iff_listed (hname : name ≠ []) {lines : List ListingLine} {final : Bool}
    (hlist : be (Bytes.lit "Pl") = listing lines final) :
    (project_exists_ name).value be = true ↔ ∃ l ∈ lines, l.project.text = name := by
  rw [found_iff_line be hname, hlist, exists_line_listing hname]

theorem asked_start_project {opts : R2PipeOpenOptions} (hne : opts.project ≠ []) :
    (start_project opts).asked be =
      Bytes.lit "Pl" ::
        if (project_exists_ opts.project).value be then [Bytes.lit "P " ++ opts.project]
        else if opts.analyze then [Bytes.lit "aaa"] else [] := by
  have hasked : (project_exists_ opts.project).asked be = [Bytes.lit "Pl"] := rfl
  unfold start_project
  rw [if_neg fun h => hne h.2, if_pos hne]
  by_cases hfound : (project_exists_ opts.project).value be = true
  · simp [hasked, hfound]
  · by_cases hanalyze : opts.analyze = true <;> simp [hasked, hfound, hanalyze]

/-- A project of the listing is not analysed afresh, so `shutdown` does not save a fresh analysis in
its place. -/
theorem analysed_iff_not_listed {opts : R2PipeOpenOptions} (hne : opts.project ≠ [])
    {lines : List ListingLine} {final : Bool}
    (hlist : be (Bytes.lit "Pl") = listing lines final) :
    Bytes.lit "aaa" ∈ (start_project opts).asked be ↔
      opts.analyze = true ∧ ∀ l ∈ lines, l.project.text ≠ opts.project := by
  have hlisted := found_iff_listed be hne hlist
  have hlist_cmd : Bytes.lit "aaa" ≠ Bytes.lit "Pl" := by decide
  have hload_cmd : Bytes.lit "aaa" ≠ Bytes.lit "P " ++ opts.project := by
    intro h
    exact absurd (List.cons.inj h).1 (by decide)
  rw [asked_start_project be hne]
  by_cases hfound : (project_exists_ opts.project).value be = true
  · obtain ⟨l, hl, htext⟩ := hlisted.mp hfound
    rw [if_pos hfound]
    simp only [List.mem_cons, hlist_cmd, hload_cmd, List.not_mem_nil, or_self, false_iff]
    exact fun h => h.2 l hl htext
  · have hall : ∀ l ∈ lines, l.project.text ≠ opts.project :=
      fun l hl htext => hfound (hlisted.mpr ⟨l, hl, htext⟩)
    rw [if_neg hfound]
    by_cases hanalyze : opts.analyze = true
    · simpa [hanalyze] using hall
    · simp [hanalyze, hlist_cmd]

theorem saves_iff (opts : R2PipeOpenOptions) :
    shutdown_input opts ≠ Bytes.lit "q\n" ↔ opts.write = true ∧ opts.project ≠ [] := by
  unfold shutdown_input
  by_cases hsave : opts.write = true ∧ opts.project ≠ []
  · rw [if_pos hsave]
    refine iff_of_true (fun h => ?_) hsave
    exact absurd (List.cons.inj h).1 (by decide)
  · rw [if_neg hsave, List.nil_append]
    exact iff_of_false (not_not.mpr rfl) hsave

/-- A project of the listing that `shutdown` saves is one that `start` has loaded, and nothing else
was asked before. -/
theorem saved_project_is_loaded {opts : R2PipeOpenOptions}
    (hsave : shutdown_input opts ≠ Bytes.lit "q\n") {lines : List ListingLine} {final : Bool}
    (hlist : be (Bytes.lit "Pl") = listing lines final)
    (hlisted : ∃ l ∈ lines, l.project.text = opts.project) :
    (start_project opts).asked be = [Bytes.lit "Pl", Bytes.lit "P " ++ opts.project] := by
  have hne := ((saves_iff opts).mp hsave).2
  rw [asked_start_project be hne, if_pos ((found_iff_listed be hne hlist).mpr hlisted)]

/-- `project_exists_` finds a name exactly where a line of the reply to `Pl` has it between its
blanks. So in a listing of projects it finds the projects of the listing and no others. -/
theorem project_exists_iff_listed (hname : name ≠ []) :
    ((project_exists_ name).value be = true ↔
        ∃ line ∈ (be (Bytes.lit "Pl")).splitOn newline, trim line = name) ∧
      ∀ lines final, be (Bytes.lit "Pl") = listing lines final →
        ((project_exists_ name).value be = true ↔ ∃ l ∈ lines, l.project.text = name) :=
  ⟨found_iff_line be hname, fun _ _ hlist => found_iff_listed be hname hlist⟩

end

/-- The listing of two projects, the first with a blank in its name and a CR after it. -/
theorem a_padded_project_is_found :
    (Bytes.lit "my app" ≠ []) ∧
      (project_exists_ (Bytes.lit "my app")).value (mock_backend [("Pl", "  my app \r\nother")]) =
        true := by
  have hname : Bytes.lit "my app" ≠ [] := by decide
  refine ⟨hname, ?_⟩
  rw [(project_exists_iff_listed (mock_backend [("Pl", "  my app \r\nother")]) hname).1]
  exact ⟨Bytes.lit "  my app \r", by decide, by decide⟩

end r2sql
