-- What UPDATE and DELETE on flags and bookmarks do to the other flags: some of
-- their commands name an address, and an address can have several flags.
import R2sql.R2Flags

namespace r2sql

open json_utils keyed command_line

/-! ## The commands as radare2 reads them -/

theorem space_notMem_of_valid {name : Bytes} (h : valid_flag_name name = true) :
    ' '.toUInt8 ∉ name := by
  simp only [valid_flag_name, Bool.and_eq_true, List.all_eq_true] at h
  intro hmem
  exact not_reserved_of_name_byte (h.2 _ hmem) (by decide)

namespace FlagCommand

theorem parse_append {v : Bytes} (hv : ' '.toUInt8 ∉ v) (args : Bytes) :
    parse (v ++ ' '.toUInt8 :: args) = of_verb v args := by
  rw [parse, verb_append hv, arguments_append hv]

theorem parse_f_minus (addr : Int64) : parse (f_minus addr) = .delete_at addr := by
  have hcommand : f_minus addr =
      Bytes.lit "f-" ++ ' '.toUInt8 :: (Bytes.lit "@" ++ ' '.toUInt8 :: hex_addr addr) := rfl
  rw [hcommand, parse_append (by decide)]
  exact congrArg delete_at (address_append _ addr)

theorem parse_f_at {name : Bytes} (hname : ' '.toUInt8 ∉ name) (addr : Int64) :
    parse (f_at name addr) = .set_flag name addr := by
  have hcommand : f_at name addr =
      Bytes.lit "f" ++ ' '.toUInt8 :: (name ++ (Bytes.lit " @ " ++ hex_addr addr)) := by
    rw [f_at, List.append_assoc, List.append_assoc]
    rfl
  obtain ⟨hverb, haddr⟩ := name_at_append hname addr
  rw [hcommand, parse_append (by decide)]
  exact congrArg₂ set_flag hverb haddr

theorem parse_afn {name : Bytes} (hname : ' '.toUInt8 ∉ name) (addr : Int64) :
    parse (afn name addr) = .rename_function name addr := by
  have hcommand : afn name addr =
      Bytes.lit "afn" ++ ' '.toUInt8 :: (name ++ (Bytes.lit " @ " ++ hex_addr addr)) := by
    rw [afn, List.append_assoc, List.append_assoc]
    rfl
  obtain ⟨hverb, haddr⟩ := name_at_append hname addr
  rw [hcommand, parse_append (by decide)]
  exact congrArg₂ rename_function hverb haddr

theorem parse_fr (old : Bytes) {name : Bytes} (hname : ' '.toUInt8 ∉ name) :
    parse (fr old name) = .rename_flag old name := by
  have hcommand : fr old name = Bytes.lit "fr" ++ ' '.toUInt8 :: (old ++ ' '.toUInt8 :: name) := by
    rw [fr, List.append_assoc, List.append_assoc]
    rfl
  have hold : (old ++ ' '.toUInt8 :: name).take
      ((old ++ ' '.toUInt8 :: name).length - name.length - 1) = old := by
    rw [List.length_append, List.length_cons,
      show old.length + (name.length + 1) - name.length - 1 = old.length by omega,
      List.take_left]
  have hlast := last_word hname old
  rw [hcommand, parse_append (by decide)]
  show rename_flag _ _ = _
  rw [hlast, hold]

end FlagCommand

/-! ## Writes on a row -/

/-- UPDATE of the name, or DELETE, of a row of flags or bookmarks. -/
inductive FlagWrite where
  | flags_update (r : FlagRow) (name : Bytes)
  | flags_delete (r : FlagRow)
  | bookmarks_update (r : BookmarkRow) (name : Bytes)
  | bookmarks_delete (r : BookmarkRow)

/-- The flagspace of the bookmarks. -/
def bookmarks : Bytes := Bytes.lit "bookmarks"

/-- The names of the flags with their addresses. -/
def FlagState.places (s : FlagState) : List (Bytes × Int64) :=
  s.flags.rows.map fun f => (f.name, f.addr)

namespace FlagWrite

/-- radare2 after the write. -/
def after (print : List Flag → Bytes) (s : FlagState) : FlagWrite → FlagState
  | flags_update r name => ((flags_name_setter r (some name)).play (FlagState.answer print) s).2
  | flags_delete r => ((flags_deletable r).play (FlagState.answer print) s).2
  | bookmarks_update r name =>
    ((bookmarks_name_setter r (some name)).play (FlagState.answer print) s).2
  | bookmarks_delete r => ((bookmarks_deletable r).play (FlagState.answer print) s).2

/-- The row is one of its table: it is a flag of the selected space, or of the bookmarks. -/
def OfRow (s : FlagState) : FlagWrite → Prop
  | flags_update r _ | flags_delete r =>
    ∃ f ∈ s.flags.rows, s.selects f ∧ f.name = r.name ∧ f.addr = r.addr
  | bookmarks_update r _ | bookmarks_delete r =>
    ∃ f ∈ s.flags.rows, f.space = some bookmarks ∧ f.name = r.name ∧ f.addr = r.addr

/-- The new name is valid, and no flag has it. -/
def Fresh (s : FlagState) : FlagWrite → Prop
  | flags_update _ name | bookmarks_update _ name =>
    valid_flag_name name = true ∧ ∀ f ∈ s.flags.rows, f.name ≠ name
  | _ => True

/-- The flag of the row goes, or gets the new name, and no other flag changes. No function changes
but the one that had the flag's old name. -/
def TouchesItsRow (print : List Flag → Bytes) (s : FlagState) (w : FlagWrite) : Prop :=
  match w with
  | flags_update r name =>
    (w.after print s).places = s.places.map (fun p => if p.1 = r.name then (name, p.2) else p) ∧
      ∀ g ∈ s.functions.rows, g.name ≠ r.name → g ∈ (w.after print s).functions.rows
  | bookmarks_update r name =>
    (w.after print s).places = s.places.map (fun p => if p.1 = r.name then (name, p.2) else p) ∧
      ∀ g ∈ s.functions.rows, g.name ≠ r.name → g ∈ (w.after print s).functions.rows
  | flags_delete r => (w.after print s).places = s.places.filter fun p => p.1 ≠ r.name
  | bookmarks_delete r => (w.after print s).places = s.places.filter fun p => p.1 ≠ r.name

/-- What stands at the address of the row besides its flag: for DELETE no other flag of the space,
and for UPDATE on flags no function with a name of its own. -/
def Alone (s : FlagState) : FlagWrite → Prop
  | flags_update r name =>
    ∀ g ∈ s.functions.rows, g.entry = r.addr → g.name = r.name ∨ g.name = name
  | flags_delete r => ∀ f ∈ s.flags.rows, s.selects f → f.addr = r.addr → f.name = r.name
  | bookmarks_update _ _ => True
  | bookmarks_delete r =>
    ∀ f ∈ s.flags.rows, f.space = some bookmarks → f.addr = r.addr → f.name = r.name

end FlagWrite

/-! ## What the commands leave -/

namespace FlagState

variable {s : FlagState}

theorem places_rename_space (new : Bytes) : (s.rename_space new).places = s.places := by
  unfold rename_space
  split
  · rfl
  · split
    · rfl
    · simp [places, Table.change]

theorem functions_rename_space (new : Bytes) : (s.rename_space new).functions = s.functions := by
  unfold rename_space
  split
  · rfl
  · split <;> rfl

theorem name_free {new : Bytes} (hnew : ∀ f ∈ s.flags.rows, f.name ≠ new) :
    new ∉ s.flags.rows.map Flag.name := by
  intro h
  obtain ⟨f, hf, rfl⟩ := List.mem_map.mp h
  exact hnew f hf rfl

/-- The names and addresses after `fr`, where no flag has the new name. -/
theorem places_rename_flag {old new : Bytes} (hnew : ∀ f ∈ s.flags.rows, f.name ≠ new) :
    (s.rename_flag old new).places =
      s.places.map fun p => if p.1 = old then (new, p.2) else p := by
  simp only [places, rename_flag, Table.rows_rekey (name_free hnew), List.map_map]
  apply List.map_congr_left
  intro f _
  by_cases h : f.name = old <;> simp [h]

theorem places_delete_at (addr : Int64) :
    (s.delete_at addr).places =
      (s.flags.rows.filter fun f => !(decide (f.addr = addr) && s.selects f)).map
        fun f => (f.name, f.addr) := rfl

/-- With the flags at an address all gone, the flag of a row is gone alone exactly when it was there
alone. -/
theorem filter_places_iff {p : Flag → Bool} {name : Bytes} {addr : Int64} {f : Flag}
    (hf : f ∈ s.flags.rows) (hp : p f = true) (hname : f.name = name) (haddr : f.addr = addr) :
    ((s.flags.rows.filter fun g => !(decide (g.addr = addr) && p g)).map
        fun g => (g.name, g.addr)) = s.places.filter (fun q => q.1 ≠ name) ↔
      ∀ g ∈ s.flags.rows, p g → g.addr = addr → g.name = name := by
  have hright : s.places.filter (fun q => q.1 ≠ name) =
      (s.flags.rows.filter fun g => g.name ≠ name).map fun g => (g.name, g.addr) := by
    rw [places, List.filter_map]
    rfl
  rw [hright]
  constructor
  · intro h g hg hpg hgaddr
    by_contra hne
    have hmem : (g.name, g.addr) ∈ (s.flags.rows.filter fun g => g.name ≠ name).map
        fun g => (g.name, g.addr) := List.mem_map_of_mem (List.mem_filter.mpr ⟨hg, by simpa⟩)
    rw [← h] at hmem
    obtain ⟨g', hg', heq⟩ := List.mem_map.mp hmem
    obtain ⟨hmem', hkept⟩ := List.mem_filter.mp hg'
    obtain rfl := Table.eq_of_key hmem' hg (Prod.mk.inj heq).1
    simp [hgaddr, hpg] at hkept
  · intro h
    apply congrArg
    apply List.filter_congr
    intro g hg
    by_cases hgone : g.addr = addr ∧ p g = true
    · simp [hgone.1, hgone.2, h g hg hgone.2 hgone.1]
    · have hother : g.name ≠ name := by
        intro hgname
        obtain rfl := Table.eq_of_key hg hf (hgname.trans hname.symm)
        exact hgone ⟨haddr, hp⟩
      simpa [hother, imp_iff_not_or] using hgone

end FlagState

/-! ## What the writes leave -/

section
variable (print : List Flag → Bytes) (s : FlagState)

theorem parse_fss : FlagCommand.parse (Bytes.lit "fss*") = .print_stack := by decide +kernel

theorem parse_fs : FlagCommand.parse (Bytes.lit "fs bookmarks") = .select bookmarks := by
  decide +kernel

theorem parse_fsr : FlagCommand.parse (Bytes.lit "fsr-") = .rename_space (Bytes.lit "-") := by
  decide +kernel

theorem foldl_in_bookmarks (commands : List Bytes) :
    (in_bookmarks commands).foldl (fun s command => (s.answer print command).2) s =
      (commands.foldl (fun s command => (s.answer print command).2)
        (s.select bookmarks)).rename_space (Bytes.lit "-") := by
  simp [in_bookmarks, FlagState.answer, parse_fss, parse_fs, parse_fsr, FlagCommand.exec]

theorem selects_select (f : Flag) :
    (s.select bookmarks).selects f = decide (f.space = some bookmarks) := by
  simp [FlagState.selects, FlagState.select]

theorem play_name_setter {Row : Type} (table : String) (commands : Row → Bytes → List Bytes)
    (rename : Row → Bytes → Row) (r : Row) {name : Bytes} (hname : valid_flag_name name = true) :
    ((name_setter table commands rename r (some name)).play (FlagState.answer print) s).2 =
      (commands r name).foldl (fun s command => (s.answer print command).2) s := by
  have hnonempty : name ≠ [] := by
    rintro rfl
    cases hname
  simp [name_setter, hnonempty, hname]

theorem after_flags_update (r : FlagRow) {name : Bytes} (hname : valid_flag_name name = true) :
    (FlagWrite.flags_update r name).after print s =
      (s.rename_function name r.addr).rename_flag r.name name := by
  have hspace := space_notMem_of_valid hname
  rw [FlagWrite.after, flags_name_setter, play_name_setter print s _ _ _ _ hname]
  simp [FlagState.answer, FlagCommand.parse_afn hspace, FlagCommand.parse_fr _ hspace,
    FlagCommand.exec]

theorem after_flags_delete (r : FlagRow) :
    (FlagWrite.flags_delete r).after print s = s.delete_at r.addr := by
  simp [FlagWrite.after, flags_deletable, FlagState.answer, FlagCommand.parse_f_minus,
    FlagCommand.exec]

theorem after_bookmarks_update (r : BookmarkRow) {name : Bytes}
    (hname : valid_flag_name name = true) :
    (FlagWrite.bookmarks_update r name).after print s =
      ((s.select bookmarks).rename_flag r.name name).rename_space (Bytes.lit "-") := by
  have hspace := space_notMem_of_valid hname
  rw [FlagWrite.after, bookmarks_name_setter, play_name_setter print s _ _ _ _ hname,
    foldl_in_bookmarks]
  simp [FlagState.answer, FlagCommand.parse_fr _ hspace, FlagCommand.exec]

theorem after_bookmarks_delete (r : BookmarkRow) :
    (FlagWrite.bookmarks_delete r).after print s =
      ((s.select bookmarks).delete_at r.addr).rename_space (Bytes.lit "-") := by
  rw [FlagWrite.after, bookmarks_deletable, Dialogue.play_bind, play_send, foldl_in_bookmarks]
  simp [FlagState.answer, FlagCommand.parse_f_minus, FlagCommand.exec]

end

/-! ## The law -/

namespace FlagState

variable {s : FlagState} {old new : Bytes} {entry : Int64}

theorem flags_rename_function {g : R2Function}
    (hfind : s.functions.rows.find? (fun g => g.entry = entry) = some g) :
    (s.rename_function new entry).flags = (s.rename_flag g.name new).flags := by
  rw [rename_function, hfind]

/-- `fr` on the flags of two states that have the same. -/
theorem places_rename_flag_congr {t u : FlagState} (h : t.flags = u.flags) :
    (t.rename_flag old new).places = (u.rename_flag old new).places := by
  unfold places rename_flag
  simp only [h]

theorem places_rename_flag_taken (h : new ∈ s.flags.rows.map Flag.name) :
    (s.rename_flag old new).places = s.places := by
  unfold places rename_flag
  simp only [Table.rekey_of_mem h]

/-- With no function of another name at the address, `afn` and `fr` rename the flag alone. -/
theorem renames_alone (hnew : ∀ f ∈ s.flags.rows, f.name ≠ new)
    (hold : old ∈ s.flags.rows.map Flag.name)
    (halone : ∀ g ∈ s.functions.rows, g.entry = entry → g.name = old ∨ g.name = new) :
    ((s.rename_function new entry).rename_flag old new).places =
      s.places.map fun p => if p.1 = old then (new, p.2) else p := by
  cases hfind : s.functions.rows.find? fun g => g.entry = entry with
  | none =>
    rw [rename_function, hfind]
    exact places_rename_flag hnew
  | some g =>
    have hflags : (s.rename_function new entry).flags = (s.rename_flag g.name new).flags :=
      flags_rename_function hfind
    have hentry : g.entry = entry := by simpa using List.find?_some hfind
    rcases halone g (List.mem_of_find?_eq_some hfind) hentry with hname | hname
    · -- `afn` renames the flag with the function, and `fr` finds the new name taken
      rw [hname] at hflags
      have htaken : new ∈ (s.rename_flag old new).flags.rows.map Flag.name := by
        obtain ⟨f, hf, hfname⟩ := List.mem_map.mp hold
        rw [rename_flag, Table.rows_rekey (name_free hnew), List.map_map]
        refine List.mem_map.mpr ⟨f, hf, ?_⟩
        simp [hfname]
      rw [places_rename_flag_congr hflags, places_rename_flag_taken htaken,
        places_rename_flag hnew]
    · -- no flag has the function's name, so `afn` renames none
      have hmissing : g.name ∉ s.flags.rows.map Flag.name := by
        rw [hname]
        exact name_free hnew
      have hfirst : (s.rename_flag g.name new).flags = s.flags := by
        unfold rename_flag
        simp only [Table.rekey_of_notMem hmissing]
      rw [places_rename_flag_congr (hflags.trans hfirst), places_rename_flag hnew]

theorem keeps_the_functions
    (halone : ∀ g ∈ s.functions.rows, g.entry = entry → g.name = old ∨ g.name = new)
    {g : R2Function} (hg : g ∈ s.functions.rows) (hname : g.name ≠ old) :
    g ∈ ((s.rename_function new entry).rename_flag old new).functions.rows := by
  unfold rename_function
  split
  · exact hg
  · refine List.mem_map.mpr ⟨g, hg, ?_⟩
    by_cases hat : g.entry = entry
    · rw [if_pos hat, ← (halone g hg hat).resolve_left hname]
    · rw [if_neg hat]

theorem renames_the_function {g : R2Function} (hg : g ∈ s.functions.rows) (hentry : g.entry = entry)
    (hname : g.name ≠ new) :
    g ∉ ((s.rename_function new entry).rename_flag old new).functions.rows := by
  intro hmem
  unfold rename_function at hmem
  cases hfind : s.functions.rows.find? fun g => g.entry = entry with
  | none => exact absurd hentry (by simpa using List.find?_eq_none.mp hfind g hg)
  | some g' =>
    rw [hfind] at hmem
    obtain ⟨h, hh, hgh⟩ := List.mem_map.mp hmem
    split at hgh
    · exact hname (hgh ▸ rfl)
    · rename_i hother
      exact hother (hgh ▸ hentry)

end FlagState

/-- UPDATE and DELETE on a row of flags or bookmarks change its flag alone, exactly when the address
of the row has nothing else that their commands name. -/
theorem flag_writes_touch_their_row (print : List Flag → Bytes) {s : FlagState} {w : FlagWrite}
    (hrow : w.OfRow s) (hfresh : w.Fresh s) : w.TouchesItsRow print s ↔ w.Alone s := by
  cases w with
  | flags_update r name =>
    obtain ⟨hvalid, hnew⟩ := hfresh
    obtain ⟨f, hf, -, hname, haddr⟩ := hrow
    rw [FlagWrite.TouchesItsRow, after_flags_update print s r hvalid]
    constructor
    · rintro ⟨-, hfunctions⟩ g hg hentry
      by_contra hother
      rw [not_or] at hother
      exact FlagState.renames_the_function hg hentry hother.2 (hfunctions g hg hother.1)
    · intro halone
      exact ⟨FlagState.renames_alone hnew (List.mem_map.mpr ⟨f, hf, hname⟩) halone,
        fun g hg hother => FlagState.keeps_the_functions halone hg hother⟩
  | flags_delete r =>
    obtain ⟨f, hf, hselected, hname, haddr⟩ := hrow
    rw [FlagWrite.TouchesItsRow, after_flags_delete, FlagState.places_delete_at]
    exact FlagState.filter_places_iff hf hselected hname haddr
  | bookmarks_update r name =>
    obtain ⟨hvalid, hnew⟩ := hfresh
    rw [FlagWrite.TouchesItsRow, after_bookmarks_update print s r hvalid,
      FlagState.places_rename_space, FlagState.functions_rename_space]
    refine iff_of_true ⟨?_, fun g hg _ => hg⟩ trivial
    exact FlagState.places_rename_flag (s := s.select bookmarks) hnew
  | bookmarks_delete r =>
    obtain ⟨f, hf, hspace, hname, haddr⟩ := hrow
    rw [FlagWrite.TouchesItsRow, after_bookmarks_delete, FlagState.places_rename_space,
      FlagState.places_delete_at]
    simp only [selects_select]
    have hiff := FlagState.filter_places_iff (p := fun g => g.space = some bookmarks) hf
      (by simpa using hspace) hname haddr
    simp only [decide_eq_true_eq] at hiff
    exact hiff

/-- Two flags at one address, and a bookmark at another. -/
def two_at_one_address : FlagState where
  flags :=
    { rows := [⟨Bytes.lit "main", 4096, none⟩, ⟨Bytes.lit "entry0", 4096, none⟩,
        ⟨Bytes.lit "note", 8192, some bookmarks⟩]
      nodup := by decide }
  functions := { rows := [⟨4096, Bytes.lit "main"⟩], nodup := by decide }
  spaces := { rows := [bookmarks], nodup := by decide }
  selected := none
  stack := []
  known := by decide

/-- The bookmark goes alone. -/
theorem the_bookmark_goes_alone :
    (FlagWrite.bookmarks_delete ⟨1, 8192, Bytes.lit "note"⟩).TouchesItsRow (fun _ => [])
      two_at_one_address := by
  have hrow : (FlagWrite.bookmarks_delete ⟨1, 8192, Bytes.lit "note"⟩).OfRow two_at_one_address :=
    ⟨⟨Bytes.lit "note", 8192, some bookmarks⟩, by decide +kernel, rfl, rfl, rfl⟩
  rw [flag_writes_touch_their_row (fun _ => []) hrow trivial]
  unfold FlagWrite.Alone
  decide +kernel

/-- DELETE of `main` takes `entry0` with it. -/
theorem a_deleted_flag_takes_its_neighbour :
    ¬ ∀ (s : FlagState) (w : FlagWrite), w.OfRow s → w.Fresh s →
      w.TouchesItsRow (fun _ => []) s := by
  intro h
  have hplaces := h two_at_one_address
    (.flags_delete ⟨4096, 1, Bytes.lit "main", Bytes.lit "main", []⟩)
    ⟨⟨Bytes.lit "main", 4096, none⟩, by decide +kernel, by decide, rfl, rfl⟩ trivial
  rw [FlagWrite.TouchesItsRow, after_flags_delete] at hplaces
  revert hplaces
  decide +kernel

end r2sql
