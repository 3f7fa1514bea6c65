-- Runs of operations on the bookmarks table: what they leave of the
-- flagspaces and of the flags outside the space of the bookmarks, and which
-- bookmarks a later SELECT lists.
import R2sql.FlagRows
import R2sql.Lib.Runs

namespace r2sql

open json_utils keyed runs

/-- An operation on the bookmarks table. -/
inductive BookmarkOp where
  | select
  | insert (argv : List FunctionArg)
  | update (r : BookmarkRow) (v : Option Bytes)
  | delete (r : BookmarkRow)

/-- The rows of bookmarks, by their names and addresses. -/
def BookmarkRow.place (r : BookmarkRow) : Bytes × Int64 := (r.name, r.addr)

section
variable [Nlohmann] (print : List Flag → Bytes)

/-- radare2 after an operation. -/
def BookmarkOp.step (s : FlagState) : BookmarkOp → FlagState
  | select => (bookmarks_cache_builder.play (FlagState.answer print) s).2
  | insert argv => ((bookmarks_insertable argv).play (FlagState.answer print) s).2
  | update r v => ((bookmarks_name_setter r v).play (FlagState.answer print) s).2
  | delete r => ((bookmarks_deletable r).play (FlagState.answer print) s).2

/-- The rows of a SELECT. -/
def FlagState.listed (s : FlagState) : List (Bytes × Int64) :=
  (bookmarks_cache_builder.play (FlagState.answer print) s).1.map BookmarkRow.place

end

/-! ## What the bookmarks are for -/

/-- The flags in the space of the bookmarks, by their names and addresses. -/
def FlagState.marks (s : FlagState) : List (Bytes × Int64) :=
  (s.flags.rows.filter fun f => f.space = some bookmarks).map fun f => (f.name, f.addr)

/-- The flags outside the space of the bookmarks. -/
def FlagState.others (s : FlagState) : List Flag :=
  s.flags.rows.filter fun f => f.space ≠ some bookmarks

/-- A state as the user of bookmarks sees it. -/
structure BookmarkView where
  selected : Option Bytes
  stack : List (Option Bytes)
  spaces : List Bytes
  others : List Flag
  marks : List (Bytes × Int64)
  deriving DecidableEq

def FlagState.view (s : FlagState) : BookmarkView where
  selected := s.selected
  stack := s.stack
  spaces := s.spaces.rows
  others := s.others
  marks := s.marks

/-- What an operation is meant to do: it changes the bookmarks and nothing else. An INSERT takes the
place of the bookmark of its name, and a name that a flag has is not given to a bookmark. -/
def BookmarkOp.meant (v : BookmarkView) : BookmarkOp → BookmarkView
  | select => v
  | insert argv =>
    match inserted argv 1 with
    | none => v
    | some (addr, name) =>
      { v with marks := v.marks.filter (fun p => p.1 ≠ name) ++ [(name, addr)] }
  | update r value =>
    match accepted value with
    | none => v
    | some name =>
      if name ∈ v.others.map Flag.name ∨ name ∈ v.marks.map Prod.fst then v
      else { v with marks := v.marks.map fun p => if p.1 = r.name then (name, p.2) else p }
  | delete r => { v with marks := v.marks.filter (· ≠ r.place) }

/-! ## The commands that an operation sends -/

/-- The command between the two on the flagspaces, where the operation sends any. -/
def BookmarkOp.command : BookmarkOp → Option Bytes
  | select => some (Bytes.lit "fj")
  | insert argv => (inserted argv 1).map fun p => f_at p.2 p.1
  | update r v => (accepted v).map (fr r.name)
  | delete r => some (f_minus r.addr)

theorem parse_fj : FlagCommand.parse (Bytes.lit "fj") = .list := by decide +kernel

theorem play_bookmarks_insertable (print : List Flag → Bytes) (s : FlagState)
    (argv : List FunctionArg) :
    ((bookmarks_insertable argv).play (FlagState.answer print) s).2 =
      match inserted argv 1 with
      | none => s
      | some (addr, name) =>
        (in_bookmarks [f_at name addr]).foldl (fun s command => (s.answer print command).2) s := by
  unfold bookmarks_insertable named_insert inserted
  cases supplied argv 1 with
  | none => rfl
  | some a =>
    cases supplied argv 2 with
    | none => rfl
    | some n =>
      simp only [Option.bind_eq_bind, Option.bind_some, accepted_eq]
      by_cases hempty : n.as_c_str.getD [] = []
      · simp [hempty]
      · by_cases hvalid : valid_flag_name (n.as_c_str.getD []) = false <;> simp [hempty, hvalid]

section
variable [Nlohmann] (print : List Flag → Bytes) (s : FlagState)

/-- An operation that sends commands does its own one between the two on the flagspaces. -/
theorem BookmarkOp.step_eq (op : BookmarkOp) :
    op.step print s =
      match op.command with
      | none => s
      | some c =>
        ((FlagCommand.parse c).exec (s.select bookmarks)).rename_space (Bytes.lit "-") := by
  cases op with
  | select =>
    simp [step, bookmarks_cache_builder, command, FlagState.answer, parse_fss, parse_fs, parse_fsr,
      parse_fj, FlagCommand.exec]
  | insert argv =>
    rw [step, play_bookmarks_insertable, command]
    cases inserted argv 1 with
    | none => rfl
    | some p => exact foldl_in_bookmarks print s [f_at p.2 p.1]
  | update r v =>
    rw [command]
    cases haccepted : accepted v with
    | none =>
      rw [accepted_eq] at haccepted
      unfold step bookmarks_name_setter name_setter
      by_cases hempty : v.getD [] = []
      · simp [hempty]
      · by_cases hvalid : valid_flag_name (v.getD []) = false
        · simp [hempty, hvalid]
        · simp [hempty, hvalid] at haccepted
    | some name =>
      obtain rfl : v = some name := (Option.filter_eq_some_iff.mp haccepted).1
      rw [step, bookmarks_name_setter,
        play_name_setter print s _ _ _ _ (valid_of_accepted haccepted)]
      exact foldl_in_bookmarks print s [fr r.name name]
  | delete r =>
    rw [step, bookmarks_deletable, Dialogue.play_bind, play_send, Dialogue.play_pure]
    exact foldl_in_bookmarks print s [f_minus r.addr]

end

/-! ## The flagspaces -/

namespace FlagState

variable {s t : FlagState}

theorem select_of_selected (h : s.selected = some bookmarks) : s.select bookmarks = s := by
  have hspaces : s.spaces.add bookmarks = s.spaces := by
    apply Table.add_of_mem
    simpa using s.known s.selected List.mem_cons_self bookmarks h
  unfold select
  cases s
  simp_all

theorem rename_space_of_taken {new : Bytes} (h : new ∈ s.spaces.rows) : s.rename_space new = s := by
  unfold rename_space
  split
  · rfl
  · rw [dif_pos h]

theorem selected_rename_space {old new : Bytes} (hselected : s.selected = some old)
    (h : new ∉ s.spaces.rows) : (s.rename_space new).selected = some new := by
  unfold rename_space
  split
  · rename_i hnone
    rw [hselected] at hnone
    cases hnone
  · rename_i old' hold
    rw [dif_neg h]
    exact if_pos hold

/-- A command between the two on the flagspaces leaves them as they were, exactly when the bookmarks
were selected before and there is a space named `-`. -/
theorem flagspaces_stay_iff (hselected : t.selected = some bookmarks) (hstack : t.stack = s.stack)
    (hspaces : t.spaces = s.spaces.add bookmarks) :
    ((t.rename_space (Bytes.lit "-")).selected = s.selected ∧
        (t.rename_space (Bytes.lit "-")).stack = s.stack ∧
        (t.rename_space (Bytes.lit "-")).spaces.rows = s.spaces.rows) ↔
      s.selected = some bookmarks ∧ Bytes.lit "-" ∈ s.spaces.rows := by
  have hmore : ∀ x ∈ s.spaces.rows, x ∈ t.spaces.rows := by
    intro x hx
    rw [hspaces]
    exact Table.mem_add_of_mem hx
  constructor
  · rintro ⟨hrestored, -, hnames⟩
    by_cases htaken : Bytes.lit "-" ∈ t.spaces.rows
    · rw [rename_space_of_taken htaken] at hrestored hnames
      exact ⟨hrestored ▸ hselected, hnames ▸ htaken⟩
    · -- the space has the new name, and with it selected before the name was taken
      rw [selected_rename_space hselected htaken] at hrestored
      have hknown := s.known s.selected List.mem_cons_self _ hrestored.symm
      exact absurd (hmore _ hknown) htaken
  · rintro ⟨hbefore, htaken⟩
    have hadd : s.spaces.add bookmarks = s.spaces := by
      apply Table.add_of_mem
      simpa using s.known s.selected List.mem_cons_self bookmarks hbefore
    rw [rename_space_of_taken (hmore _ htaken), hselected, hbefore, hspaces, hadd]
    exact ⟨rfl, hstack, rfl⟩

end FlagState

/-! ## The bookmarks and the other flags -/

/-- What the command of an operation is to radare2. -/
def BookmarkOp.effect : BookmarkOp → Option FlagCommand
  | select => some .list
  | insert argv => (inserted argv 1).map fun p => .set_flag p.2 p.1
  | update r v => (accepted v).map fun name => .rename_flag r.name name
  | delete r => some (.delete_at r.addr)

/-- The names that an operation gives to a bookmark, or takes from one, are no names of other flags,
and DELETE finds its own bookmark alone at the address. -/
def BookmarkOp.InPlace (s : FlagState) : BookmarkOp → Prop
  | select => True
  | insert argv =>
    ∀ p ∈ inserted argv 1, ∀ f ∈ s.flags.rows, f.name = p.2 → f.space = some bookmarks
  | update r v =>
    ∀ name ∈ accepted v, name ∈ s.flags.rows.map Flag.name ∨
      ∀ f ∈ s.flags.rows, f.name = r.name → f.space = some bookmarks
  | delete r =>
    ∀ f ∈ s.flags.rows, f.space = some bookmarks → f.addr = r.addr → f.name = r.name

theorem BookmarkOp.parse_command (op : BookmarkOp) :
    op.command.map FlagCommand.parse = op.effect := by
  cases op with
  | select => exact congrArg some parse_fj
  | insert argv =>
    rw [command, effect, Option.map_map]
    cases hinserted : inserted argv 1 with
    | none => rfl
    | some p =>
      have hspace := space_notMem_of_valid (valid_of_inserted hinserted)
      exact congrArg some (FlagCommand.parse_f_at hspace p.1)
  | update r v =>
    rw [command, effect, Option.map_map]
    cases haccepted : accepted v with
    | none => rfl
    | some name =>
      have hspace := space_notMem_of_valid (valid_of_accepted haccepted)
      exact congrArg some (FlagCommand.parse_fr r.name hspace)
  | delete r => exact congrArg some (FlagCommand.parse_f_minus r.addr)

namespace FlagState

variable {s : FlagState}

theorem mem_names_iff {name : Bytes} :
    name ∈ s.flags.rows.map Flag.name ↔
      name ∈ s.others.map Flag.name ∨ name ∈ s.marks.map Prod.fst := by
  simp only [others, marks, List.mem_map, List.mem_filter, decide_eq_true_eq]
  constructor
  · rintro ⟨f, hf, rfl⟩
    by_cases hspace : f.space = some bookmarks
    · exact Or.inr ⟨_, ⟨f, ⟨hf, hspace⟩, rfl⟩, rfl⟩
    · exact Or.inl ⟨f, ⟨hf, hspace⟩, rfl⟩
  · rintro (⟨f, ⟨hf, -⟩, rfl⟩ | ⟨_, ⟨f, ⟨hf, -⟩, rfl⟩, rfl⟩) <;> exact ⟨f, hf, rfl⟩

theorem others_set_flag_iff (hselected : s.selected = some bookmarks) (name : Bytes)
    (addr : Int64) :
    (s.set_flag name addr).others = s.others ↔
      ∀ f ∈ s.flags.rows, f.name = name → f.space = some bookmarks := by
  have hothers : (s.set_flag name addr).others = s.others.filter fun f => f.name ≠ name := by
    simp only [others, set_flag, Table.rows_put, List.filter_append, List.filter_filter]
    simp [hselected, Bool.and_comm]
  rw [hothers, List.filter_eq_self]
  simp only [others, List.mem_filter, decide_eq_true_eq]
  constructor
  · intro h f hf hname
    by_contra hspace
    exact h f ⟨hf, hspace⟩ hname
  · intro h f hf hname
    exact hf.2 (h f hf.1 hname)

theorem marks_set_flag (hselected : s.selected = some bookmarks) (name : Bytes) (addr : Int64) :
    (s.set_flag name addr).marks = s.marks.filter (fun p => p.1 ≠ name) ++ [(name, addr)] := by
  simp only [marks, set_flag, Table.rows_put, List.filter_append, List.filter_filter,
    List.map_append, List.filter_map]
  simp [hselected, Bool.and_comm]

theorem rename_flag_of_taken {old new : Bytes} (h : new ∈ s.flags.rows.map Flag.name) :
    s.rename_flag old new = s := by
  unfold rename_flag
  simp only [Table.rekey_of_mem h]

theorem others_rename_flag_iff {old new : Bytes} (hnew : new ∉ s.flags.rows.map Flag.name) :
    (s.rename_flag old new).others = s.others ↔
      ∀ f ∈ s.flags.rows, f.name = old → f.space = some bookmarks := by
  have hothers : (s.rename_flag old new).others =
      s.others.map fun f => if f.name = old then { f with name := new } else f := by
    simp only [others, rename_flag, Table.rows_rekey hnew, List.filter_map]
    congr 1
    apply List.filter_congr
    intro f _
    by_cases h : f.name = old <;> simp [h]
  have hself : s.others = s.others.map id := (List.map_id _).symm
  rw [hothers]
  nth_rewrite 2 [hself]
  rw [List.map_inj_left]
  simp only [others, List.mem_filter, decide_eq_true_eq]
  constructor
  · intro h f hf hname
    by_contra hspace
    have hrenamed := h f ⟨hf, hspace⟩
    rw [if_pos hname] at hrenamed
    exact hnew (List.mem_map.mpr ⟨f, hf, (congrArg Flag.name hrenamed).symm⟩)
  · intro h f hf
    exact if_neg fun hname => hf.2 (h f hf.1 hname)

theorem marks_rename_flag {old new : Bytes} (hnew : new ∉ s.flags.rows.map Flag.name) :
    (s.rename_flag old new).marks =
      s.marks.map fun p => if p.1 = old then (new, p.2) else p := by
  simp only [marks, rename_flag, Table.rows_rekey hnew, List.filter_map, List.map_map]
  have hkept : (s.flags.rows.filter ((fun f => decide (f.space = some bookmarks)) ∘
      fun f => if f.name = old then { f with name := new } else f)) =
      s.flags.rows.filter fun f => f.space = some bookmarks := by
    apply List.filter_congr
    intro f _
    by_cases h : f.name = old <;> simp [h]
  rw [hkept]
  apply List.map_congr_left
  intro f _
  by_cases h : f.name = old <;> simp [h]

theorem others_delete_at (hselected : s.selected = some bookmarks) (addr : Int64) :
    (s.delete_at addr).others = s.others := by
  simp only [others, delete_at, Table.keep, List.filter_filter]
  apply List.filter_congr
  intro f _
  by_cases h : f.space = some bookmarks <;> simp [h, selects, hselected]

/-- The bookmark of a row goes and no other, exactly when it is alone at its address. -/
theorem marks_delete_at_iff (hselected : s.selected = some bookmarks) (r : BookmarkRow) :
    (s.delete_at r.addr).marks = s.marks.filter (· ≠ r.place) ↔
      ∀ f ∈ s.flags.rows, f.space = some bookmarks → f.addr = r.addr → f.name = r.name := by
  have hmarks : (s.delete_at r.addr).marks = s.marks.filter fun p => p.2 ≠ r.addr := by
    simp only [marks, delete_at, Table.keep, List.filter_filter, List.filter_map]
    congr 1
    apply List.filter_congr
    intro f _
    by_cases h : f.space = some bookmarks <;> simp [h, selects, hselected]
  rw [hmarks]
  constructor
  · intro h f hf hspace haddr
    by_contra hname
    have hmark : (f.name, f.addr) ∈ s.marks :=
      List.mem_map_of_mem (List.mem_filter.mpr ⟨hf, by simpa using hspace⟩)
    have hkept : (f.name, f.addr) ∈ s.marks.filter fun p => p.2 ≠ r.addr := by
      rw [h, List.mem_filter]
      exact ⟨hmark, by simp [BookmarkRow.place, hname]⟩
    simp [haddr] at hkept
  · intro h
    apply List.filter_congr
    intro p hp
    obtain ⟨f, hf, rfl⟩ := List.mem_map.mp hp
    obtain ⟨hf, hspace⟩ := List.mem_filter.mp hf
    by_cases haddr : f.addr = r.addr
    · simp [haddr, BookmarkRow.place, h f hf (by simpa using hspace) haddr]
    · simp [haddr, BookmarkRow.place]

end FlagState

/-! ## The law of one operation -/

namespace BookmarkOp

/-- The operation sends nothing, or the bookmarks are the selected space already, the rename at the
end is refused, and the command is about its own bookmark alone. -/
def Restores (s : FlagState) (op : BookmarkOp) : Prop :=
  op.command = none ∨
    s.selected = some bookmarks ∧ Bytes.lit "-" ∈ s.spaces.rows ∧ op.InPlace s

variable {s : FlagState} {op : BookmarkOp}

theorem meant_eq (v : BookmarkView) : op.meant v = { v with marks := (op.meant v).marks } := by
  cases op with
  | select => rfl
  | insert argv =>
    rw [meant]
    cases inserted argv 1 <;> rfl
  | update r value =>
    rw [meant]
    cases accepted value with
    | none => rfl
    | some name =>
      by_cases htaken : name ∈ v.others.map Flag.name ∨ name ∈ v.marks.map Prod.fst <;>
        simp only [htaken, if_true, if_false]
  | delete r => rfl

theorem meant_of_silent (h : op.command = none) (v : BookmarkView) : op.meant v = v := by
  cases op with
  | select => cases h
  | insert argv =>
    rw [command, Option.map_eq_none_iff] at h
    rw [meant, h]
  | update r value =>
    rw [command, Option.map_eq_none_iff] at h
    rw [meant, h]
  | delete r => cases h

theorem view_eq_iff {t : FlagState} :
    t.view = op.meant s.view ↔
      (t.selected = s.selected ∧ t.stack = s.stack ∧ t.spaces.rows = s.spaces.rows) ∧
        t.others = s.others ∧ t.marks = (op.meant s.view).marks := by
  rw [meant_eq]
  simp [FlagState.view, and_assoc]

theorem exec_effect {c : FlagCommand} (h : op.effect = some c) (t : FlagState) :
    (c.exec t).selected = t.selected ∧ (c.exec t).stack = t.stack ∧
      (c.exec t).spaces = t.spaces := by
  cases op with
  | select =>
    cases h
    exact ⟨rfl, rfl, rfl⟩
  | insert argv =>
    obtain ⟨p, -, rfl⟩ := Option.map_eq_some_iff.mp h
    exact ⟨rfl, rfl, rfl⟩
  | update r v =>
    obtain ⟨name, -, rfl⟩ := Option.map_eq_some_iff.mp h
    exact ⟨rfl, rfl, rfl⟩
  | delete r =>
    cases h
    exact ⟨rfl, rfl, rfl⟩

/-- In the space of the bookmarks, the command does what is meant exactly when it is in place. -/
theorem in_place_iff {c : FlagCommand} (hselected : s.selected = some bookmarks)
    (h : op.effect = some c) :
    (c.exec s).others = s.others ∧ (c.exec s).marks = (op.meant s.view).marks ↔ op.InPlace s := by
  cases op with
  | select =>
    cases h
    exact iff_of_true ⟨rfl, rfl⟩ trivial
  | insert argv =>
    obtain ⟨⟨addr, name⟩, hinserted, rfl⟩ := Option.map_eq_some_iff.mp h
    have hothers := FlagState.others_set_flag_iff hselected name addr
    simp only [InPlace, meant, hinserted, Option.mem_some_iff, forall_eq']
    exact (and_iff_left (FlagState.marks_set_flag hselected name addr)).trans hothers
  | update r v =>
    obtain ⟨name, haccepted, rfl⟩ := Option.map_eq_some_iff.mp h
    simp only [InPlace, meant, haccepted, Option.mem_some_iff, forall_eq', FlagCommand.exec]
    by_cases htaken : name ∈ s.flags.rows.map Flag.name
    · rw [FlagState.rename_flag_of_taken htaken]
      have hview : name ∈ s.view.others.map Flag.name ∨ name ∈ s.view.marks.map Prod.fst :=
        FlagState.mem_names_iff.mp htaken
      rw [if_pos hview]
      exact iff_of_true ⟨rfl, rfl⟩ (Or.inl htaken)
    · have hview : ¬ (name ∈ s.view.others.map Flag.name ∨ name ∈ s.view.marks.map Prod.fst) :=
        fun hmem => htaken (FlagState.mem_names_iff.mpr hmem)
      rw [if_neg hview, FlagState.others_rename_flag_iff htaken, or_iff_right htaken]
      exact and_iff_left (FlagState.marks_rename_flag htaken)
  | delete r =>
    cases h
    have hmarks := FlagState.marks_delete_at_iff hselected r
    exact (and_iff_right (FlagState.others_delete_at hselected r.addr)).trans hmarks

/-- An operation does what is meant exactly when it restores what it selects. -/
theorem view_step_iff [Nlohmann] (print : List Flag → Bytes) (s : FlagState) (op : BookmarkOp) :
    (op.step print s).view = op.meant s.view ↔ op.Restores s := by
  rw [step_eq, Restores]
  cases hcommand : op.command with
  | none => exact iff_of_true (meant_of_silent hcommand s.view).symm (Or.inl rfl)
  | some command =>
    have heffect : op.effect = some (FlagCommand.parse command) := by
      rw [← parse_command, hcommand]
      rfl
    obtain ⟨hselected, hstack, hspaces⟩ := exec_effect heffect (s.select bookmarks)
    have hflagspaces := FlagState.flagspaces_stay_iff (s := s) hselected hstack hspaces
    rw [view_eq_iff, hflagspaces, and_assoc]
    simp only [reduceCtorEq, false_or, and_congr_right_iff]
    intro hbefore htaken
    -- the two commands on the flagspaces do nothing
    rw [FlagState.select_of_selected hbefore, FlagState.rename_space_of_taken]
    · exact in_place_iff hbefore heffect
    · rw [(exec_effect heffect s).2.2]
      exact htaken

end BookmarkOp

/-! ## Runs -/

/-- The operation neither deletes nor renames the bookmark, and gives its name to no other. -/
def BookmarkOp.Spares (p : Bytes × Int64) : BookmarkOp → Prop
  | select => True
  | insert argv => ∀ q ∈ inserted argv 1, q.2 ≠ p.1
  | update r _ => r.name ≠ p.1
  | delete r => r.place ≠ p

theorem mem_meant {op : BookmarkOp} {v : BookmarkView} {p : Bytes × Int64} (hp : p ∈ v.marks)
    (h : op.Spares p) : p ∈ (op.meant v).marks := by
  cases op with
  | select => exact hp
  | insert argv =>
    rw [BookmarkOp.meant]
    cases hinserted : inserted argv 1 with
    | none => exact hp
    | some q =>
      have hne := h q hinserted
      exact List.mem_append_left _ (List.mem_filter.mpr ⟨hp, by simpa using hne.symm⟩)
  | update r value =>
    rw [BookmarkOp.meant]
    cases accepted value with
    | none => exact hp
    | some name =>
      by_cases htaken : name ∈ v.others.map Flag.name ∨ name ∈ v.marks.map Prod.fst
      · simpa only [if_pos htaken] using hp
      · simp only [if_neg htaken]
        have hne : p.1 ≠ r.name := fun heq => h heq.symm
        exact List.mem_map.mpr ⟨p, hp, if_neg hne⟩
  | delete r => exact List.mem_filter.mpr ⟨hp, by simpa using fun heq => h heq.symm⟩

theorem mem_foldl_meant {ops : List BookmarkOp} {v : BookmarkView} {p : Bytes × Int64}
    (hp : p ∈ v.marks) (h : ∀ op ∈ ops, op.Spares p) :
    p ∈ (ops.foldl BookmarkOp.meant v).marks := by
  induction ops generalizing v with
  | nil => exact hp
  | cons op ops ih =>
    obtain ⟨hop, hops⟩ := List.forall_mem_cons.mp h
    exact ih (mem_meant hp hop) hops

theorem foldl_meant_eq (ops : List BookmarkOp) (v : BookmarkView) :
    ops.foldl BookmarkOp.meant v = { v with marks := (ops.foldl BookmarkOp.meant v).marks } := by
  induction ops generalizing v with
  | nil => rfl
  | cons op ops ih =>
    rw [List.foldl_cons, ih, BookmarkOp.meant_eq]

theorem inserted_mem_foldl_meant {before later : List BookmarkOp} {argv : List FunctionArg}
    {addr : Int64} {name : Bytes} {v : BookmarkView}
    (hinserted : inserted argv 1 = some (addr, name))
    (h : ∀ op ∈ later, op.Spares (name, addr)) :
    (name, addr) ∈ ((before ++ .insert argv :: later).foldl BookmarkOp.meant v).marks := by
  rw [List.foldl_append, List.foldl_cons]
  refine mem_foldl_meant ?_ h
  rw [BookmarkOp.meant, hinserted]
  exact List.mem_append_right _ (List.mem_singleton_self _)

section
variable [Nlohmann] (print : List Flag → Bytes)

/-- radare2 after a list of operations. -/
def BookmarkOp.after (s : FlagState) (ops : List BookmarkOp) : FlagState :=
  ops.foldl (BookmarkOp.step print) s

/-- The JSON library reads back the names and addresses of the bookmarks that `fj` prints. -/
def FlagState.Reads (s : FlagState) : Prop :=
  (json_of_reply (print (s.flags.rows.filter fun f => f.space = some bookmarks))).items.map
    (fun j => (str j (Bytes.lit "name"), i64_addr j)) = s.marks

theorem FlagState.listed_eq {s : FlagState} (h : s.Reads print) : s.listed print = s.marks := by
  have hlisted : s.listed print =
      (json_of_reply (print ((s.select bookmarks).flags.rows.filter
        (s.select bookmarks).selects))).items.map
          fun j => (str j (Bytes.lit "name"), i64_addr j) := by
    simp only [FlagState.listed, bookmarks_cache_builder, Dialogue.play_bind, play_send,
      play_cmd_json, Dialogue.play_pure, List.foldl_cons, List.foldl_nil, FlagState.answer,
      parse_fss, parse_fs, parse_fj, if_true, FlagCommand.exec, List.map_map]
    generalize (json_of_reply _).items = records
    conv_rhs => rw [← List.zipIdx_map_fst 0 records, List.map_map]
    rfl
  rw [hlisted, ← h]
  simp only [funext (selects_select s)]
  rfl

/-- After the operations the flagspaces and the other flags are what they were before, and a SELECT
lists the bookmarks that are meant to be there, those among them that were inserted and then left
alone. -/
structure Restored (s : FlagState) (ops : List BookmarkOp) : Prop where
  selected : (BookmarkOp.after print s ops).selected = s.selected
  stack : (BookmarkOp.after print s ops).stack = s.stack
  spaces : (BookmarkOp.after print s ops).spaces.rows = s.spaces.rows
  others : (BookmarkOp.after print s ops).others = s.others
  listed :
    (BookmarkOp.after print s ops).listed print = (ops.foldl BookmarkOp.meant s.view).marks
  kept : ∀ before argv later addr name, ops = before ++ .insert argv :: later →
    inserted argv 1 = some (addr, name) → (∀ op ∈ later, op.Spares (name, addr)) →
    (name, addr) ∈ (BookmarkOp.after print s ops).listed print

theorem restored_iff {s : FlagState} {ops : List BookmarkOp}
    (hreads : (BookmarkOp.after print s ops).Reads print) :
    Restored print s ops ↔
      (BookmarkOp.after print s ops).view = ops.foldl BookmarkOp.meant s.view := by
  have hlisted := FlagState.listed_eq print hreads
  rw [foldl_meant_eq]
  constructor
  · intro h
    simp only [FlagState.view, BookmarkView.mk.injEq]
    exact ⟨h.selected, h.stack, h.spaces, h.others, hlisted ▸ h.listed⟩
  · intro h
    simp only [FlagState.view, BookmarkView.mk.injEq] at h
    obtain ⟨hselected, hstack, hspaces, hothers, hmarks⟩ := h
    refine ⟨hselected, hstack, hspaces, hothers, hlisted.trans hmarks, ?_⟩
    rintro before argv later addr name rfl hinserted hspares
    rw [hlisted, hmarks]
    exact inserted_mem_foldl_meant hinserted hspares

/-- Operations on the bookmarks leave the flagspaces and the other flags alone, and keep the
bookmarks, exactly when each of them restores what it selects. -/
theorem bookmark_operations_restore_the_flagspaces (s : FlagState) (ops : List BookmarkOp)
    (hreads : ∀ done, done <+: ops → (BookmarkOp.after print s done).Reads print) :
    (∀ done, done <+: ops → Restored print s done) ↔
      AlongAll (BookmarkOp.step print) BookmarkOp.Restores s ops := by
  rw [← follows_iff_alongAll (BookmarkOp.view_step_iff print) s ops]
  apply forall₂_congr
  intro done hdone
  exact restored_iff print (hreads done hdone)

end

/-- A state with no flags. -/
def no_flags (spaces : List Bytes) (h : spaces.Nodup) (selected : Option Bytes)
    (hselected : ∀ name ∈ selected, name ∈ spaces) : FlagState where
  flags := { rows := [], nodup := List.nodup_nil }
  functions := { rows := [], nodup := List.nodup_nil }
  spaces := { rows := spaces, nodup := by rwa [List.map_id] }
  selected := selected
  stack := []
  known := by simpa using hselected

/-- The values of `INSERT INTO bookmarks(addr, name) VALUES (0x1000, 'note')`. -/
def a_note : List FunctionArg :=
  [{ is_null := true, as_int64 := 0, as_c_str := none, as_text := [] },
    { is_null := false, as_int64 := 0x1000, as_c_str := none, as_text := [] },
    .text (Bytes.lit "note")]

/-- A library that reads the list of that bookmark. -/
@[reducible] def noteJson : Nlohmann := .ofTexts
  [("[\x7b\"name\":\"note\",\"offset\":4096\x7d]", .array [.object
    [(Bytes.lit "name", .string (Bytes.lit "note")),
      (Bytes.lit "offset", .number_unsigned 4096)]])]

/-- `fj` on no flag or on that bookmark. -/
def print_note (fs : List Flag) : Bytes :=
  if fs = [] then [] else Bytes.lit "[\x7b\"name\":\"note\",\"offset\":4096\x7d]"

theorem forall_prefix_insert {P : List BookmarkOp → Prop} (hbefore : P [])
    (hafter : P [.insert a_note]) : ∀ done, done <+: [BookmarkOp.insert a_note] → P done := by
  intro done hdone
  rcases List.prefix_cons_iff.mp hdone with rfl | ⟨rest, rfl, hrest⟩
  · exact hbefore
  · obtain rfl := List.prefix_nil.mp hrest
    exact hafter

/-- With the bookmarks selected and a space named `-`, an INSERT restores everything. -/
theorem a_note_is_listed :
    letI := noteJson
    letI s := no_flags [bookmarks, Bytes.lit "-"] (by decide) (some bookmarks) (by decide)
    (∀ done, done <+: [BookmarkOp.insert a_note] →
        (BookmarkOp.after print_note s done).Reads print_note) ∧
      ∀ done, done <+: [BookmarkOp.insert a_note] → Restored print_note s done := by
  let _ := noteJson
  have hreads : ∀ done, done <+: [BookmarkOp.insert a_note] →
      (BookmarkOp.after print_note (no_flags [bookmarks, Bytes.lit "-"] (by decide)
        (some bookmarks) (by decide)) done).Reads print_note :=
    forall_prefix_insert (by unfold FlagState.Reads; decide +kernel)
      (by unfold FlagState.Reads; decide +kernel)
  refine ⟨hreads, ?_⟩
  rw [bookmark_operations_restore_the_flagspaces print_note _ _ hreads]
  refine ⟨Or.inr ⟨rfl, by decide +kernel, ?_⟩, trivial⟩
  intro p _ f hf
  cases hf

/-- One INSERT leaves another flagspace selected, and the bookmark is not listed. -/
theorem an_insert_leaves_another_flagspace :
    letI := noteJson
    ∃ s, (∀ done, done <+: [BookmarkOp.insert a_note] →
        (BookmarkOp.after print_note s done).Reads print_note) ∧
      (BookmarkOp.after print_note s [.insert a_note]).selected ≠ s.selected ∧
      (BookmarkOp.after print_note s [.insert a_note]).listed print_note = [] ∧
      ¬ Restored print_note s [.insert a_note] := by
  let _ := noteJson
  let s := no_flags [] (by decide) none (by decide)
  have hselected : (BookmarkOp.after print_note s [.insert a_note]).selected ≠ s.selected := by
    decide +kernel
  exact ⟨s, forall_prefix_insert (by unfold FlagState.Reads; decide +kernel)
    (by unfold FlagState.Reads; decide +kernel), hselected, by decide +kernel,
    fun h => hselected h.selected⟩

end r2sql
