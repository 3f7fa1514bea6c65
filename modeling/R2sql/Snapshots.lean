-- What a query reads is one snapshot of radare2: however it goes from the rows
-- of one table to the next, the tables leave radare2 as it was.
import R2sql.BackendNames
import R2sql.CommentsMap
import R2sql.TableCommands

namespace r2sql

/-! ## The values of the tables -/

/-- What the code of a table ends with. -/
def TableRun.Result : TableRun → Type
  | welcome => Except Thrown (List WelcomeRow)
  | funcs => Except Thrown (List FuncRow)
  | blocks => FuncGen BlockRow
  | blocks_in_func _ => Except Thrown (VecIterator BlockRow)
  | instructions => FuncGen InsnRow
  | instructions_in_func _ => Except Thrown (VecIterator InsnRow)
  | xrefs => Except Thrown (List XrefRow)
  | xrefs_to _ | xrefs_from _ => Except Thrown (VecIterator XrefRow)
  | strings | strings_projection _ => Except Thrown (List StringRow)
  | imports => Except Thrown (List ImportRow)
  | exports => Except Thrown (List ExportRow)
  | sections | segments => Except Thrown (List SectionRow)
  | flags => Except Thrown (List FlagRow)
  | comments => Except Thrown (List CommentRow)
  | bookmarks => Except Thrown (List BookmarkRow)
  | grep => Except Thrown (List GrepRow)
  | grep_pattern _ => Except Thrown (VecIterator GrepRow)
  | types => Except Thrown (List TypeRow)
  | types_members => Except Thrown (List MemberRow)
  | projects => Except Thrown (List ProjectRow)
  | pseudocode _ => PseudoGen
  | pseudocode_at_func _ _ => PseudoAtFuncIterator

section
variable [Nlohmann] [NlohmannErrors] [CppLibrary]

/-- The code of a table, with its rows. -/
def TableRun.run : (t : TableRun) → R2 t.Result
  | welcome => checked.welcome_cache_builder.run
  | funcs => checked.funcs_cache_builder.run
  | blocks => BlocksGen
  | blocks_in_func fa => (checked.BlocksInFuncIterator fa).run
  | instructions => InsnsGen
  | instructions_in_func fa => (checked.InsnsInFuncIterator fa).run
  | xrefs => checked.xrefs_cache_builder.run
  | xrefs_to addr => (checked.XrefsToIterator addr).run
  | xrefs_from addr => (checked.XrefsFromIterator addr).run
  | strings => checked.strings_cache_builder.run
  | strings_projection colUsed => (checked.strings_projection_cache_builder colUsed).run
  | imports => checked.imports_cache_builder.run
  | exports => checked.exports_cache_builder.run
  | sections => checked.sections_cache_builder.run
  | segments => checked.segments_cache_builder.run
  | flags => checked.flags_cache_builder.run
  | comments => checked.comments_cache_builder.run
  | bookmarks => checked.bookmarks_cache_builder.run
  | grep => checked.build_grep_rows.run
  | grep_pattern pattern => (checked.GrepPatternIterator pattern).run
  | types => checked.types_cache_builder.run
  | types_members => checked.types_members_cache_builder.run
  | projects => checked.projects_cache_builder.run
  | pseudocode dec_cmd => PseudoGen.make dec_cmd
  | pseudocode_at_func dec_cmd fa => PseudoAtFuncIterator.make dec_cmd fa

theorem TableRun.discard_run (t : TableRun) : discard t.run = t.code := by
  cases t <;> rfl

end

/-! ## Queries -/

section
variable [Nlohmann] [NlohmannErrors] [CppLibrary]

/-- The code that a query makes run when it writes nothing: tables, the `next` of generators and
estimates, each chosen from what the ones before gave. The bookmarks are not here, since their
builder selects a flagspace. -/
inductive Query : {α : Type} → R2 α → Prop
  | done {α : Type} (a : α) : Query (pure a)
  | table {t : TableRun} (hbookmarks : t ≠ .bookmarks) (h : t.Decompiles) : Query t.run
  | next_block (g : FuncGen BlockRow) : Query (checked.FuncGen.next checked.blocks_for_func g).run
  | next_insn (g : FuncGen InsnRow) : Query (checked.FuncGen.next checked.insns_for_func g).run
  | next_pseudo {g : PseudoGen} (h : g.dec_cmd_ ∈ decompilers) :
      Query (checked.PseudoGen.next g).run
  | estimate {command : String} (h : command ∈ estimates) : Query (cmd (Bytes.lit command))
  | bind {α β : Type} {m : R2 α} {f : α → R2 β} (hm : Query m) (hf : ∀ a, Query (f a)) :
      Query (m >>= f)

end

/-- A command that radare2 only prints for: one that reads, or that asks for a type by a name that
stays one operand. -/
def Harmless (command : Bytes) : Prop :=
  Reading command ∨ ∃ verb ∈ type_verbs, ∃ name, SafeName name ∧ command = Bytes.lit verb ++ name

/-- The names of the structs, unions and enums that radare2 lists are operands. -/
def NamesTypes (answer : Bytes → Bytes) : Prop :=
  ∀ name kind, kind ∈ member_kinds → FirstDeclares (answer (Bytes.lit "tk*")) name kind →
    SafeName name

section
variable {answer : Backend}

theorem harmless_listing {command : String} (h : command ∈ list_commands) :
    Harmless (Bytes.lit command) :=
  .inl (.listing (List.mem_append_left _ h))

theorem harmless_type_command (hnames : NamesTypes answer) {name kind : Bytes}
    (hfirst : FirstDeclares (answer (Bytes.lit "tk*")) name kind) (hkind : kind ∈ member_kinds) :
    Harmless (type_command name kind) := by
  obtain ⟨verb, hverb, hcommand⟩ := type_command_eq name hkind
  exact .inr ⟨verb, hverb, name, hnames name kind hkind hfirst, hcommand⟩

variable [Nlohmann] [NlohmannErrors] [CppLibrary]

theorem harmless_types (hnames : NamesTypes answer) :
    ∀ c ∈ checked.types_cache_builder.run.asked answer, Harmless c := by
  intro c hc
  have htk : Harmless (Bytes.lit "tk*") := harmless_listing (by decide)
  have htj : Harmless (Bytes.lit "tj") := harmless_listing (by decide)
  unfold checked.types_cache_builder at hc
  rcases Raising.mem_asked_lift_bind hc with hc | hc
  · rwa [List.mem_singleton.mp hc]
  · dsimp only at hc
    split at hc
    · cases hc
    · rcases Raising.mem_asked_lift_bind hc with hc | hc
      · rwa [List.mem_singleton.mp hc]
      · rcases Raising.mem_asked_bind hc with hc | ⟨info, -, hc⟩
        · cases hc
        · rcases Raising.mem_asked_bind hc with hc | ⟨rows, -, hc⟩
          · obtain ⟨p, hp, hc⟩ := Raising.mem_asked_mapM hc
            have hkinds : p.2 ∈ record_kinds → Harmless (type_command p.1 p.2) := fun hkind =>
              harmless_type_command hnames (mem_iterate.mp hp) (record_kinds_subset hkind)
            exact Dialogue.of_mem_asked (checked.asks_type_row info hkinds) answer c hc
          · cases hc

theorem harmless_types_members (hnames : NamesTypes answer) :
    ∀ c ∈ checked.types_members_cache_builder.run.asked answer, Harmless c := by
  intro c hc
  have htk : Harmless (Bytes.lit "tk*") := harmless_listing (by decide)
  unfold checked.types_members_cache_builder at hc
  rcases Raising.mem_asked_lift_bind hc with hc | hc
  · rwa [List.mem_singleton.mp hc]
  · dsimp only at hc
    split at hc
    · cases hc
    · rcases Raising.mem_asked_bind hc with hc | ⟨rows, -, hc⟩
      · obtain ⟨p, hp, hc⟩ := Raising.mem_asked_mapM hc
        exact Dialogue.of_mem_asked (checked.asks_member_rows
          (harmless_type_command hnames (mem_iterate.mp hp))) answer c hc
      · cases hc

theorem TableRun.harmless_run (hnames : NamesTypes answer) {t : TableRun} (hb : t ≠ .bookmarks)
    (h : t.Decompiles) : ∀ c ∈ t.run.asked answer, Harmless c := by
  have hplain : t.Plain → ∀ c ∈ t.run.asked answer, Harmless c := by
    intro hplain c hc
    rw [← Dialogue.asked_map answer (fun _ => ())] at hc
    have hcode : c ∈ t.code.asked answer := by
      rw [← t.discard_run]
      exact hc
    exact .inl (Dialogue.of_mem_asked (t.reading_code h hplain) answer c hcode)
  cases t with
  | bookmarks => exact absurd rfl hb
  | types => exact harmless_types hnames
  | types_members => exact harmless_types_members hnames
  | _ => exact hplain trivial

theorem Query.harmless (hnames : NamesTypes answer) {α : Type} {m : R2 α} (hm : Query m) :
    ∀ c ∈ m.asked answer, Harmless c := by
  induction hm with
  | done a =>
    intro c hc
    cases hc
  | table hb h => exact TableRun.harmless_run hnames hb h
  | next_block g =>
    have hasks := checked.FuncGen.asks_next checked.asks_blocks_for_func g
    exact fun c hc => .inl (Dialogue.of_mem_asked hasks answer c hc)
  | next_insn g =>
    have hasks := checked.FuncGen.asks_next checked.asks_insns_for_func g
    exact fun c hc => .inl (Dialogue.of_mem_asked hasks answer c hc)
  | next_pseudo h =>
    exact fun c hc => .inl (Dialogue.of_mem_asked (checked.PseudoGen.asks_next h) answer c hc)
  | estimate h =>
    intro c hc
    rw [List.mem_singleton.mp hc]
    exact .inl (.listing (List.mem_append_right _ h))
  | bind hm hf ihm ihf =>
    rw [Dialogue.asked_bind]
    exact fun c hc => (List.mem_append.mp hc).elim (ihm c) (ihf _ c)

/-- Where radare2 only prints for the harmless commands, a query gives what the answers in its
first state give, and leaves radare2 in that state. -/
theorem queries_read_one_snapshot {σ : Type} {r2 : σ → Bytes → Bytes × σ} {s : σ}
    (hprints : ∀ c, Harmless c → (r2 s c).2 = s) (hnames : NamesTypes fun c => (r2 s c).1)
    {α : Type} {m : R2 α} (hm : Query m) : m.play r2 s = (m.value fun c => (r2 s c).1, s) :=
  Dialogue.play_eq_of_asked r2 s fun c hc => hprints c (hm.harmless hnames c hc)

end

/-! ## A query on comments -/

/-- The comments, and the blocks of the function that the first one is at. -/
def blocks_at_a_comment [Nlohmann] [NlohmannErrors] [CppLibrary] : R2 (List (Int64 × Bytes)) := do
  let comments ← TableRun.comments.run
  let rows := (comments.toOption.getD []).map fun r : CommentRow => (r.addr, r.text)
  let _ ← (TableRun.blocks_in_func ((rows.head?.map Prod.fst).getD 0)).run
  let _ ← TableRun.types.run
  return rows

theorem verb_at_addr {v : String} (hv : ' '.toUInt8 ∉ Bytes.lit v) (addr : Int64) :
    command_line.verb (at_addr v addr) = Bytes.lit v := by
  have hspace : Bytes.lit " @ " ++ json_utils.hex_addr addr =
      ' '.toUInt8 :: (Bytes.lit "@ " ++ json_utils.hex_addr addr) := rfl
  rw [at_addr, List.append_assoc, hspace, command_line.verb_append hv]

theorem verb_of_harmless {command : Bytes} (h : Harmless command) :
    command_line.verb command ≠ Bytes.lit "CCu" ∧ command_line.verb command ≠ Bytes.lit "CC-" := by
  have hlistings : ∀ c ∈ list_commands ++ estimates,
      command_line.verb (Bytes.lit c) ≠ Bytes.lit "CCu" ∧
      command_line.verb (Bytes.lit c) ≠ Bytes.lit "CC-" := by decide +kernel
  have haddress : ∀ v ∈ address_verbs, ' '.toUInt8 ∉ Bytes.lit v ∧ Bytes.lit v ≠ Bytes.lit "CCu" ∧
      Bytes.lit v ≠ Bytes.lit "CC-" := by decide +kernel
  have htype : ∀ v ∈ type_verbs, ∃ w : Bytes, Bytes.lit v = w ++ [' '.toUInt8] ∧
      ' '.toUInt8 ∉ w ∧ w ≠ Bytes.lit "CCu" ∧ w ≠ Bytes.lit "CC-" := by
    intro v hv
    have hall : ∀ v ∈ type_verbs, Bytes.lit v = (Bytes.lit v).dropLast ++ [' '.toUInt8] ∧
        ' '.toUInt8 ∉ (Bytes.lit v).dropLast ∧ (Bytes.lit v).dropLast ≠ Bytes.lit "CCu" ∧
        (Bytes.lit v).dropLast ≠ Bytes.lit "CC-" := by decide +kernel
    exact ⟨_, hall v hv⟩
  rcases h with h | ⟨v, hv, name, -, rfl⟩
  · cases h with
    | listing h => exact hlistings _ h
    | address h addr =>
      obtain ⟨hspace, hne⟩ := haddress _ h
      rwa [verb_at_addr hspace addr]
  · obtain ⟨w, hw, hspace, hne⟩ := htype v hv
    rwa [hw, List.append_assoc, List.singleton_append, command_line.verb_append hspace]

theorem comments_answer_of_harmless (print : List Comment → Bytes) (s : Comments) {command : Bytes}
    (h : Harmless command) : (comments_answer print s command).2 = s := by
  obtain ⟨hset, hremove⟩ := verb_of_harmless h
  simp only [comments_answer, CommentCommand.parse, CommentCommand.of_verb, if_neg hset,
    if_neg hremove]
  split <;> rfl

/-- The text that radare2 prints for a comment at the highest address. -/
def print_top (_ : List Comment) : Bytes :=
  Bytes.lit "[\x7b\"offset\":18446744073709551615,\"name\":\"top\"\x7d]"

def top_comment : Comments :=
  ⟨[{ addr := 18446744073709551615, text := Bytes.lit "top" }], by decide⟩

theorem the_top_comment_is_read :
    letI := topJson
    letI := NlohmannErrors.silent
    letI := CppLibrary.stable
    blocks_at_a_comment.play (comments_answer print_top) top_comment =
      ([(-1, Bytes.lit "top")], top_comment) := by
  let := topJson
  let := NlohmannErrors.silent
  let := CppLibrary.stable
  have hquery : Query blocks_at_a_comment := by
    unfold blocks_at_a_comment
    refine .bind (.table (by simp) trivial) fun comments => ?_
    refine .bind (.table (by simp) trivial) fun blocks => ?_
    exact .bind (.table (by simp) trivial) fun types => .done _
  have hnames : NamesTypes fun c => (comments_answer print_top top_comment c).1 := by
    rintro name kind - ⟨before, record, after, h, -⟩
    have hnone : (comments_answer print_top top_comment (Bytes.lit "tk*")).1 = [] := by
      decide +kernel
    change tk_records (comments_answer print_top top_comment (Bytes.lit "tk*")).1 = _ at h
    rw [hnone] at h
    simp [tk_records] at h
  have hprints := fun c hc => @comments_answer_of_harmless print_top top_comment c hc
  rw [queries_read_one_snapshot hprints hnames hquery]
  have hrows : blocks_at_a_comment.value (fun c => (comments_answer print_top top_comment c).1) =
      [(-1, Bytes.lit "top")] := by
    decide +kernel
  rw [hrows]

end r2sql
