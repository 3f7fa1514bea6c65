-- What the table code can send to radare2: every command of every table, setter
-- and SQL function begins with a letter of its own, and never with that of the
-- plugin's `sql` command, where it carries no text that comes from elsewhere.
import R2sql.BackendNames
import R2sql.TableExceptions
import R2sql.WriteCommands

namespace r2sql

/-! ## Calls into the table code -/

/-- The commands that `estimate_rows` counts lines with. -/
def estimates : List String :=
  ["afl~?", "iz~?", "ii~?", "iE~?", "iS~?", "iSS~?", "fj~?"]

/-- The decompilers that a session can find: `{probe, cmd}`. -/
def probes : List (String × String) := [("pdg?", "pdg"), ("pdd?", "pdd"), ("pdc?", "pdc")]

def decompilers : List String := probes.map Prod.snd

/-- The loop of `detect_decompiler_`: the first probe with a help text wins. -/
def first_decompiler : List (String × String) → R2 (Option String)
  | [] => return none
  | (probe, command) :: rest => do
    let out ← cmd (Bytes.lit probe)
    if out ≠ [] ∧ Bytes.lit "Usage:" <:+: out then return some command
    else first_decompiler rest

/-- `Session::detect_decompiler_`. -/
def detect_decompiler : R2 (Option String) := first_decompiler probes

/-- The pseudocode table is there with the command of a decompiler that was found. -/
def TableRun.Decompiles : TableRun → Prop
  | pseudocode dec_cmd | pseudocode_at_func dec_cmd _ => dec_cmd ∈ decompilers
  | _ => True

/-- A call that SQLite makes into the code of this library, with its arguments: a cache builder or
the constructor of a generator or an iterator, the `next` of a generator in any state, an estimate,
a write, or a function. -/
inductive TableCall where
  | read (t : TableRun) (h : t.Decompiles)
  | next_block (g : FuncGen BlockRow)
  | next_insn (g : FuncGen InsnRow)
  | next_pseudo (g : PseudoGen) (h : g.dec_cmd_ ∈ decompilers)
  | estimate (command : String) (h : command ∈ estimates)
  | write (w : Write)
  | funcs_delete (r : FuncRow)
  | flags_delete (r : FlagRow)
  | bookmarks_delete (r : BookmarkRow)
  | comments_delete (r : CommentRow)
  | types_delete (r : TypeRow)
  | projects_delete (r : ProjectRow)
  | type_define (argv : List FunctionArg)

/-- The code of a write. -/
def Write.code : Write → R2 Unit
  | funcs_name r v => discard (funcs_name_setter r v)
  | funcs_insert argv => discard (funcs_insertable argv)
  | flags_name r v => discard (flags_name_setter r v)
  | flags_insert argv => discard (flags_insertable argv)
  | bookmarks_name r v => discard (bookmarks_name_setter r v)
  | bookmarks_insert argv => discard (bookmarks_insertable argv)
  | comments_text r v => discard (comments_text_setter r v)
  | comments_insert argv => discard (comments_insertable argv)
  | project_save argv => discard (r2sql_project_save argv)
  | project_open argv => discard (r2sql_project_open argv)

section
variable [Nlohmann] [NlohmannErrors] [CppLibrary]

/-- The cache builder of a table, or the constructor of its generator or iterator. -/
def TableRun.code : TableRun → R2 Unit
  | welcome => discard checked.welcome_cache_builder.run
  | funcs => discard checked.funcs_cache_builder.run
  | blocks => discard BlocksGen
  | blocks_in_func fa => discard (checked.BlocksInFuncIterator fa).run
  | instructions => discard InsnsGen
  | instructions_in_func fa => discard (checked.InsnsInFuncIterator fa).run
  | xrefs => discard checked.xrefs_cache_builder.run
  | xrefs_to addr => discard (checked.XrefsToIterator addr).run
  | xrefs_from addr => discard (checked.XrefsFromIterator addr).run
  | strings => discard checked.strings_cache_builder.run
  | strings_projection colUsed => discard (checked.strings_projection_cache_builder colUsed).run
  | imports => discard checked.imports_cache_builder.run
  | exports => discard checked.exports_cache_builder.run
  | sections => discard checked.sections_cache_builder.run
  | segments => discard checked.segments_cache_builder.run
  | flags => discard checked.flags_cache_builder.run
  | comments => discard checked.comments_cache_builder.run
  | bookmarks => discard checked.bookmarks_cache_builder.run
  | grep => discard checked.build_grep_rows.run
  | grep_pattern pattern => discard (checked.GrepPatternIterator pattern).run
  | types => discard checked.types_cache_builder.run
  | types_members => discard checked.types_members_cache_builder.run
  | projects => discard checked.projects_cache_builder.run
  | pseudocode dec_cmd => discard (PseudoGen.make dec_cmd)
  | pseudocode_at_func dec_cmd fa => discard (PseudoAtFuncIterator.make dec_cmd fa)

/-- What the call does with the backend. -/
def TableCall.code : TableCall → R2 Unit
  | read t _ => t.code
  | next_block g => discard (checked.FuncGen.next checked.blocks_for_func g).run
  | next_insn g => discard (checked.FuncGen.next checked.insns_for_func g).run
  | next_pseudo g _ => discard (checked.PseudoGen.next g).run
  | estimate command _ => discard (cmd (Bytes.lit command))
  | write w => w.code
  | funcs_delete r => discard (funcs_deletable r)
  | flags_delete r => discard (flags_deletable r)
  | bookmarks_delete r => discard (bookmarks_deletable r)
  | comments_delete r => discard (comments_deletable r)
  | types_delete r => discard (types_deletable r)
  | projects_delete r => discard (projects_deletable r)
  | type_define argv => discard (r2sql_type_define argv)

end

/-! ## The commands -/

/-- A command that the plugin does not claim: it does not begin with the `s` of `sql`. -/
def NotForPlugin (command : Bytes) : Prop := command.head? ≠ some 's'.toUInt8

instance (command : Bytes) : Decidable (NotForPlugin command) := inferInstanceAs (Decidable (_ ≠ _))

theorem notForPlugin_append {s : Bytes} (t : Bytes) (hs : s ≠ []) (h : NotForPlugin s) :
    NotForPlugin (s ++ t) := by
  unfold NotForPlugin
  rw [List.head?_append_of_ne_nil s hs]
  exact h

theorem notForPlugin_at_addr {command : String} (addr : Int64) (hs : Bytes.lit command ≠ [])
    (h : NotForPlugin (Bytes.lit command)) : NotForPlugin (at_addr command addr) := by
  unfold at_addr
  rw [List.append_assoc]
  exact notForPlugin_append _ hs h

/-! ## The commands that tables read with -/

/-- The listings of radare2. -/
def list_commands : List String :=
  ["iIj", "ij", "iej", "aflj", "izj", "iij", "iEj", "iSj", "iSSj", "isj", "fj", "CCj", "Plj", "tk*",
    "tj"]

/-- The commands about one address. -/
def address_verbs : List String :=
  ["afbj", "pdfj", "afij", "axtj", "axfj", "afxj", "fd"] ++ decompilers

/-- A command that only reads, with no name in it: a listing, a count of its lines, or a question
about an address. -/
inductive Reading : Bytes → Prop
  | listing {command : String} (h : command ∈ list_commands ++ estimates) :
      Reading (Bytes.lit command)
  | address {verb : String} (h : verb ∈ address_verbs) (addr : Int64) : Reading (at_addr verb addr)

/-- The commands on the stack of flagspaces. -/
def space_commands : List String := ["fss*", "fs bookmarks", "fsr-"]

/-- What is written before an address, before a name, and before a name at an address. -/
def addr_verbs : List String := ["af @ ", "af- ", "f- @ ", "CC- @ "]

def name_verbs : List String := ["Ps ", "P ", "P- ", "t- "]

def name_at_verbs : List String := ["afn ", "f "]

/-- A command of the library. The commands that carry a text of radare2 or of SQL as it is meet
`p`. -/
inductive Sent (p : Bytes → Prop) : Bytes → Prop
  | reading {command : Bytes} (h : Reading command) : Sent p command
  | space {command : String} (h : command ∈ space_commands) : Sent p (Bytes.lit command)
  | addr {verb : String} (h : verb ∈ addr_verbs) (addr : Int64) :
    Sent p (Bytes.lit verb ++ json_utils.hex_addr addr)
  | named {verb : String} {name : Bytes} (h : verb ∈ name_verbs)
    (hname : json_utils.valid_flag_name name = true) : Sent p (Bytes.lit verb ++ name)
  | named_at {verb : String} {name : Bytes} (h : verb ∈ name_at_verbs)
    (hname : json_utils.valid_flag_name name = true) (addr : Int64) :
    Sent p (Bytes.lit verb ++ name ++ Bytes.lit " @ " ++ json_utils.hex_addr addr)
  | ccu (text : Bytes) (addr : Int64) : Sent p (ccu text addr)
  | probe {probe : String} (h : probe ∈ probes.map Prod.fst) : Sent p (Bytes.lit probe)
  | carrying {command : Bytes} (h : p command) : Sent p command

theorem notForPlugin_of_reading {command : Bytes} (h : Reading command) : NotForPlugin command := by
  have hlistings : ∀ c ∈ list_commands ++ estimates, NotForPlugin (Bytes.lit c) := by decide
  have haddress : ∀ v ∈ address_verbs, Bytes.lit v ≠ [] ∧ NotForPlugin (Bytes.lit v) := by decide
  cases h with
  | listing h => exact hlistings _ h
  | address h addr => exact notForPlugin_at_addr addr (haddress _ h).1 (haddress _ h).2

theorem notForPlugin_of_sent {p : Bytes → Prop} (hp : ∀ command, p command → NotForPlugin command)
    {command : Bytes} (h : Sent p command) : NotForPlugin command := by
  have hverbs : ∀ v ∈ addr_verbs ++ name_verbs ++ name_at_verbs,
      Bytes.lit v ≠ [] ∧ NotForPlugin (Bytes.lit v) := by decide
  simp only [List.mem_append] at hverbs
  have hverb := fun v hv t => notForPlugin_append t (hverbs v hv).1 (hverbs v hv).2
  have hfixed : ∀ c ∈ space_commands ++ probes.map Prod.fst, NotForPlugin (Bytes.lit c) := by
    decide
  cases h with
  | reading h => exact notForPlugin_of_reading h
  | space h => exact hfixed _ (List.mem_append_left _ h)
  | addr h addr => exact hverb _ (.inl (.inl h)) _
  | named h hname => exact hverb _ (.inl (.inr h)) _
  | named_at h hname addr =>
    rw [List.append_assoc, List.append_assoc]
    exact hverb _ (.inr h) _
  | ccu text addr =>
    unfold ccu
    rw [List.append_assoc, List.append_assoc]
    exact notForPlugin_append _ (by decide) (by decide)
  | probe h => exact hfixed _ (List.mem_append_right _ h)
  | carrying h => exact hp _ h

theorem reading_decompiler {dec_cmd : String} (addr : Int64) (h : dec_cmd ∈ decompilers) :
    Reading (at_addr dec_cmd addr) := .address (List.mem_append_right _ h) addr

theorem asks_send {P : Bytes → Prop} {commands : List Bytes} (h : ∀ c ∈ commands, P c) :
    (send commands).Asks P := by
  induction commands with
  | nil => exact trivial
  | cons command commands ih =>
    exact ⟨h command (by simp), fun _ => ih fun c hc => h c (by simp [hc])⟩

theorem asks_send_one {P : Bytes → Prop} {command : Bytes} (h : P command) {α : Type} (a : α) :
    (send [command] >>= fun _ => (pure a : R2 α)).Asks P :=
  Dialogue.asks_bind (asks_send (List.forall_mem_singleton.mpr h)) fun _ => Dialogue.asks_pure a

theorem asks_cmd {P : Bytes → Prop} {command : Bytes} (h : P command) : (cmd command).Asks P :=
  ⟨h, fun _ => trivial⟩

theorem asks_cmd_json [Nlohmann] {P : Bytes → Prop} {command : Bytes} (h : P command) :
    (cmd_json command).Asks P := ⟨h, fun _ => trivial⟩

/-! ## The readers -/

/-- The kinds of types with fields. -/
def record_kinds : List Bytes := ["struct", "union"].map Bytes.lit

theorem record_kinds_subset : record_kinds ⊆ member_kinds := by decide

namespace checked

variable [Nlohmann] [NlohmannErrors]

omit [NlohmannErrors] in
theorem asks_read {P : Bytes → Prop} {command : Bytes} (h : P command) {α : Type}
    (read : Json → Except Thrown α) :
    ((liftM (cmd_json command) : Raises Json) >>= fun j => liftM (read j)).run.Asks P :=
  Raising.asks_bind (Raising.asks_lift (asks_cmd_json h)) fun _ => Raising.asks_ofExcept _

omit [NlohmannErrors] in
theorem asks_array_rows {Row : Type} {command : String} (row : Json → Except Thrown Row)
    (h : Reading (Bytes.lit command)) : (array_rows command row).run.Asks Reading := by
  unfold array_rows
  exact asks_read h _

theorem asks_bookmarks {p : Bytes → Prop} : bookmarks_cache_builder.run.Asks (Sent p) := by
  have hselect : ∀ c ∈ [Bytes.lit "fss*", Bytes.lit "fs bookmarks"], Sent p c :=
    List.forall_mem_cons.mpr
      ⟨.space (by decide), List.forall_mem_singleton.mpr (.space (by decide))⟩
  have hrestore : ∀ c ∈ [Bytes.lit "fsr-"], Sent p c :=
    List.forall_mem_singleton.mpr (.space (by decide))
  have hfj : Sent p (Bytes.lit "fj") := .reading (.listing (by decide))
  unfold bookmarks_cache_builder
  apply Raising.asks_bind (Raising.asks_lift (asks_send hselect))
  intro _
  apply Raising.asks_bind (Raising.asks_lift (asks_cmd_json hfj))
  intro arr
  apply Raising.asks_bind (Raising.asks_lift (asks_send hrestore))
  intro _
  exact Raising.asks_ofExcept _

theorem asks_projects : projects_cache_builder.run.Asks Reading := by
  unfold projects_cache_builder
  exact Raising.asks_bind (asks_array_rows _ (.listing (by decide))) fun _ => Raising.asks_pure _

omit [NlohmannErrors] in
theorem asks_add_count {command : String} (h : Reading (Bytes.lit command)) :
    (liftM (add_count command) : Raises Bytes).run.Asks Reading := by
  unfold add_count
  exact Raising.asks_lift (Dialogue.asks_bind (asks_cmd_json h) fun _ => Dialogue.asks_pure _)

omit [NlohmannErrors] in
/-- The counts of the welcome table, and what it does with them. -/
theorem asks_counts (rows : Bytes → Bytes → Bytes → Bytes → Bytes → Bytes → List WelcomeRow) :
    (do
      let func_count ← add_count "aflj"
      let string_count ← add_count "izj"
      let import_count ← add_count "iij"
      let section_count ← add_count "iSj"
      let segment_count ← add_count "iSSj"
      let symbol_count ← add_count "isj"
      return rows func_count string_count import_count section_count segment_count symbol_count :
      Raises (List WelcomeRow)).run.Asks Reading :=
  Raising.asks_bind (asks_add_count (.listing (by decide))) fun _ =>
    Raising.asks_bind (asks_add_count (.listing (by decide))) fun _ =>
    Raising.asks_bind (asks_add_count (.listing (by decide))) fun _ =>
    Raising.asks_bind (asks_add_count (.listing (by decide))) fun _ =>
    Raising.asks_bind (asks_add_count (.listing (by decide))) fun _ =>
    Raising.asks_bind (asks_add_count (.listing (by decide))) fun _ => Raising.asks_pure _

omit [Nlohmann] in
/-- The entry point is an address. -/
theorem reading_fd {j : Json} {at_entry : Bytes} (h : welcome_entry j = .ok (some at_entry)) :
    Reading (Bytes.lit "fd @ " ++ at_entry) := by
  have hentry : ∃ v : UInt64, at_entry = hex_u64 v := by
    unfold welcome_entry at h
    split at h
    · split at h
      · obtain ⟨vaddr, -, h⟩ := Raising.bind_eq_ok_iff.mp h
        split at h
        · obtain ⟨v, -, h⟩ := Raising.bind_eq_ok_iff.mp h
          cases h
          exact ⟨v, rfl⟩
        · cases h
      · cases h
    · cases h
  obtain ⟨v, rfl⟩ := hentry
  have hfd : Bytes.lit "fd @ " ++ hex_u64 v = at_addr "fd" v.toInt64 := by
    simp [at_addr, hex_u64, json_utils.hex_addr, Bytes.lit]
  rw [hfd]
  exact .address (by decide) _

theorem asks_welcome : welcome_cache_builder.run.Asks Reading := by
  unfold welcome_cache_builder
  apply Raising.asks_bind (Raising.asks_lift (asks_cmd_json (.listing (by decide))))
  intro iIj
  apply Raising.asks_bind (Raising.asks_ofExcept _)
  rintro ⟨info, arch, bits⟩
  apply Raising.asks_bind (Raising.asks_lift (asks_cmd_json (.listing (by decide))))
  intro ij
  apply Raising.asks_bind (Raising.asks_ofExcept _)
  intro file
  apply Raising.asks_bind (Raising.asks_lift (asks_cmd_json (.listing (by decide))))
  intro iej
  apply Raising.asks_ofExcept_bind
  intro entry hentry
  cases entry with
  | none => exact Raising.asks_bind (Raising.asks_pure _) fun _ => asks_counts _
  | some at_entry =>
    have hfd := reading_fd hentry
    exact Raising.asks_bind (Raising.asks_map chomp (Raising.asks_lift (asks_cmd hfd))) fun _ =>
      asks_counts _

theorem asks_blocks_for_func (fa : Int64) : (blocks_for_func fa).run.Asks Reading := by
  have hcommand : Reading (at_addr "afbj" fa) := .address (by decide) fa
  unfold blocks_for_func
  exact asks_read hcommand _

theorem asks_insns_for_func (fa : Int64) : (insns_for_func fa).run.Asks Reading := by
  have hcommand : Reading (at_addr "pdfj" fa) := .address (by decide) fa
  unfold insns_for_func
  apply Raising.asks_bind (Raising.asks_lift (asks_cmd_json hcommand))
  intro pdf
  split
  · exact Raising.asks_pure _
  · exact Raising.asks_ofExcept _

omit [Nlohmann] in
theorem FuncGen.asks_next {Row : Type} {f : Int64 → Raises (List Row)}
    (hf : ∀ fa, (f fa).run.Asks Reading) (g : FuncGen Row) :
    (FuncGen.next f g).run.Asks Reading := by
  fun_induction FuncGen.next f g with
  | case1 | case3 => exact Raising.asks_pure _
  | case2 g hb hfi ih =>
    exact Raising.asks_bind (Raising.asks_ofExcept _) fun fa =>
      Raising.asks_bind (hf fa) fun buf => ih buf

omit [Nlohmann] in
theorem PseudoGen.asks_next {g : PseudoGen} (h : g.dec_cmd_ ∈ decompilers) :
    (PseudoGen.next g).run.Asks Reading := by
  unfold PseudoGen.next
  split
  · apply Raising.asks_bind (Raising.asks_ofExcept _)
    intro fa
    have hcommand := reading_decompiler fa h
    exact Raising.asks_bind (Raising.asks_lift ⟨hcommand, fun _ => trivial⟩) fun _ =>
      Raising.asks_pure _
  · exact Raising.asks_pure _

theorem asks_function_name_at (addr : Int64) :
    (function_name_at addr).run.Asks Reading := by
  have hcommand : Reading (at_addr "afij" addr) := .address (by decide) addr
  unfold function_name_at
  exact asks_read hcommand _

theorem asks_xrefs_to_addr (addr : Int64) : (xrefs_to_addr addr).run.Asks Reading := by
  have hcommand : Reading (at_addr "axtj" addr) := .address (by decide) addr
  unfold xrefs_to_addr
  exact asks_read hcommand _

theorem asks_from_rows (addr : Int64) (name : Bytes) (refs : List Json) :
    (from_rows addr name refs).run.Asks Reading := by
  induction refs generalizing name with
  | nil => exact Raising.asks_pure _
  | cons j js ih =>
    unfold from_rows
    apply Raising.asks_bind (Raising.asks_ofExcept _)
    intro r
    split
    · split
      · exact Raising.asks_bind (asks_function_name_at addr) fun name =>
          Raising.asks_bind (ih name) fun _ => Raising.asks_pure _
      · exact Raising.asks_bind (Raising.asks_pure _) fun name =>
          Raising.asks_bind (ih name) fun _ => Raising.asks_pure _
    · exact Raising.asks_bind (ih name) fun _ => Raising.asks_pure _

theorem asks_xrefs_from_addr (addr : Int64) : (xrefs_from_addr addr).run.Asks Reading := by
  have hcommand : Reading (at_addr "axfj" addr) := .address (by decide) addr
  unfold xrefs_from_addr
  exact Raising.asks_bind (Raising.asks_lift (asks_cmd_json hcommand)) fun _ => asks_from_rows _ _ _

theorem asks_xrefs : xrefs_cache_builder.run.Asks Reading := by
  have hfunc : ∀ f, (xrefs_of_func f).run.Asks Reading := by
    intro f
    unfold xrefs_of_func
    apply Raising.asks_bind (Raising.asks_ofExcept _)
    intro fa
    apply Raising.asks_bind (Raising.asks_ofExcept _)
    intro fname
    have hcommand : Reading (at_addr "afxj" fa) := .address (by decide) fa
    exact asks_read hcommand _
  unfold xrefs_cache_builder
  apply Raising.asks_bind (Raising.asks_lift (asks_cmd_json (.listing (by decide))))
  intro funcs
  exact Raising.asks_bind (Raising.asks_mapM fun f _ => hfunc f) fun _ => Raising.asks_pure _

theorem asks_build_grep_rows : build_grep_rows.run.Asks Reading := by
  unfold build_grep_rows
  exact Raising.asks_bind (asks_array_rows _ (.listing (by decide))) fun _ =>
    Raising.asks_bind (asks_array_rows _ (.listing (by decide))) fun _ =>
    Raising.asks_bind (asks_array_rows _ (.listing (by decide))) fun _ =>
    Raising.asks_bind (asks_array_rows _ (.listing (by decide))) fun _ =>
    Raising.asks_bind (asks_array_rows _ (.listing (by decide))) fun _ =>
    Raising.asks_bind (asks_array_rows _ (.listing (by decide))) fun _ => Raising.asks_pure _

theorem asks_type_row {P : Bytes → Prop} (info : List (Bytes × Int64 × Bytes)) {name kind : Bytes}
    (h : kind ∈ record_kinds → P (type_command name kind)) :
    (type_row info name kind).run.Asks P := by
  unfold type_row
  dsimp only
  split
  · split
    · exact Raising.asks_pure _
    · exact Raising.asks_pure _
  · split
    · rename_i hkind
      have hcommand : P (record_command name kind) := by
        rcases hkind with rfl | rfl <;> exact h (by decide)
      apply Raising.asks_bind (Raising.asks_lift (asks_cmd_json hcommand))
      intro j
      split
      · exact Raising.asks_bind (Raising.asks_ofExcept _) fun _ =>
          Raising.asks_bind (Raising.asks_ofExcept _) fun _ =>
          Raising.asks_bind (Raising.asks_ofExcept _) fun _ => Raising.asks_pure _
      · exact Raising.asks_pure _
    · exact Raising.asks_pure _

/-- The types ask for the names that the answer to `tk*` declares. -/
theorem asksGiven_types [CppLibrary] {G : Bytes → Bytes → Prop} {p : Bytes → Prop}
    (h : ∀ tk, G (Bytes.lit "tk*") tk → ∀ name kind, FirstDeclares tk name kind →
      kind ∈ record_kinds → p (type_command name kind)) :
    types_cache_builder.run.AsksGiven G (Sent p) := by
  have htk : Sent p (Bytes.lit "tk*") := .reading (.listing (by decide))
  have htj : Sent p (Bytes.lit "tj") := .reading (.listing (by decide))
  refine Raising.asksGiven_ask_bind htk fun tk hanswer => ?_
  dsimp only
  split
  · exact Raising.asks_pure _
  · apply Raising.asks_bind (Raising.asks_lift (asks_cmd_json htj))
    intro tj
    apply Raising.asks_bind (Raising.asks_ofExcept _)
    intro info
    exact Raising.asks_bind (Raising.asks_mapM fun q hq => asks_type_row info fun hkind =>
      .carrying (h tk hanswer _ _ (mem_iterate.mp hq) hkind)) fun _ => Raising.asks_pure _

theorem asks_member_rows {P : Bytes → Prop} {name kind : Bytes}
    (h : kind ∈ member_kinds → P (type_command name kind)) :
    (member_rows name kind).run.Asks P := by
  unfold member_rows
  split
  · exact Raising.asks_pure _
  · rename_i hkind
    have hcommand := h (not_not.mp hkind)
    unfold type_command at hcommand
    split
    · rename_i henum
      rw [if_pos henum] at hcommand
      exact asks_read hcommand _
    · rename_i henum
      rw [if_neg henum] at hcommand
      exact asks_read hcommand _

theorem asksGiven_types_members [CppLibrary] {G : Bytes → Bytes → Prop} {p : Bytes → Prop}
    (h : ∀ tk, G (Bytes.lit "tk*") tk → ∀ name kind, FirstDeclares tk name kind →
      kind ∈ member_kinds → p (type_command name kind)) :
    types_members_cache_builder.run.AsksGiven G (Sent p) := by
  have htk : Sent p (Bytes.lit "tk*") := .reading (.listing (by decide))
  refine Raising.asksGiven_ask_bind htk fun tk hanswer => ?_
  dsimp only
  split
  · exact Raising.asks_pure _
  · exact Raising.asks_bind (Raising.asks_mapM fun q hq => asks_member_rows fun hkind =>
      .carrying (h tk hanswer _ _ (mem_iterate.mp hq) hkind)) fun _ => Raising.asks_pure _

/-! ### A listing of types, and no other answer -/

section
variable {be : Backend}
  (hrecords : ∀ name kind, kind ∈ member_kinds → be (type_command name kind) = [])
include hrecords

theorem type_row_of_no_answer (name kind : Bytes) : Raising.outcome be (type_row [] name kind) =
    .ok { name := name, kind := kind, size := -1, format := [] } := by
  unfold type_row
  dsimp only
  split
  · rfl
  · split
    · rename_i hkind
      have hreply : be (record_command name kind) = [] := by
        rcases hkind with rfl | rfl
        · exact hrecords name (Bytes.lit "struct") (by decide)
        · exact hrecords name (Bytes.lit "union") (by decide)
      rw [Raising.outcome_lift_bind, value_cmd_json, hreply]
      rfl
    · rfl

theorem member_rows_of_no_answer (name kind : Bytes) :
    Raising.outcome be (member_rows name kind) = .ok [] := by
  unfold member_rows
  split
  · rfl
  · rename_i hkind
    have hreply := hrecords name kind (not_not.mp hkind)
    unfold type_command at hreply
    split
    · rename_i henum
      rw [if_pos henum] at hreply
      rw [Raising.outcome_lift_bind, value_cmd_json, hreply]
      rfl
    · rename_i henum
      rw [if_neg henum] at hreply
      rw [Raising.outcome_lift_bind, value_cmd_json, hreply]
      rfl

theorem asked_types_of_listing [CppLibrary] (htj : be (Bytes.lit "tj") = []) {name kind : Bytes}
    (hfirst : FirstDeclares (be (Bytes.lit "tk*")) name kind) (hkind : kind ∈ record_kinds) :
    type_command name kind ∈ types_cache_builder.run.asked be := by
  have hmem := mem_iterate.mpr hfirst
  have hsome : (parse_tk_dump (be (Bytes.lit "tk*"))).entries ≠ [] :=
    List.ne_nil_of_mem (mem_parse_tk_dump.mpr hfirst)
  have hrow : type_command name kind ∈ (type_row [] name kind).run.asked be := by
    unfold type_row
    dsimp only
    simp only [record_kinds, List.map_cons, List.map_nil, List.mem_cons, List.not_mem_nil,
      or_false] at hkind
    rcases hkind with rfl | rfl <;> exact List.mem_cons_self
  unfold types_cache_builder
  rw [Raising.asked_bind_of_ok (Raising.outcome_lift be _), value_cmd, if_neg hsome,
    Raising.asked_bind_of_ok (Raising.outcome_lift be _), value_cmd_json, htj]
  refine List.mem_append_right _ (List.mem_append_right _ ?_)
  have hinfo : Raising.outcome be (liftM (atomic_info (json_of_reply [])) : Raises _) = .ok [] :=
    rfl
  rw [Raising.asked_bind_of_ok hinfo]
  exact List.mem_append_right _ (Raising.mem_asked_bind_of_mem (Raising.mem_asked_mapM_of_ok
    (fun p _ => type_row_of_no_answer hrecords p.1 p.2) hmem hrow) _)

theorem asked_types_members_of_listing [CppLibrary] {name kind : Bytes}
    (hfirst : FirstDeclares (be (Bytes.lit "tk*")) name kind) (hkind : kind ∈ member_kinds) :
    type_command name kind ∈ types_members_cache_builder.run.asked be := by
  have hmem := mem_iterate.mpr hfirst
  have hsome : (parse_tk_dump (be (Bytes.lit "tk*"))).entries ≠ [] :=
    List.ne_nil_of_mem (mem_parse_tk_dump.mpr hfirst)
  have hrow : type_command name kind ∈ (member_rows name kind).run.asked be := by
    unfold member_rows type_command
    rw [if_neg (not_not.mpr hkind)]
    split <;> exact List.mem_cons_self
  unfold types_members_cache_builder
  rw [Raising.asked_bind_of_ok (Raising.outcome_lift be _), value_cmd, if_neg hsome]
  exact List.mem_append_right _ (Raising.mem_asked_bind_of_mem (Raising.mem_asked_mapM_of_ok
    (fun p _ => member_rows_of_no_answer hrecords p.1 p.2) hmem hrow) _)

end

end checked

/-- The kinds of the types that the table asks for by their names. -/
def TableRun.kinds : TableRun → List Bytes
  | types => record_kinds
  | types_members => member_kinds
  | _ => []

/-- The tables that neither select a flagspace nor ask for a type by its name. -/
def TableRun.Plain : TableRun → Prop
  | bookmarks | types | types_members => False
  | _ => True

theorem TableRun.reading_code [Nlohmann] [NlohmannErrors] [CppLibrary] {t : TableRun}
    (h : t.Decompiles) (hplain : t.Plain) : t.code.Asks Reading := by
  have haflj : Reading (Bytes.lit "aflj") := .listing (by decide)
  cases t with
  | welcome => exact Dialogue.asks_map _ checked.asks_welcome
  | funcs => exact Dialogue.asks_map _ (checked.asks_array_rows _ haflj)
  | blocks => exact Dialogue.asks_map _ (asks_cmd_json haflj)
  | blocks_in_func fa =>
    exact Dialogue.asks_map _ (Raising.asks_bind (checked.asks_blocks_for_func fa) fun _ => trivial)
  | instructions => exact Dialogue.asks_map _ (asks_cmd_json haflj)
  | instructions_in_func fa =>
    exact Dialogue.asks_map _ (Raising.asks_bind (checked.asks_insns_for_func fa) fun _ => trivial)
  | xrefs => exact Dialogue.asks_map _ checked.asks_xrefs
  | xrefs_to addr =>
    exact Dialogue.asks_map _ (Raising.asks_bind (checked.asks_xrefs_to_addr addr) fun _ => trivial)
  | xrefs_from addr =>
    exact Dialogue.asks_map _
      (Raising.asks_bind (checked.asks_xrefs_from_addr addr) fun _ => trivial)
  | strings | strings_projection | imports | exports | sections | segments | flags | comments =>
    exact Dialogue.asks_map _ (checked.asks_array_rows _ (.listing (by decide)))
  | bookmarks | types | types_members => exact hplain.elim
  | grep => exact Dialogue.asks_map _ checked.asks_build_grep_rows
  | grep_pattern pattern =>
    exact Dialogue.asks_map _ (Raising.asks_bind checked.asks_build_grep_rows fun _ => trivial)
  | projects => exact Dialogue.asks_map _ checked.asks_projects
  | pseudocode dec_cmd => exact Dialogue.asks_map _ (asks_cmd_json haflj)
  | pseudocode_at_func dec_cmd fa =>
    exact Dialogue.asks_map _ (asks_cmd (reading_decompiler fa h))

theorem TableRun.asksGiven_sent [Nlohmann] [NlohmannErrors] [CppLibrary]
    {G : Bytes → Bytes → Prop} {p : Bytes → Prop} {t : TableRun} (ht : t.Decompiles)
    (h : ∀ tk, G (Bytes.lit "tk*") tk → ∀ name kind, FirstDeclares tk name kind →
      kind ∈ t.kinds → p (type_command name kind)) : t.code.AsksGiven G (Sent p) := by
  have hplain : t.Plain → t.code.AsksGiven G (Sent p) := fun hplain =>
    Dialogue.asksGiven_of_asks (Dialogue.asks_mono (fun _ => .reading) (reading_code ht hplain))
  cases t with
  | bookmarks =>
    exact Dialogue.asksGiven_of_asks (Dialogue.asks_map _ checked.asks_bookmarks)
  | types => exact Dialogue.asksGiven_bind (checked.asksGiven_types h) fun _ => trivial
  | types_members =>
    exact Dialogue.asksGiven_bind (checked.asksGiven_types_members h) fun _ => trivial
  | _ => exact hplain trivial

/-! ## The writes -/

section
variable {P : Bytes → Prop}

theorem asks_name_setter {Row : Type} {table : String} {commands : Row → Bytes → List Bytes}
    {rename : Row → Bytes → Row} {r : Row} {v : Option Bytes}
    (h : ∀ name, accepted v = some name → ∀ c ∈ commands r name, P c) :
    (name_setter table commands rename r v).Asks P := by
  unfold name_setter
  dsimp only
  split
  · exact Dialogue.asks_pure _
  · rename_i hempty
    split
    · exact Dialogue.asks_pure _
    · rename_i hvalid
      have hcommands := h _ (by rw [accepted_eq, if_neg hempty, if_neg hvalid])
      exact Dialogue.asks_bind (asks_send hcommands) fun _ => Dialogue.asks_pure _

theorem asks_named_insert {table : String} {addr_column : Nat}
    {commands : Bytes → Int64 → List Bytes} (argv : List FunctionArg)
    (h : ∀ name addr, json_utils.valid_flag_name name = true → ∀ c ∈ commands name addr, P c) :
    (named_insert table addr_column commands argv).Asks P := by
  unfold named_insert
  split
  · dsimp only
    split
    · exact Dialogue.asks_pure _
    · split
      · exact Dialogue.asks_pure _
      · rename_i a _ _ _ _ hvalid
        have hcommands := h _ a.as_int64 (by simpa using hvalid)
        exact Dialogue.asks_bind (asks_send hcommands) fun _ => Dialogue.asks_pure _
  · exact Dialogue.asks_pure _

theorem asks_named_delete {Row : Type} {table what command : String} {name : Row → Bytes} {r : Row}
    (h : json_utils.valid_flag_name (name r) = true → P (Bytes.lit command ++ name r)) :
    (named_delete table what command name r).Asks P := by
  unfold named_delete
  split
  · exact Dialogue.asks_pure _
  · rename_i hvalid
    rw [not_or] at hvalid
    exact asks_send_one (h (by simpa using hvalid.2)) _

theorem asks_project_function {command answer : String} (argv : List FunctionArg)
    (h : ∀ name, json_utils.valid_flag_name name = true → P (Bytes.lit command ++ name)) :
    (project_function command answer argv).Asks P := by
  unfold project_function
  split
  · exact Dialogue.asks_pure _
  · dsimp only
    split
    · exact Dialogue.asks_pure _
    · rename_i hvalid
      exact asks_send_one (h _ (by simpa using hvalid)) _

end

theorem sent_in_bookmarks {p : Bytes → Prop} {command : Bytes} (h : Sent p command) :
    ∀ c ∈ in_bookmarks [command], Sent p c := by
  intro c hc
  simp only [in_bookmarks, List.cons_append, List.nil_append, List.mem_cons, List.not_mem_nil,
    or_false] at hc
  rcases hc with rfl | rfl | rfl | rfl
  · exact .space (by decide)
  · exact .space (by decide)
  · exact h
  · exact .space (by decide)

/-- The command of a write that carries a name of radare2 as it is. -/
def Write.carrying : Write → List Bytes
  | flags_name r v => ((accepted v).map fun name => fr r.name name).toList
  | bookmarks_name r v => ((accepted v).map fun name => fr r.name name).toList
  | _ => []

theorem Write.asks_sent {p : Bytes → Prop} {w : Write} (h : ∀ c ∈ w.carrying, p c) :
    w.code.Asks (Sent p) := by
  have hafn : ∀ {name}, json_utils.valid_flag_name name = true → ∀ addr, Sent p (afn name addr) :=
    fun h addr => @Sent.named_at _ "afn " _ (by decide) h addr
  have hf : ∀ {name}, json_utils.valid_flag_name name = true → ∀ addr, Sent p (f_at name addr) :=
    fun h addr => @Sent.named_at _ "f " _ (by decide) h addr
  cases w with
  | funcs_name r v =>
    refine Dialogue.asks_map _ (asks_name_setter fun name hname => ?_)
    exact List.forall_mem_singleton.mpr (hafn (valid_of_accepted hname) r.addr)
  | funcs_insert argv =>
    apply Dialogue.asks_map
    unfold funcs_insertable
    split
    · exact Dialogue.asks_pure _
    · have haf : ∀ addr, Sent p (Bytes.lit "af @ " ++ json_utils.hex_addr addr) :=
        fun addr => .addr (by decide) addr
      apply Dialogue.asks_bind (asks_send (List.forall_mem_singleton.mpr (haf _)))
      intro _
      split
      · exact Dialogue.asks_pure _
      · dsimp only
        split
        · rename_i hname
          exact asks_send_one (hafn (by simpa using hname.2) _) _
        · exact Dialogue.asks_pure _
  | flags_name r v =>
    refine Dialogue.asks_map _ (asks_name_setter fun name hname => ?_)
    have hfr : p (fr r.name name) := h _ (by simp [Write.carrying, hname])
    exact List.forall_mem_cons.mpr ⟨hafn (valid_of_accepted hname) r.addr,
      List.forall_mem_singleton.mpr (.carrying hfr)⟩
  | flags_insert argv =>
    refine Dialogue.asks_map _ (asks_named_insert argv fun name addr hname => ?_)
    exact List.forall_mem_singleton.mpr (hf hname addr)
  | bookmarks_name r v =>
    refine Dialogue.asks_map _ (asks_name_setter fun name hname => ?_)
    have hfr : p (fr r.name name) := h _ (by simp [Write.carrying, hname])
    exact sent_in_bookmarks (.carrying hfr)
  | bookmarks_insert argv =>
    refine Dialogue.asks_map _ (asks_named_insert argv fun name addr hname => ?_)
    exact sent_in_bookmarks (hf hname addr)
  | comments_text r v => exact Dialogue.asks_map _ (asks_send_one (.ccu (v.getD []) r.addr) _)
  | comments_insert argv =>
    apply Dialogue.asks_map
    unfold comments_insertable
    split
    · rename_i a t _ _
      exact asks_send_one (.ccu (t.as_c_str.getD []) a.as_int64) _
    · exact Dialogue.asks_pure _
  | project_save argv | project_open argv =>
    exact Dialogue.asks_map _ (asks_project_function argv fun name hname =>
      .named (by decide) hname)

/-- The command that `r2sql_type_define` writes around a declaration. -/
def td (decl : Bytes) : Bytes := Bytes.lit "\"td " ++ decl ++ Bytes.lit "\""

/-- The command of a call that carries a text of its row or of SQL as it is. -/
def TableCall.carrying : TableCall → List Bytes
  | write w => w.carrying
  | type_define argv => ((supplied argv 0).map fun arg => td arg.as_text).toList
  | _ => []

def TableCall.kinds : TableCall → List Bytes
  | read t _ => t.kinds
  | _ => []

theorem TableCall.kinds_subset (c : TableCall) : c.kinds ⊆ member_kinds := by
  cases c with
  | read t _ =>
    cases t with
    | types => exact record_kinds_subset
    | types_members => exact List.Subset.refl _
    | _ => exact List.nil_subset _
  | _ => exact List.nil_subset _

/-- What SQL can make the library send, where the answers of radare2 meet `G`. -/
theorem TableCall.asksGiven_sent [Nlohmann] [NlohmannErrors] [CppLibrary]
    {G : Bytes → Bytes → Prop} {p : Bytes → Prop} {c : TableCall}
    (hcarrying : ∀ command ∈ c.carrying, p command)
    (h : ∀ tk, G (Bytes.lit "tk*") tk → ∀ name kind, FirstDeclares tk name kind →
      kind ∈ c.kinds → p (type_command name kind)) : c.code.AsksGiven G (Sent p) := by
  have hread : ∀ {m : R2 Unit}, m.Asks Reading → m.AsksGiven G (Sent p) := fun hm =>
    Dialogue.asksGiven_of_asks (Dialogue.asks_mono (fun _ => .reading) hm)
  have hsend : ∀ {m : R2 Unit}, m.Asks (Sent p) → m.AsksGiven G (Sent p) := fun hm =>
    Dialogue.asksGiven_of_asks hm
  cases c with
  | read t ht => exact TableRun.asksGiven_sent ht h
  | next_block g =>
    have hnext := checked.FuncGen.asks_next checked.asks_blocks_for_func g
    exact hread (Dialogue.asks_map _ hnext)
  | next_insn g =>
    have hnext := checked.FuncGen.asks_next checked.asks_insns_for_func g
    exact hread (Dialogue.asks_map _ hnext)
  | next_pseudo g hg =>
    have hnext := checked.PseudoGen.asks_next hg
    exact hread (Dialogue.asks_map _ hnext)
  | estimate command hcommand =>
    have hlisting := Reading.listing (List.mem_append_right list_commands hcommand)
    exact hread (Dialogue.asks_map _ (asks_cmd hlisting))
  | write w => exact hsend (Write.asks_sent hcarrying)
  | funcs_delete r =>
    exact hsend (Dialogue.asks_map _ (asks_send_one (.addr (by decide) r.addr) _))
  | flags_delete r =>
    exact hsend (Dialogue.asks_map _ (asks_send_one (.addr (by decide) r.addr) _))
  | bookmarks_delete r =>
    have hf : Sent p (f_minus r.addr) := .addr (by decide) r.addr
    exact hsend (Dialogue.asks_map _ (Dialogue.asks_bind (asks_send (sent_in_bookmarks hf)) fun _ =>
      Dialogue.asks_pure _))
  | comments_delete r =>
    exact hsend (Dialogue.asks_map _ (asks_send_one (.addr (by decide) r.addr) _))
  | types_delete r | projects_delete r =>
    exact hsend (Dialogue.asks_map _ (asks_named_delete fun hname => .named (by decide) hname))
  | type_define argv =>
    refine hsend (Dialogue.asks_map _ ?_)
    unfold r2sql_type_define
    split
    · exact Dialogue.asks_pure _
    · rename_i arg harg
      have htd : p (td arg.as_text) := hcarrying _ (by simp [carrying, harg])
      exact asks_send_one (.carrying htd) _

/-! ## The decompiler of a session -/

theorem first_decompiler_mem (be : Backend) {l : List (String × String)} {command : String}
    (h : (first_decompiler l).value be = some command) : command ∈ l.map Prod.snd := by
  induction l with
  | nil => cases h
  | cons p rest ih =>
    unfold first_decompiler at h
    rw [Dialogue.value_bind] at h
    split at h
    · cases h
      simp
    · exact List.mem_cons_of_mem _ (ih h)

/-- The pseudocode table has the command of a decompiler that the session found. -/
theorem detect_decompiler_mem (be : Backend) {command : String}
    (h : detect_decompiler.value be = some command) : command ∈ decompilers :=
  first_decompiler_mem be h

theorem asks_detect_decompiler_sent {p : Bytes → Prop} : detect_decompiler.Asks (Sent p) := by
  have hprobes : ∀ l : List (String × String), l ⊆ probes → (first_decompiler l).Asks (Sent p) := by
    intro l
    induction l with
    | nil => exact fun _ => Dialogue.asks_pure _
    | cons q rest ih =>
      intro h
      have hprobe := List.mem_map_of_mem (f := Prod.fst) (h List.mem_cons_self)
      unfold first_decompiler
      apply Dialogue.asks_bind (asks_cmd (.probe hprobe))
      intro out
      split
      · exact Dialogue.asks_pure _
      · exact ih fun r hr => h (List.mem_cons_of_mem _ hr)
  exact hprobes probes (List.Subset.refl _)

end r2sql
