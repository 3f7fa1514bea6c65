-- When radare2 comes back into the plugin: a command of the plugin with a line of
-- the plugin's own. Such a line is in a raw command, or in a text that SQL or radare2
-- supplies and that a command carries as it is. Without one, nobody locks twice.
import R2sql.PluginLocks

namespace r2sql.plugin

open locking runs

/-! ## What locks what -/

/-- The plugin takes a lock to run the line: it claims the line, and there is more to do than to
print the help. -/
def takes_locks (line : Bytes) : Bool := ((claimed line).bind statement).isSome

section
variable [Host]

/-- The plugin takes no lock for any line that radare2 runs of the command. -/
def Quiet (command : Bytes) : Prop := ∀ line ∈ Host.lines (c_str command), takes_locks line = false

/-- The plugin takes no lock for the commands of the call that carry a text from elsewhere: one of
SQL or of a row, or the name of a type that radare2 can list. -/
structure QuietCall (call : TableCall) : Prop where
  carrying : ∀ command ∈ call.carrying, Quiet command
  types : ∀ tk, Host.lists tk → ∀ name kind, FirstDeclares tk name kind → kind ∈ call.kinds →
    Quiet (type_command name kind)

/-- The statement that `dispatch` gives to SQLite. -/
def query_text (input : Bytes) : Option Bytes :=
  (statement input).filter fun input =>
    (server_tail "http" input).isNone && (server_tail "mcp" input).isNone

/-- The raw command that the handler sends to radare2. -/
def Handler.raw : Handler → Option Bytes
  | http_request body => raw_request body
  | _ => none

/-- The statement that the handler gives to SQLite. -/
def Handler.sql : Handler → Option Bytes
  | plugin_call _ input => (claimed input).bind query_text
  | dispatch _ input => query_text input
  | http_request body => if raw_request body = none then some body else none
  | mcp_request sql => some sql
  | plugin_fini => none

/-- No command that the handler sends with a text from elsewhere has a line on which the plugin
would lock: neither its raw command nor, for its statement, a `td`, an `fr` or a command about a
type. -/
structure Handler.Safe (h : Handler) : Prop where
  raw : ∀ command ∈ h.raw, Quiet command
  sql : ∀ sql ∈ h.sql, ∀ calls, Host.makes sql calls → ∀ call ∈ calls, QuietCall call

/-- SQLite makes calls that it can make for the statement, and radare2 lists types that it can
list. -/
structure World.Fits (w : World) : Prop where
  calls : ∀ sql, w.calls sql ≠ [] → Host.makes sql (w.calls sql)
  types : Host.lists (w.reply (Bytes.lit "tk*"))

/-- What is known of an answer. Without a core it is empty. -/
def Answers (command answer : Bytes) : Prop :=
  command = Bytes.lit "tk*" → answer = [] ∨ Host.lists answer

/-- The commands that radare2 can run whatever locks are held. -/
def Allowed (c : Core × Bytes) (_held : Set Mutex) : Prop :=
  ∀ line ∈ Host.lines c.2, takes_locks line = false

end

/-! ## Commands of one line -/

/-- The bytes that neither end a command, nor quote, nor bring radare2 to run another one: those of
names, and some signs. -/
def single_byte (c : UInt8) : Bool := json_utils.name_byte c || (Bytes.lit " @~?*-:+/=").contains c

/-- A string that is a single command: it begins with a letter, has only harmless bytes and at most
one `@`, since two of them would be a loop. -/
structure OneCommand (command : Bytes) : Prop where
  letter : ∀ c ∈ command.head?,
    'A'.toUInt8 ≤ c ∧ c ≤ 'Z'.toUInt8 ∨ 'a'.toUInt8 ≤ c ∧ c ≤ 'z'.toUInt8
  bytes : ∀ c ∈ command, single_byte c
  one_at : command.count '@'.toUInt8 ≤ 1

/-- What radare2 documents of its command lines: of a single command the plugins get a front, and
what else it runs to carry it out, such as the script of a project, is no line of the plugin. And
there is an answer to `tk*`. -/
structure Host.Documented [Host] : Prop where
  single : ∀ command, OneCommand command → ∀ line ∈ Host.lines command,
    line <+: command ∨ claimed line = none
  answers : ∃ tk, Host.lists tk

instance (command : Bytes) : Decidable (OneCommand command) :=
  decidable_of_iff ((∀ c ∈ command.head?, 'A'.toUInt8 ≤ c ∧ c ≤ 'Z'.toUInt8 ∨
      'a'.toUInt8 ≤ c ∧ c ≤ 'z'.toUInt8) ∧ command.all single_byte = true ∧
      command.count '@'.toUInt8 ≤ 1)
    ⟨fun h => ⟨h.1, List.all_eq_true.mp h.2.1, h.2.2⟩,
      fun h => ⟨h.letter, List.all_eq_true.mpr h.bytes, h.one_at⟩⟩

theorem OneCommand.front {s t : Bytes} (h : OneCommand t) (hs : s <+: t) : OneCommand s where
  letter c hc := by
    obtain ⟨rest, rfl⟩ := hs
    refine h.letter c ?_
    rw [List.head?_append, Option.mem_def.mp hc]
    rfl
  bytes c hc := h.bytes c (hs.subset hc)
  one_at := (hs.sublist.count_le _).trans h.one_at

/-- A byte of an operand. -/
def Inside (c : UInt8) : Prop := single_byte c ∧ c ≠ '@'.toUInt8

theorem OneCommand.append {s t : Bytes} (hs : OneCommand s) (hsome : s ≠ [])
    (ht : ∀ c ∈ t, Inside c) : OneCommand (s ++ t) where
  letter c hc := by
    rw [List.head?_append_of_ne_nil s hsome] at hc
    exact hs.letter c hc
  bytes c hc := (List.mem_append.mp hc).elim (hs.bytes c) fun h => (ht c h).1
  one_at := by
    have hnone : t.count '@'.toUInt8 = 0 := List.count_eq_zero.mpr fun h => (ht _ h).2 rfl
    rw [List.count_append, hnone]
    exact hs.one_at

theorem inside_hex_addr (addr : Int64) : ∀ c ∈ json_utils.hex_addr addr, Inside c := by
  have hdigit : ∀ c : UInt8, hex.IsDigit c → single_byte c ∧ c ≠ '@'.toUInt8 := by
    apply Bytes.forall_byte
    decide +kernel
  have hzero : ∀ c ∈ Bytes.lit "0x", single_byte c ∧ c ≠ '@'.toUInt8 := by decide +kernel
  obtain ⟨digits, -, haddr, hdigits⟩ := Operand.encoded (o := .addr addr) trivial
  intro c hc
  change c ∈ Operand.written (.addr addr) at hc
  rw [haddr] at hc
  exact (List.mem_append.mp hc).elim (hzero c) fun h => hdigit c (hdigits c h)

theorem inside_name {name : Bytes} (h : json_utils.valid_flag_name name = true) :
    ∀ c ∈ name, Inside c := by
  have hbyte : ∀ c, json_utils.name_byte c → single_byte c ∧ c ≠ '@'.toUInt8 := by
    intro c hc
    refine ⟨?_, ?_⟩
    · rw [single_byte, hc]
      rfl
    · rintro rfl
      revert hc
      decide
  obtain ⟨-, hbytes⟩ := Operand.encoded (o := .name name) h
  exact fun c hc => hbyte c (hbytes c hc)

theorem inside_base64 (text : Bytes) : ∀ c ∈ json_utils.base64_encode text, Inside c := by
  have hletter : ∀ c ∈ base64.pad :: base64.alphabet, single_byte c ∧ c ≠ '@'.toUInt8 := by
    have hall : (base64.pad :: base64.alphabet).all
        (fun c => single_byte c && c != '@'.toUInt8) = true := by decide +kernel
    simpa using List.all_eq_true.mp hall
  intro c hc
  rw [json_utils.base64_encode_eq] at hc
  rcases base64.mem_encode hc with h | h
  · exact hletter c (List.mem_cons_of_mem _ h)
  · exact hletter c (h ▸ List.mem_cons_self)

theorem OneCommand.at_addr {s : Bytes} (hs : OneCommand s) (hsome : s ≠ [])
    (hno : '@'.toUInt8 ∉ s) (addr : Int64) :
    OneCommand (s ++ Bytes.lit " @ " ++ json_utils.hex_addr addr) := by
  have hat : OneCommand (s ++ Bytes.lit " @ ") := by
    refine ⟨?_, ?_, ?_⟩
    · rw [List.head?_append_of_ne_nil s hsome]
      exact hs.letter
    · have hbytes : ∀ c ∈ Bytes.lit " @ ", single_byte c := by decide +kernel
      exact fun c hc => (List.mem_append.mp hc).elim (hs.bytes c) (hbytes c)
    · rw [List.count_append, List.count_eq_zero.mpr hno]
      decide
  exact hat.append (by simp [hsome]) (inside_hex_addr addr)

theorem oneCommand_of_sent {command : Bytes} (h : Sent (fun _ => False) command) :
    OneCommand command := by
  have hfixed : ∀ c ∈ list_commands ++ estimates ++ space_commands ++ probes.map Prod.fst,
      OneCommand (Bytes.lit c) := by decide +kernel
  have haddr : ∀ v ∈ address_verbs ++ name_at_verbs, OneCommand (Bytes.lit v) ∧
      Bytes.lit v ≠ [] ∧ '@'.toUInt8 ∉ Bytes.lit v := by decide +kernel
  have hverbs : ∀ v ∈ addr_verbs ++ name_verbs, OneCommand (Bytes.lit v) ∧ Bytes.lit v ≠ [] := by
    decide +kernel
  simp only [List.mem_append] at hfixed haddr hverbs
  cases h with
  | reading h =>
    cases h with
    | listing h => exact hfixed _ (.inl (.inl (List.mem_append.mp h)))
    | address h addr =>
      obtain ⟨hone, hsome, hno⟩ := haddr _ (.inl h)
      exact hone.at_addr hsome hno addr
  | space h => exact hfixed _ (.inl (.inr h))
  | addr h addr =>
    obtain ⟨hone, hsome⟩ := hverbs _ (.inl h)
    exact hone.append hsome (inside_hex_addr addr)
  | named h hname =>
    obtain ⟨hone, hsome⟩ := hverbs _ (.inr h)
    exact hone.append hsome (inside_name hname)
  | named_at h hname addr =>
    obtain ⟨hone, hsome, hno⟩ := haddr _ (.inr h)
    refine (hone.append hsome (inside_name hname)).at_addr (by simp [hsome]) ?_ addr
    intro hat
    exact (List.mem_append.mp hat).elim hno fun h => (inside_name hname _ h).2 rfl
  | ccu text addr =>
    have hverb : OneCommand (Bytes.lit "CCu base64:") := by decide +kernel
    have hno : '@'.toUInt8 ∉ Bytes.lit "CCu base64:" := by decide +kernel
    refine (hverb.append (by decide) (inside_base64 text)).at_addr (by simp [Bytes.lit]) ?_ addr
    intro hat
    exact (List.mem_append.mp hat).elim hno fun h => (inside_base64 text _ h).2 rfl
  | probe h => exact hfixed _ (.inr h)
  | carrying h => exact h.elim

/-! ## Quiet commands -/

/-- The plugin claims no front of a line with another first letter. -/
theorem claimed_of_front {line command : Bytes} (h : NotForPlugin command)
    (hfront : line <+: command) : claimed line = none := by
  unfold claimed
  rw [if_neg]
  intro hsql
  obtain ⟨rest, hrest⟩ := (List.isPrefixOf_iff_prefix.mp hsql).trans hfront
  exact h (by rw [← hrest]; rfl)

theorem plugin_call_of_not_takes_locks [Nlohmann] [NlohmannErrors] [CppLibrary] (core : Core)
    {line : Bytes} (h : takes_locks line = false) : plugin_call core line = pure () := by
  unfold takes_locks at h
  unfold plugin_call
  cases hclaimed : claimed line with
  | none => rfl
  | some rest =>
    rw [hclaimed, Option.bind_some, Option.isSome_eq_false_iff, Option.isNone_iff_eq_none] at h
    unfold dispatch
    dsimp only
    rw [h]

section
variable [Host]

theorem quiet_of_single (hdoc : Host.Documented) {command : Bytes} (hone : OneCommand command)
    (hother : NotForPlugin command) : Quiet command := by
  have hfront : c_str command <+: command := List.takeWhile_prefix _
  intro line hline
  have hclaimed : claimed line = none := by
    rcases hdoc.single _ (hone.front hfront) line hline with h | h
    · exact claimed_of_front hother (h.trans hfront)
    · exact h
  unfold takes_locks
  rw [hclaimed]
  rfl

theorem quiet_of_sent (hdoc : Host.Documented) {command : Bytes} (h : Sent Quiet command) :
    Quiet command := by
  have hown : Sent (fun _ => False) command → Quiet command := fun h =>
    quiet_of_single hdoc (oneCommand_of_sent h) (notForPlugin_of_sent (fun _ => False.elim) h)
  cases h with
  | reading h => exact hown (.reading h)
  | space h => exact hown (.space h)
  | addr h addr => exact hown (.addr h addr)
  | named h hname => exact hown (.named h hname)
  | named_at h hname addr => exact hown (.named_at h hname addr)
  | ccu text addr => exact hown (.ccu text addr)
  | probe h => exact hown (.probe h)
  | carrying h => exact h

theorem asks_quiet_detect_decompiler (hdoc : Host.Documented) : detect_decompiler.Asks Quiet :=
  Dialogue.asks_mono (fun _ => quiet_of_sent hdoc) asks_detect_decompiler_sent

end

/-! ## The handlers lock nothing twice -/

section
variable [Nlohmann] [NlohmannErrors] [CppLibrary] [Host] {held : Set Mutex}

/-- Code that locks nothing twice, with fitting worlds. -/
abbrev Balances {α : Type} (held : Set Mutex) (m : Plugin α) (R : α → Prop) : Prop :=
  Balanced Allowed World.Fits held m R

omit [Nlohmann] [NlohmannErrors] [CppLibrary] [Host] in
theorem not_firstDeclares_nil (name kind : Bytes) : ¬ FirstDeclares [] name kind := by
  rintro ⟨before, record, after, h, -⟩
  simp [tk_records] at h

omit [Nlohmann] [NlohmannErrors] [CppLibrary] in
theorem balanced_libr_cmd (hm : .m ∉ held) (core : Core) {command : Bytes} (h : Quiet command) :
    Balances held (libr_cmd core command) (Answers command) := by
  unfold libr_cmd
  split
  · exact balanced_pure fun _ => Or.inl rfl
  · refine balanced_holding hm
      (balanced_bind (balanced_run_command h) fun w hw => balanced_pure ?_)
    rintro rfl
    exact Or.inr hw.types

omit [Nlohmann] [NlohmannErrors] [CppLibrary] in
theorem balanced_asks (hm : .m ∉ held) (core : Core) {α : Type} {code : R2 α}
    (h : code.AsksGiven Answers Quiet) :
    Balances held (serve (libr_cmd core) code) fun _ => True :=
  balanced_serve (fun _ hq => balanced_libr_cmd hm core hq) h

theorem balanced_query (hdoc : Host.Documented) (hquery : .query_mu ∉ held) (hm : .m ∉ held)
    (core : Core) {sql : Bytes}
    (hsql : ∀ calls, Host.makes sql calls → ∀ call ∈ calls, QuietCall call) :
    Balances held (query core sql) fun _ => True := by
  unfold query
  apply balanced_holding hquery
  apply balanced_bind balanced_world
  intro w hw
  refine balanced_forM fun call hcall => ?_
  have hmakes := hw.calls sql (List.ne_nil_of_mem hcall)
  have hquiet := hsql _ hmakes call hcall
  have hsent : call.code.AsksGiven Answers (Sent Quiet) := by
    refine TableCall.asksGiven_sent hquiet.carrying fun tk htk name kind hfirst hkind => ?_
    rcases htk rfl with rfl | hlists
    · exact absurd hfirst (not_firstDeclares_nil name kind)
    · exact hquiet.types tk hlists name kind hfirst hkind
  exact balanced_asks (by simp [hm]) core
    (Dialogue.asksGiven_mono (fun _ => quiet_of_sent hdoc) hsent)

omit [Nlohmann] [NlohmannErrors] [CppLibrary] in
theorem balanced_raw_cmd (hquery : .query_mu ∉ held) (hm : .m ∉ held) (core : Core)
    {command : Bytes} (h : Quiet command) :
    Balances held (raw_cmd core command) (Answers command) := by
  unfold raw_cmd
  exact balanced_holding hquery (balanced_libr_cmd (by simp [hm]) core h)

omit [Nlohmann] [NlohmannErrors] [CppLibrary] in
theorem balanced_ensure_session (hdoc : Host.Documented) (core : Core) :
    Balances ∅ (ensure_session core) fun _ => True := by
  unfold ensure_session
  apply balanced_holding_load (by simp)
  intro s
  split
  · exact balanced_pure trivial
  · have hasks := Dialogue.asksGiven_of_asks (G := Answers) (asks_quiet_detect_decompiler hdoc)
    apply balanced_bind (balanced_asks (by simp) core hasks)
    intro _ _
    exact balanced_store _

theorem balanced_plugin_raw_or_sql (hdoc : Host.Documented) {body : Bytes}
    (h : (Handler.http_request body).Safe) :
    Balances ∅ (plugin_raw_or_sql body) fun _ => True := by
  unfold plugin_raw_or_sql
  apply balanced_holding_load (by simp)
  intro s
  cases s.session with
  | none => exact balanced_pure trivial
  | some core =>
    cases hraw : raw_request body with
    | some command =>
      apply balanced_bind
      · exact balanced_raw_cmd (by simp) (by simp) core (h.raw command hraw)
      · exact fun _ _ => balanced_pure trivial
    | none =>
      have hsql := h.sql body (by simp [Handler.sql, hraw])
      exact balanced_query hdoc (by simp) (by simp) core hsql

theorem balanced_mcp_callback (hdoc : Host.Documented) {sql : Bytes}
    (h : (Handler.mcp_request sql).Safe) : Balances ∅ (mcp_callback sql) fun _ => True := by
  unfold mcp_callback
  apply balanced_holding_load (by simp)
  intro s
  cases s.session with
  | none => exact balanced_pure trivial
  | some core => exact balanced_query hdoc (by simp) (by simp) core (h.sql sql rfl)

omit [Nlohmann] [NlohmannErrors] [CppLibrary] in
theorem balanced_update (f : PluginState → PluginState) :
    Balances ∅ (holding .mu (load >>= fun s => store (f s)) : Plugin Unit) fun _ => True :=
  balanced_holding_load (by simp) fun _ => balanced_store _

omit [Nlohmann] [NlohmannErrors] [CppLibrary] in
theorem balanced_handle_server_command (hdoc : Host.Documented) (there : PluginState → Bool)
    (set : PluginState → Bool → PluginState) (core : Core) (tail : Bytes) :
    Balances ∅ (handle_server_command there set core tail) fun _ => True := by
  have hrunning : Balances ∅ (holding .mu (do
      let s ← load
      let w ← world
      return there s && w.up) : Plugin Bool) fun _ => True :=
    balanced_holding_load (by simp) fun _ =>
      balanced_bind balanced_world fun _ _ => balanced_pure trivial
  unfold handle_server_command
  dsimp only
  split
  · exact balanced_bind hrunning fun _ _ => balanced_pure trivial
  · split
    · exact balanced_update fun s => set s false
    · apply balanced_bind hrunning
      intro running _
      split
      · exact balanced_pure trivial
      · apply balanced_bind (balanced_ensure_session hdoc core)
        intro _ _
        apply balanced_bind balanced_world
        intro w _
        split
        · exact balanced_update fun s => set s true
        · exact balanced_pure trivial

theorem balanced_dispatch (hdoc : Host.Documented) (core : Core) {input : Bytes}
    (h : ∀ sql ∈ query_text input, ∀ calls, Host.makes sql calls → ∀ call ∈ calls,
      QuietCall call) :
    Balances ∅ (dispatch core input) fun _ => True := by
  unfold dispatch
  cases hstatement : statement input with
  | none => exact balanced_pure trivial
  | some text =>
    dsimp only
    split
    · exact balanced_handle_server_command hdoc _ _ core _
    · exact balanced_handle_server_command hdoc _ _ core _
    · rename_i hhttp hmcp
      apply balanced_bind (balanced_ensure_session hdoc core)
      intro _ _
      apply balanced_holding_load (by simp)
      intro s
      cases s.session with
      | some bound =>
        exact balanced_query hdoc (by simp) (by simp) bound
          (h text (by simp [query_text, hstatement, hhttp, hmcp]))
      | none => exact balanced_pure trivial

omit [Nlohmann] [NlohmannErrors] [CppLibrary] in
theorem balanced_plugin_fini : Balances ∅ plugin_fini fun _ => True := by
  unfold plugin_fini
  apply balanced_bind (balanced_update fun s => { s with http := false })
  intro _ _
  apply balanced_bind (balanced_update fun s => { s with mcp := false })
  intro _ _
  exact balanced_update fun s => { s with session := none }

theorem Handler.balanced_code (hdoc : Host.Documented) {h : Handler} (hsafe : h.Safe) :
    Balances ∅ h.code fun _ => True := by
  cases h with
  | plugin_call core input =>
    change Balances ∅ (plugin.plugin_call core input) _
    unfold plugin.plugin_call
    cases hclaimed : claimed input with
    | none => exact balanced_pure trivial
    | some rest =>
      exact balanced_dispatch hdoc core fun sql hsql => hsafe.sql sql (by
        change (claimed input).bind query_text = some sql
        rw [hclaimed]
        exact hsql)
  | dispatch core input => exact balanced_dispatch hdoc core hsafe.sql
  | http_request body => exact balanced_plugin_raw_or_sql hdoc hsafe
  | mcp_request sql => exact balanced_mcp_callback hdoc hsafe
  | plugin_fini => exact balanced_plugin_fini

/-! ## Runs of safe handlers -/

/-- A step keeps it that every thread locks nothing twice, where it starts no handler or a safe
one. -/
theorem allClean_step (hdoc : Host.Documented) {s s' : State} {a : Action}
    (h : s.AllClean Allowed World.Fits) (hsafe : ∀ t h', a = .start t h' → h'.Safe)
    (hfits : ∀ t w, a = .step t w → w.Fits) (hstep : step s a = some s') :
    s'.AllClean Allowed World.Fits := by
  cases a with
  | start t h' =>
    unfold step at hstep
    dsimp only at hstep
    split at hstep
    · rename_i hdone
      cases hstep
      refine h.change (fun _ _ => rfl) rfl ?_
      rw [h.held_of_done hdone]
      exact clean_mono (h'.balanced_code hdoc (hsafe t h' rfl)) fun _ _ hq => hq.1
    · cases hstep
  | step t w =>
    refine Machine.allClean_step (fun c held hc => ?_) (hfits t w rfl) h hstep
    refine balanced_forM fun line hline => ?_
    rw [plugin_call_of_not_takes_locks c.1 (hc line hline)]
    exact balanced_pure trivial

omit [Nlohmann] [NlohmannErrors] [CppLibrary] in
theorem allClean_idle : idle.AllClean Allowed World.Fits := by
  intro t
  refine Set.eq_empty_of_forall_notMem fun l hl => ?_
  cases hl

theorem allClean_run (hdoc : Host.Documented) {as : List Action} {s : State}
    (hsafe : ∀ t h, .start t h ∈ as → h.Safe) (hfits : ∀ t w, .step t w ∈ as → w.Fits)
    (hrun : run step idle as = some s) : s.AllClean Allowed World.Fits := by
  refine (run_labels (G := fun a => (∀ t h, a = .start t h → h.Safe) ∧
    ∀ t w, a = .step t w → w.Fits) (Q := fun _ => True) ?_ allClean_idle ?_ hrun).1
  · exact fun s a s' hs ha hstep => ⟨allClean_step hdoc hs ha.1 ha.2 hstep, trivial⟩
  · intro a ha
    constructor
    · rintro t h rfl
      exact hsafe t h ha
    · rintro t w rfl
      exact hfits t w ha

end

end r2sql.plugin
