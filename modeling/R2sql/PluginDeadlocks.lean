-- The ways to make the plugin lock twice: each raw command and each text with a line
-- of the plugin's own has a run in which a thread waits for itself, so the handlers
-- without such lines are all that is safe.
import R2sql.PluginReentry

namespace r2sql.plugin

open locking runs

section
variable [Nlohmann] [NlohmannErrors] [CppLibrary] [Host]

/-! ## Handlers that lock twice -/

/-- A world where radare2 lists some types and answers nothing else, each server starts, and SQLite
makes the calls of one statement. -/
def plays (tk sql : Bytes) (calls : List TableCall) : World where
  reply command := if command = Bytes.lit "tk*" then tk else []
  calls q := if q = sql then calls else []
  up := true

omit [Nlohmann] [NlohmannErrors] [CppLibrary] in
theorem fits_plays {tk sql : Bytes} {calls : List TableCall} (htk : Host.lists tk)
    (h : calls ≠ [] → Host.makes sql calls) : (plays tk sql calls).Fits where
  calls q hq := by
    by_cases heq : q = sql
    · simp only [plays, heq, if_true] at hq ⊢
      exact h hq
    · simp [plays, heq] at hq
  types := htk

/-- What `libr_cmd` gives in a world. -/
def answered (core : Core) (w : World) (command : Bytes) : Bytes :=
  if core = none then [] else w.reply (c_str command)

section
variable {owner : Mutex → Option Nat} {x : PluginState} {t : Nat} {w : World}

theorem finishes_invoke (core : Core) {command : Bytes} (h : Quiet command) :
    Machine.Finishes invoke t w owner x (invoke (core, c_str command)) x () := by
  refine Machine.finishes_forM fun line hline => ?_
  rw [plugin_call_of_not_takes_locks core (h line hline)]
  exact Machine.finishes_pure ()

theorem finishes_libr_cmd (hm : owner .m = none) (core : Core) {command : Bytes}
    (h : Quiet command) :
    Machine.Finishes invoke t w owner x (libr_cmd core command) x (answered core w command) := by
  unfold libr_cmd answered
  split
  · exact Machine.finishes_pure _
  · exact Machine.finishes_holding hm (Machine.finishes_bind
      (Machine.finishes_run_command (finishes_invoke core h)) (Machine.finishes_pure _))

theorem finishes_asked (hm : owner .m = none) (core : Core) {α : Type} {code : R2 α}
    (h : ∀ command ∈ code.asked (answered core w), Quiet command) :
    Machine.Finishes invoke t w owner x (serve (libr_cmd core) code) x
      (code.value (answered core w)) :=
  Machine.finishes_serve fun command hc => finishes_libr_cmd hm core (h command hc)

theorem finishes_ensure_session (hdoc : Host.Documented) (hmu : owner .mu = none)
    (hm : owner .m = none) (core : Core) :
    Machine.Finishes invoke t w owner x (ensure_session core) { x with session := some core }
      () := by
  unfold ensure_session
  apply Machine.finishes_holding hmu
  apply Machine.finishes_bind Machine.finishes_load
  split
  · rename_i hsession
    rw [← hsession]
    exact Machine.finishes_pure ()
  · have hprobes := Dialogue.of_mem_asked (asks_quiet_detect_decompiler hdoc) (answered core w)
    have hfree : Function.update owner .mu (some t) .m = none := by
      rw [Function.update_of_ne (by decide), hm]
    exact Machine.finishes_bind (finishes_asked hfree core hprobes) Machine.finishes_store

theorem finishes_http_command (hdoc : Host.Documented) (hfree : ∀ l, owner l = none)
    (hhttp : x.http = false) (hup : w.up = true) (core : Core) :
    Machine.Finishes invoke t w owner x (plugin_call core (Bytes.lit "sql.http"))
      { x with session := some core, http := true } () := by
  have hcall : plugin_call core (Bytes.lit "sql.http") = handle_http_command core [] := by
    have hclaimed : claimed (Bytes.lit "sql.http") = some (Bytes.lit ".http") := by
      decide +kernel
    have hstatement : statement (Bytes.lit ".http") = some (Bytes.lit "http") := by
      decide +kernel
    have htail : server_tail "http" (Bytes.lit "http") = some [] := by decide +kernel
    unfold plugin_call
    rw [hclaimed]
    unfold dispatch
    dsimp only
    rw [hstatement]
    dsimp only
    rw [htail]
  rw [hcall]
  unfold handle_http_command handle_server_command
  dsimp only
  rw [if_neg (by decide), if_neg (by decide)]
  have hrunning : Machine.Finishes invoke t w owner x
      (holding .mu (do
        let s ← load
        let w ← world
        return s.http && w.up)) x (x.http && w.up) := by
    apply Machine.finishes_holding (hfree .mu)
    apply Machine.finishes_bind Machine.finishes_load
    apply Machine.finishes_bind Machine.finishes_world
    exact Machine.finishes_pure _
  apply Machine.finishes_bind hrunning
  rw [if_neg (by simp [hhttp])]
  apply Machine.finishes_bind (finishes_ensure_session hdoc (hfree .mu) (hfree .m) core)
  apply Machine.finishes_bind Machine.finishes_world
  rw [if_pos hup]
  exact Machine.finishes_holding (hfree .mu)
    (Machine.finishes_bind Machine.finishes_load Machine.finishes_store)

omit [Nlohmann] [NlohmannErrors] [CppLibrary] [Host] in
theorem handle_server_command_locks (there : PluginState → Bool)
    (set : PluginState → Bool → PluginState) (core : Core) (tail : Bytes) :
    ∃ k, handle_server_command there set core tail = .ask (.lock .mu) k := by
  unfold handle_server_command
  dsimp only
  split
  · exact ⟨_, rfl⟩
  · split
    · exact ⟨_, rfl⟩
    · exact ⟨_, rfl⟩

omit [Host] in
theorem plugin_call_locks (core : Core) {line : Bytes} (h : takes_locks line = true) :
    ∃ k, plugin_call core line = .ask (.lock .mu) k := by
  obtain ⟨input, hinput⟩ := Option.isSome_iff_exists.mp h
  obtain ⟨rest, hrest, hstatement⟩ := Option.bind_eq_some_iff.mp hinput
  unfold plugin_call
  rw [hrest]
  unfold dispatch
  dsimp only
  rw [hstatement]
  dsimp only
  split
  · exact handle_server_command_locks _ _ core _
  · exact handle_server_command_locks _ _ core _
  · exact ⟨_, rfl⟩

theorem sticks_libr_cmd (hmu : owner .mu = some t) (hm : owner .m = none) (core : Nat)
    {command : Bytes} (h : ¬ Quiet command) :
    Machine.Sticks invoke t w owner x (libr_cmd (some core) command) := by
  have howner : Function.update owner .m (some t) .mu = some t := by
    rw [Function.update_of_ne (by decide), hmu]
  have hline : ∃ line ∈ Host.lines (c_str command), takes_locks line = true := by
    simpa [Quiet] using h
  unfold libr_cmd
  rw [if_neg (by simp)]
  refine Machine.sticks_holding hm (Machine.sticks_bind (Machine.sticks_run_command ?_))
  refine Machine.sticks_forM (fun line _ hquiet => ?_) (fun line _ htakes => ?_) hline
  · rw [plugin_call_of_not_takes_locks _ (by simpa using hquiet)]
    exact Machine.finishes_pure ()
  · obtain ⟨k, hk⟩ := plugin_call_locks (some core) htakes
    rw [hk]
    exact Machine.sticks_lock howner

theorem sticks_raw_cmd (hmu : owner .mu = some t) (hquery : owner .query_mu = none)
    (hm : owner .m = none) (core : Nat) {command : Bytes} (h : ¬ Quiet command) :
    Machine.Sticks invoke t w owner x (raw_cmd (some core) command) := by
  unfold raw_cmd
  refine Machine.sticks_holding hquery (sticks_libr_cmd ?_ ?_ core h)
  · rw [Function.update_of_ne (by decide), hmu]
  · rw [Function.update_of_ne (by decide), hm]

theorem sticks_query (hmu : owner .mu = some t) (hquery : owner .query_mu = none)
    (hm : owner .m = none) (core : Nat) {sql : Bytes} {call : TableCall}
    (hcall : call ∈ w.calls sql)
    (h : ∃ command ∈ call.code.asked (answered (some core) w), ¬ Quiet command) :
    Machine.Sticks invoke t w owner x (query (some core) sql) := by
  have hmu' : Function.update owner .query_mu (some t) .mu = some t := by
    rw [Function.update_of_ne (by decide), hmu]
  have hm' : Function.update owner .query_mu (some t) .m = none := by
    rw [Function.update_of_ne (by decide), hm]
  unfold query
  refine Machine.sticks_holding hquery
    (Machine.sticks_bind_of_finishes Machine.finishes_world ?_)
  refine Machine.sticks_forM (P := fun call : TableCall =>
    ∃ command ∈ call.code.asked (answered (some core) w), ¬ Quiet command) ?_ ?_ ⟨call, hcall, h⟩
  · intro c _ hquiet
    refine finishes_asked hm' (some core) fun command hc => ?_
    by_contra hnot
    exact hquiet ⟨command, hc, hnot⟩
  · intro c _ hloud
    refine Machine.sticks_serve (fun command hq => ?_) (fun command hq => ?_) hloud
    · exact finishes_libr_cmd hm' (some core) (not_not.mp hq)
    · exact sticks_libr_cmd hmu' hm' core hq

omit [Host] in
/-- A command that carries a text from elsewhere is sent, whatever radare2 answers. -/
theorem asked_carrying {call : TableCall} {command : Bytes} (h : command ∈ call.carrying)
    (be : Backend) : command ∈ call.code.asked be := by
  cases call with
  | write w =>
    cases w with
    | flags_name r v =>
      simp only [TableCall.carrying, Write.carrying, Option.mem_toList,
        Option.map_eq_some_iff] at h
      obtain ⟨name, hname, rfl⟩ := h
      change fr r.name name ∈ (discard (flags_name_setter r v)).asked be
      rw [Dialogue.asked_discard, flags_name_setter, asked_name_setter, hname]
      simp
    | bookmarks_name r v =>
      simp only [TableCall.carrying, Write.carrying, Option.mem_toList,
        Option.map_eq_some_iff] at h
      obtain ⟨name, hname, rfl⟩ := h
      change fr r.name name ∈ (discard (bookmarks_name_setter r v)).asked be
      rw [Dialogue.asked_discard, bookmarks_name_setter, asked_name_setter, hname]
      simp [in_bookmarks]
    | _ => cases h
  | type_define argv =>
    simp only [TableCall.carrying, Option.mem_toList, Option.map_eq_some_iff] at h
    obtain ⟨arg, harg, rfl⟩ := h
    change td arg.as_text ∈ (discard (r2sql_type_define argv)).asked be
    rw [Dialogue.asked_discard, r2sql_type_define, harg]
    simp [td]
  | _ => cases h

end

omit [Nlohmann] [NlohmannErrors] [CppLibrary] [Host] in
theorem answered_plays (core : Nat) (tk sql : Bytes) (calls : List TableCall) (command : Bytes) :
    answered (some core) (plays tk sql calls) command =
      if c_str command = Bytes.lit "tk*" then tk else [] := rfl

omit [Host] in
/-- A command about a type is sent where the table is read and radare2 lists the type. -/
theorem asked_type (core : Nat) {tk sql : Bytes} {calls : List TableCall} {call : TableCall}
    {name kind : Bytes} (hfirst : FirstDeclares tk name kind) (hkind : kind ∈ call.kinds) :
    type_command name kind ∈ call.code.asked (answered (some core) (plays tk sql calls)) := by
  have hlisting : answered (some core) (plays tk sql calls) (Bytes.lit "tk*") = tk :=
    (answered_plays ..).trans (if_pos (by decide))
  have htj : answered (some core) (plays tk sql calls) (Bytes.lit "tj") = [] :=
    (answered_plays ..).trans (if_neg (by decide))
  have hrecords : ∀ name kind, kind ∈ member_kinds →
      answered (some core) (plays tk sql calls) (type_command name kind) = [] := by
    intro name kind hkind
    obtain ⟨verb, hverb, hcommand⟩ := type_command_eq name hkind
    have hnul : ∀ verb ∈ type_verbs, 0 ∉ Bytes.lit verb := by decide
    rw [answered_plays, hcommand, c_str_append (hnul verb hverb), if_neg]
    intro heq
    have hlength := congrArg List.length heq
    have hlisting : (Bytes.lit "tk*").length = 3 := by decide
    rw [List.length_append, verb_length verb hverb, hlisting] at hlength
    omega
  rw [← hlisting] at hfirst
  cases call with
  | read t _ =>
    cases t with
    | types =>
      change _ ∈ (discard checked.types_cache_builder.run).asked _
      rw [Dialogue.asked_discard]
      exact checked.asked_types_of_listing hrecords htj hfirst hkind
    | types_members =>
      change _ ∈ (discard checked.types_members_cache_builder.run).asked _
      rw [Dialogue.asked_discard]
      exact checked.asked_types_members_of_listing hrecords hfirst hkind
    | _ => cases hkind
  | _ => cases hkind

/-! ## Runs that lock twice -/

section
variable {x x' : PluginState} {t : Nat} {w : World}

theorem run_front (threads : Nat → Plugin Unit) {h : Handler} {α : Type} {m : Plugin α}
    {f : α → Plugin Unit} {a : α} (hcode : h.code = m >>= f) (hdone : threads t = .done ())
    (hfinishes : Machine.Finishes invoke t w (fun _ => none) x m x' a) :
    ∃ n, run step ⟨fun _ => none, x, threads⟩ (.start t h :: (List.replicate n w).map (.step t)) =
      some (Machine.running (fun _ => none) x' threads t (f a)) := by
  obtain ⟨n, hn⟩ := hfinishes threads f
  have hstart : step ⟨fun _ => none, x, threads⟩ (.start t h) =
      some (Machine.running (fun _ => none) x threads t (m.bind f)) := by
    simp only [step, hdone]
    rw [hcode]
    rfl
  exact ⟨n, run_cons_iff.mpr ⟨_, hstart, (run_map (Action.step t) _ _).trans hn⟩⟩

theorem run_handler (threads : Nat → Plugin Unit) {h : Handler} (hdone : threads t = .done ())
    (hfinishes : Machine.Finishes invoke t w (fun _ => none) x h.code x' ()) :
    ∃ n, run step ⟨fun _ => none, x, threads⟩ (.start t h :: (List.replicate n w).map (.step t)) =
      some ⟨fun _ => none, x', threads⟩ := by
  obtain ⟨n, hn⟩ := run_front threads (Dialogue.bind_done _).symm hdone hfinishes
  refine ⟨n, hn.trans ?_⟩
  rw [Machine.running, ← hdone, Function.update_eq_self]

theorem run_sticks (threads : Nat → Plugin Unit) {m : Plugin Unit}
    (h : Machine.Sticks invoke t w (fun _ => none) x m) :
    ∃ n s', run step (Machine.running (fun _ => none) x threads t m)
      ((List.replicate n w).map (.step t)) = some s' ∧ s'.LocksTwice t := by
  obtain ⟨n, s', hn, htwice⟩ := h threads .done
  rw [Dialogue.bind_done] at hn
  exact ⟨n, s', (run_map (Action.step t) _ _).trans hn, htwice⟩

/-- No thread takes a lock that it has, in any run where all handlers are of this kind and all
worlds fit. -/
def NeverLocksTwice (kind : Handler → Prop) : Prop :=
  ∀ (as : List Action) (s : State), (∀ t h, .start t h ∈ as → kind h) →
    (∀ t w, .step t w ∈ as → w.Fits) → run step idle as = some s → ∀ t, ¬ s.LocksTwice t

/-- `sql.http`, with which radare2 makes a session. -/
def starts_http : Handler := .plugin_call (some 0) (Bytes.lit "sql.http")

omit [Nlohmann] [NlohmannErrors] [CppLibrary] in
theorem safe_starts_http : starts_http.Safe := by
  have hsql : starts_http.sql = none := by decide +kernel
  refine ⟨fun command hraw => ?_, fun sql h => ?_⟩
  · cases hraw
  · rw [hsql] at h
    cases h

theorem NeverLocksTwice.mono {kind kind' : Handler → Prop} (h : NeverLocksTwice kind')
    (hkind : ∀ h, kind h → kind' h) : NeverLocksTwice kind :=
  fun as s hstarts => h as s fun t h' hmem => hkind h' (hstarts t h' hmem)

/-- A run that starts two handlers, in one fitting world. -/
theorem two_starts_lock_twice {h h' : Handler} {i j k n n' n'' : Nat} {s : State} (hw : w.Fits)
    (hrun : run step idle ((.start i h :: (List.replicate n w).map (.step i)) ++
      ((.start j h' :: (List.replicate n' w).map (.step j)) ++
        (List.replicate n'' w).map (.step k))) = some s) (htwice : s.LocksTwice t) :
    ¬ NeverLocksTwice fun g => g = h ∨ g = h' := by
  intro hnever
  refine hnever _ s (fun t g hmem => ?_) (fun t w' hmem => ?_) hrun t htwice
  · have hstarts : t = i ∧ g = h ∨ t = j ∧ g = h' := by simpa using hmem
    exact hstarts.imp And.right And.right
  · have hworld : w' = w := by
      simp only [List.cons_append, List.mem_cons, List.mem_append, List.mem_map,
        List.mem_replicate, reduceCtorEq, false_or, Action.step.injEq] at hmem
      grind
    rw [hworld]
    exact hw

theorem request_locks_twice (hdoc : Host.Documented) (hw : w.Fits) (hup : w.up = true)
    {h : Handler} (hsticks : ∀ x : PluginState, x.session = some (some 0) →
      Machine.Sticks invoke 1 w (fun _ => none) x h.code) :
    ¬ NeverLocksTwice fun h' => h' = h ∨ h' = starts_http := by
  have hhttp : Machine.Finishes invoke 0 w (fun _ => none) idle.shared starts_http.code
      { idle.shared with session := some (some 0), http := true } () :=
    finishes_http_command hdoc (fun _ => rfl) rfl hup (some 0)
  obtain ⟨n, hfirst⟩ := run_handler idle.threads rfl hhttp
  have hcode : h.code = pure () >>= fun _ => h.code := rfl
  obtain ⟨n', hstart⟩ := run_front (w := w) idle.threads hcode rfl (Machine.finishes_pure ())
  have hstuck := hsticks { idle.shared with session := some (some 0), http := true } rfl
  obtain ⟨n'', s, hlast, htwice⟩ := run_sticks idle.threads hstuck
  have hpair := two_starts_lock_twice hw
    (run_append_iff.mpr ⟨_, hfirst, run_append_iff.mpr ⟨_, hstart, hlast⟩⟩) htwice
  exact fun hnever => hpair (hnever.mono fun _ => Or.symm)

/-- A command line whose statement sticks at the session of another one, which `sql.http` makes
after the session of its own. -/
theorem dispatch_locks_twice (hdoc : Host.Documented) (hw : w.Fits) (hup : w.up = true)
    {h : Handler} {core : Core} {rest : Plugin Unit}
    (hcode : h.code = ensure_session core >>= fun _ => rest)
    (hsticks : ∀ x : PluginState, x.session = some (some 0) →
      Machine.Sticks invoke 1 w (fun _ => none) x rest) :
    ¬ NeverLocksTwice fun h' => h' = h ∨ h' = starts_http := by
  have hensured : Machine.Finishes invoke 1 w (fun _ => none) idle.shared (ensure_session core)
      { idle.shared with session := some core } () :=
    finishes_ensure_session hdoc rfl rfl core
  obtain ⟨n, hfirst⟩ := run_front idle.threads hcode rfl hensured
  have hdone : Function.update idle.threads 1 rest 0 = .done () :=
    Function.update_of_ne (by decide) ..
  have hhttp : Machine.Finishes invoke 0 w (fun _ => none)
      { idle.shared with session := some core } starts_http.code
      { idle.shared with session := some (some 0), http := true } () :=
    finishes_http_command hdoc (fun _ => rfl) rfl hup (some 0)
  obtain ⟨n', hsecond⟩ := run_handler _ hdone hhttp
  have hstuck := hsticks { idle.shared with session := some (some 0), http := true } rfl
  obtain ⟨n'', s, hlast, htwice⟩ := run_sticks idle.threads hstuck
  exact two_starts_lock_twice hw
    (run_append_iff.mpr ⟨_, hfirst, run_append_iff.mpr ⟨_, hsecond, hlast⟩⟩) htwice

end

/-! ## Handlers that stick -/

section
variable {x : PluginState}

theorem raw_request_sticks {w : World} {body command : Bytes}
    (hraw : raw_request body = some command) (hloud : ¬ Quiet command)
    (hsession : x.session = some (some 0)) :
    Machine.Sticks invoke 1 w (fun _ => none) x (plugin_raw_or_sql body) := by
  unfold plugin_raw_or_sql
  refine Machine.sticks_holding_load rfl ?_
  rw [hsession]
  dsimp only
  rw [hraw]
  exact Machine.sticks_bind (sticks_raw_cmd (by simp) (by simp) (by simp) 0 hloud)

/-- A statement with a call that sends a command that is not quiet, where radare2 lists some
types. -/
structure Loud (tk sql : Bytes) (calls : List TableCall) : Prop where
  lists : Host.lists tk
  makes : Host.makes sql calls
  call : ∃ call ∈ calls, ∃ command ∈ call.code.asked (answered (some 0) (plays tk sql calls)),
    ¬ Quiet command

theorem exists_loud (hdoc : Host.Documented) {sql : Bytes} {calls : List TableCall}
    {call : TableCall} (hmakes : Host.makes sql calls) (hcall : call ∈ calls)
    (h : ¬ QuietCall call) : ∃ tk, Loud tk sql calls := by
  by_cases hcarrying : ∀ command ∈ call.carrying, Quiet command
  · have htypes : ¬ ∀ tk, Host.lists tk → ∀ name kind, FirstDeclares tk name kind →
        kind ∈ call.kinds → Quiet (type_command name kind) := fun hq => h ⟨hcarrying, hq⟩
    push Not at htypes
    obtain ⟨tk, htk, name, kind, hfirst, hkind, hloud⟩ := htypes
    exact ⟨tk, htk, hmakes, call, hcall, _, asked_type 0 hfirst hkind, hloud⟩
  · push Not at hcarrying
    obtain ⟨command, hcommand, hloud⟩ := hcarrying
    obtain ⟨tk, htk⟩ := hdoc.answers
    exact ⟨tk, htk, hmakes, call, hcall, command, asked_carrying hcommand _, hloud⟩

theorem query_sticks {tk sql : Bytes} {calls : List TableCall} (hloud : Loud tk sql calls) :
    Machine.Sticks invoke 1 (plays tk sql calls)
      (Function.update (fun _ => none) .mu (some 1)) x (query (some 0) sql) := by
  obtain ⟨call, hcall, hasked⟩ := hloud.call
  have hmade : call ∈ (plays tk sql calls).calls sql := by simpa [plays] using hcall
  exact sticks_query (by simp) (by simp) (by simp) 0 hmade hasked

theorem sql_request_sticks {tk body : Bytes} {calls : List TableCall}
    (hraw : raw_request body = none) (hloud : Loud tk body calls)
    (hsession : x.session = some (some 0)) :
    Machine.Sticks invoke 1 (plays tk body calls) (fun _ => none) x (plugin_raw_or_sql body) := by
  unfold plugin_raw_or_sql
  refine Machine.sticks_holding_load rfl ?_
  rw [hsession]
  dsimp only
  rw [hraw]
  exact query_sticks hloud

theorem mcp_request_sticks {tk sql : Bytes} {calls : List TableCall} (hloud : Loud tk sql calls)
    (hsession : x.session = some (some 0)) :
    Machine.Sticks invoke 1 (plays tk sql calls) (fun _ => none) x (mcp_callback sql) := by
  unfold mcp_callback
  refine Machine.sticks_holding_load rfl ?_
  rw [hsession]
  exact query_sticks hloud

/-- What `dispatch` does for a statement, after the session is there. -/
def run_statement (sql : Bytes) : Plugin Unit :=
  holding .mu do
    let s ← load
    match s.session with
    | some bound => query bound sql
    | none => return ()

omit [Host] in
theorem dispatch_of_query_text {input sql : Bytes} (h : query_text input = some sql) (core : Core) :
    dispatch core input = ensure_session core >>= fun _ => run_statement sql := by
  obtain ⟨hstatement, hserver⟩ := Option.filter_eq_some_iff.mp h
  rw [Bool.and_eq_true, Option.isNone_iff_eq_none, Option.isNone_iff_eq_none] at hserver
  unfold dispatch
  rw [hstatement]
  dsimp only
  rw [hserver.1, hserver.2]
  rfl

theorem run_statement_sticks {tk sql : Bytes} {calls : List TableCall} (hloud : Loud tk sql calls)
    (hsession : x.session = some (some 0)) :
    Machine.Sticks invoke 1 (plays tk sql calls) (fun _ => none) x (run_statement sql) := by
  unfold run_statement
  refine Machine.sticks_holding_load rfl ?_
  rw [hsession]
  exact query_sticks hloud

end

/-! ## The handlers that are safe -/

theorem raw_locks_twice (hdoc : Host.Documented) {h : Handler} {command : Bytes}
    (hraw : h.raw = some command) (hloud : ¬ Quiet command) :
    ¬ NeverLocksTwice fun h' => h' = h ∨ h' = starts_http := by
  cases h with
  | http_request body =>
    obtain ⟨tk, htk⟩ := hdoc.answers
    have hfits : (plays tk [] []).Fits := fits_plays htk fun h => absurd rfl h
    exact request_locks_twice hdoc hfits rfl fun _ => raw_request_sticks hraw hloud
  | _ => cases hraw

theorem sql_locks_twice (hdoc : Host.Documented) {h : Handler} {tk sql : Bytes}
    {calls : List TableCall} (hsql : h.sql = some sql) (hloud : Loud tk sql calls) :
    ¬ NeverLocksTwice fun h' => h' = h ∨ h' = starts_http := by
  have hfits : (plays tk sql calls).Fits := fits_plays hloud.lists fun _ => hloud.makes
  cases h with
  | plugin_call core input =>
    obtain ⟨rest, hclaimed, hquery⟩ := Option.bind_eq_some_iff.mp hsql
    have hcode : (Handler.plugin_call core input).code =
        ensure_session core >>= fun _ => run_statement sql := by
      change plugin.plugin_call core input = _
      unfold plugin.plugin_call
      rw [hclaimed]
      exact dispatch_of_query_text hquery core
    exact dispatch_locks_twice hdoc hfits rfl hcode fun _ => run_statement_sticks hloud
  | dispatch core input =>
    exact dispatch_locks_twice hdoc hfits rfl (dispatch_of_query_text hsql core)
      fun _ => run_statement_sticks hloud
  | http_request body =>
    simp only [Handler.sql, Option.ite_none_right_eq_some, Option.some.injEq] at hsql
    obtain ⟨hraw, rfl⟩ := hsql
    exact request_locks_twice hdoc hfits rfl fun _ => sql_request_sticks hraw hloud
  | mcp_request text =>
    cases hsql
    exact request_locks_twice hdoc hfits rfl fun _ => mcp_request_sticks hloud
  | plugin_fini => cases hsql

end

/-! ## A host with two statements -/

/-- The bytes at which the host of these runs ends a command. -/
def separators : Bytes := Bytes.lit "\n;\""

/-- Radare2 runs what is between the separators and lists some types, and SQLite makes the calls of
some statements. -/
abbrev Host.separated (listing : Bytes) (statements : List (Bytes × List TableCall)) : Host where
  lines command := (command.splitOnP (· ∈ separators)).filter (· ≠ [])
  lists tk := tk = listing
  makes sql calls := (sql, calls) ∈ statements

theorem documented_separated (listing : Bytes) (statements : List (Bytes × List TableCall)) :
    letI := Host.separated listing statements
    Host.Documented := by
  let := Host.separated listing statements
  have hno : ∀ c ∈ separators, single_byte c = false := by decide +kernel
  refine ⟨fun command hone line hline => Or.inl ?_, listing, rfl⟩
  have hsplit : command.splitOnP (· ∈ separators) = [command] :=
    List.splitOnP_eq_singleton fun c hc => decide_eq_false fun hmem => by
      have hsingle := hone.bytes c hc
      rw [hno c hmem] at hsingle
      cases hsingle
  have hmem := List.mem_of_mem_filter hline
  rw [hsplit, List.mem_singleton] at hmem
  rw [hmem]

/-- `SELECT r2sql_type_define('a";sql SELECT 1;"')`, and the argument of its function. -/
def defining : Bytes := Bytes.lit "SELECT r2sql_type_define('a\";sql SELECT 1;\"')"

def definition : Bytes := Bytes.lit "a\";sql SELECT 1;\""

def reading : Bytes := Bytes.lit "SELECT * FROM types"

end r2sql.plugin
