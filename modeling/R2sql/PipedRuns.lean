-- The library over r2pipe: behind its two pipes, and however they cut its
-- replies, radare2 does for the library what it does when it is asked directly.
import R2sql.ProjectLists
import R2sql.R2PipeReplies
import R2sql.TableCommands

namespace r2sql

open R2PipePosixBackend

/-! ## radare2 behind the pipes -/

/-- The child with the state of its radare2, what it has read of a line that has not ended, and what
it has printed that nobody has read. -/
structure Piped (σ : Type) where
  radare2 : σ
  line : Bytes
  output : Bytes

namespace Piped

variable {σ : Type} (step : σ → Bytes → Bytes × σ)

/-- The child after the handshake. -/
def ready (s : σ) : Piped σ := { radare2 := s, line := [], output := [] }

/-- The child reads its input. It runs each line that ends, and prints the reply and a NUL. -/
def feed (c : Piped σ) : Bytes → Piped σ
  | [] => c
  | b :: input =>
    if b = newline then
      let (reply, radare2) := step c.radare2 c.line
      feed { radare2 := radare2, line := [], output := c.output ++ reply ++ [0] } input
    else feed { c with line := c.line ++ [b] } input

/-- `R2PipePosixBackend::cmd` against the child, where `write` writes the whole line and `reads` is
what the calls of `read` give. -/
def cmd (be : R2PipePosixBackend) (c : Piped σ) (command : Bytes) (reads : List ReadResult) :
    Option (Bytes × Piped σ) :=
  let line := R2PipePosixBackend.line command
  let fed := if be.closed then c else c.feed step line
  match be.cmd command line.length reads with
  | some (text, []) =>
    (deliver fed.output reads).map fun output => (text, { fed with output := output })
  | _ => none

/-- Code of the library over the pipes, with the reads of each of its commands. -/
def run {α : Type} (be : R2PipePosixBackend) (c : Piped σ) (m : R2 α)
    (reads : List (List ReadResult)) : Option (α × Piped σ) := m.relay (cmd step be) c reads

variable {step}

theorem feed_append (c : Piped σ) (xs ys : Bytes) :
    c.feed step (xs ++ ys) = (c.feed step xs).feed step ys := by
  induction xs generalizing c with
  | nil => rfl
  | cons b xs ih =>
    rw [List.cons_append, feed, feed]
    split <;> exact ih _

theorem feed_of_not_mem (c : Piped σ) {xs : Bytes} (h : newline ∉ xs) :
    c.feed step xs = { c with line := c.line ++ xs } := by
  induction xs generalizing c with
  | nil => simp [feed]
  | cons b xs ih =>
    rw [List.mem_cons, not_or] at h
    rw [feed, if_neg (Ne.symm h.1), ih _ h.2]
    simp

theorem feed_line (s : σ) {command : Bytes} (h : newline ∉ command) :
    (ready s).feed step (R2PipePosixBackend.line command) =
      { radare2 := (step s command).2, line := [], output := (step s command).1 ++ [0] } := by
  rw [R2PipePosixBackend.line, feed_append, feed_of_not_mem _ h]
  simp [ready, feed]

/-- The reads of a reply one byte at a time. -/
def bytewise (text : Bytes) : List ReadResult := (text ++ [0]).map fun b => .chunk [b]

theorem read_bytewise {text : Bytes} (h0 : 0 ∉ text) (out : Bytes) :
    read_loop out (bytewise text) = some (out ++ text, []) ∧
      deliver (text ++ [0]) (bytewise text) = some [] := by
  induction text generalizing out with
  | nil => simp [bytewise, read_loop, deliver, find_nul]
  | cons b text ih =>
    rw [List.mem_cons, not_or] at h0
    obtain ⟨hloop, hdel⟩ := ih h0.2 (out ++ [b])
    have hcons : bytewise (b :: text) = .chunk [b] :: bytewise text := rfl
    have hfind : find_nul 0 [b] = -1 := find_nul_of_not_mem 0 (by simpa using h0.1)
    rw [hcons, List.cons_append]
    constructor
    · rw [read_loop, if_neg (by simp), hfind]
      simpa using hloop
    · rw [deliver, if_pos ⟨by simp, by simp, text ++ [0], rfl⟩]
      exact hdel

variable {be : R2PipePosixBackend} {s : σ} {command : Bytes}

theorem cmd_of_open (hopen : be.closed = false) (reads : List ReadResult) :
    be.cmd command (R2PipePosixBackend.line command).length reads = read_loop [] reads := by
  rw [R2PipePosixBackend.cmd, if_neg (by simp [hopen]), if_neg (by simp)]

/-- A command of one line gets its reply, and the child is ready for the next. -/
theorem cmd_of_ready (hopen : be.closed = false) (hreply : 0 ∉ (step s command).1)
    (hline : newline ∉ command) {reads : List ReadResult} (hfail : .fail ∉ reads) {text : Bytes}
    {c : Piped σ} (h : cmd step be (ready s) command reads = some (text, c)) :
    text = (step s command).1 ∧ c = ready (step s command).2 := by
  unfold cmd at h
  dsimp only at h
  rw [if_neg (by simp [hopen]), cmd_of_open hopen, feed_line s hline] at h
  split at h
  · rename_i text' hloop
    obtain ⟨output, hdel, hc⟩ := Option.map_eq_some_iff.mp h
    cases hc
    obtain ⟨rfl, rfl⟩ := read_own_reply hreply hfail hloop hdel
    exact ⟨rfl, rfl⟩
  · cases h

/-- The reads can come, whatever the reply is. -/
theorem cmd_bytewise (hopen : be.closed = false) (hreply : 0 ∉ (step s command).1)
    (hline : newline ∉ command) :
    cmd step be (ready s) command (bytewise (step s command).1) =
      some ((step s command).1, ready (step s command).2) := by
  obtain ⟨hloop, hdel⟩ := read_bytewise hreply []
  unfold cmd
  dsimp only
  rw [if_neg (by simp [hopen]), cmd_of_open hopen, feed_line s hline, hloop, hdel]
  rfl

end Piped

/-! ## Code of one-line commands -/

/-- A text of one line. -/
def OneLine (text : Bytes) : Prop := newline ∉ text

instance (text : Bytes) : Decidable (OneLine text) := inferInstanceAs (Decidable (_ ∉ _))

theorem oneLine_append {s t : Bytes} (hs : OneLine s) (ht : OneLine t) : OneLine (s ++ t) := by
  intro h
  exact (List.mem_append.mp h).elim hs ht

theorem oneLine_of_encoded {k : Encoding} {s : Bytes} (h : Operand.Encoded k s) : OneLine s :=
  fun hmem => (Operand.harmless h hmem).1 (by decide)

theorem oneLine_hex_addr (addr : Int64) : OneLine (json_utils.hex_addr addr) :=
  oneLine_of_encoded (Operand.encoded (o := .addr addr) trivial)

theorem oneLine_name {name : Bytes} (h : json_utils.valid_flag_name name = true) : OneLine name :=
  oneLine_of_encoded (Operand.encoded (o := .name name) h)

theorem oneLine_of_declared {tk name kind : Bytes} (h : FirstDeclares tk name kind) :
    OneLine name := by
  obtain ⟨before, record, after, hsplit, hdeclares, -⟩ := h
  obtain ⟨markers, returns, hrecord, -, -⟩ := hdeclares.split
  have hmem : record ∈ tk_records tk := by simp [hsplit]
  intro hnewline
  exact (no_separator_in_record hmem newline (by simp [hrecord, hnewline])).1 rfl

/-- The library sends commands of one line, where those that carry a text as it is are of one
line. -/
theorem oneLine_of_sent {command : Bytes} (h : Sent OneLine command) : OneLine command := by
  have hfixed : ∀ c ∈ list_commands ++ estimates ++ space_commands ++ probes.map Prod.fst,
      OneLine (Bytes.lit c) := by decide +kernel
  have hverbs : ∀ v ∈ address_verbs ++ addr_verbs ++ name_verbs ++ name_at_verbs,
      OneLine (Bytes.lit v) := by decide +kernel
  have hat : OneLine (Bytes.lit " @ ") := by decide
  simp only [List.mem_append] at hfixed hverbs
  cases h with
  | reading h =>
    cases h with
    | listing h => exact hfixed _ (.inl (.inl (List.mem_append.mp h)))
    | address h addr =>
      have hverb := hverbs _ (.inl (.inl (.inl h)))
      exact oneLine_append (oneLine_append hverb hat) (oneLine_hex_addr addr)
  | space h => exact hfixed _ (.inl (.inr h))
  | addr h addr =>
    exact oneLine_append (hverbs _ (.inl (.inl (.inr h)))) (oneLine_hex_addr addr)
  | named h hname => exact oneLine_append (hverbs _ (.inl (.inr h))) (oneLine_name hname)
  | named_at h hname addr =>
    have hverb := oneLine_append (hverbs _ (.inr h)) (oneLine_name hname)
    exact oneLine_append (oneLine_append hverb hat) (oneLine_hex_addr addr)
  | ccu text addr =>
    have htext : OneLine (Bytes.lit "base64:" ++ json_utils.base64_encode text) :=
      oneLine_of_encoded (Operand.encoded (o := .text text) trivial)
    have hccu : OneLine (Bytes.lit "CCu " ++ (Bytes.lit "base64:" ++ _)) :=
      oneLine_append (by decide) htext
    exact oneLine_append (oneLine_append hccu hat) (oneLine_hex_addr addr)
  | probe h => exact hfixed _ (.inr h)
  | carrying h => exact h

theorem oneLine_fr {old name : Bytes} (hold : OneLine old)
    (hname : json_utils.valid_flag_name name = true) : OneLine (fr old name) := by
  have hverb : OneLine (Bytes.lit "fr ") := by decide
  exact oneLine_append (oneLine_append (oneLine_append hverb hold) (by decide)) (oneLine_name hname)

theorem oneLine_type_command {tk name kind : Bytes} (h : FirstDeclares tk name kind)
    (hkind : kind ∈ member_kinds) : OneLine (type_command name kind) := by
  have hverbs : ∀ v ∈ type_verbs, OneLine (Bytes.lit v) := by decide
  obtain ⟨verb, hmem, hcommand⟩ := type_command_eq _ hkind
  rw [hcommand]
  exact oneLine_append (hverbs verb hmem) (oneLine_of_declared h)

/-- What the write takes from its row or from SQL as it is. -/
def Write.Given (p : Bytes → Prop) : Write → Prop
  | flags_name r _ => p r.name
  | bookmarks_name r _ => p r.name
  | _ => True

/-- What the call takes from a row or from SQL as it is. -/
def TableCall.Given (p : Bytes → Prop) : TableCall → Prop
  | write w => w.Given p
  | type_define argv => ∀ arg ∈ supplied argv 0, p arg.as_text
  | _ => True

/-- The commands that carry a text of one line are of one line. -/
theorem TableCall.oneLine_carrying {c : TableCall} (h : c.Given OneLine) :
    ∀ command ∈ c.carrying, OneLine command := by
  intro command hcommand
  cases c with
  | write w =>
    cases w with
    | flags_name r v | bookmarks_name r v =>
      simp only [carrying, Write.carrying, Option.mem_toList, Option.map_eq_some_iff] at hcommand
      obtain ⟨name, hname, rfl⟩ := hcommand
      exact oneLine_fr h (valid_of_accepted hname)
    | _ => cases hcommand
  | type_define argv =>
    simp only [carrying, Option.mem_toList, Option.map_eq_some_iff] at hcommand
    obtain ⟨arg, harg, rfl⟩ := hcommand
    have hverb : OneLine (Bytes.lit "\"td ") := by decide
    exact oneLine_append (oneLine_append hverb (h arg harg)) (by decide)
  | _ => cases hcommand

/-- What the library does with a backend: calls of SQLite, raw commands, the search for a decompiler
and the start of a project, each chosen from what the ones before gave. Every text that a command
carries as it is has one line. -/
inductive Work [Nlohmann] [NlohmannErrors] [CppLibrary] : {α : Type} → R2 α → Prop
  | done {α : Type} (a : α) : Work (pure a)
  | call {α : Type} {m : R2 α} {c : TableCall} (h : c.Given OneLine) (hm : discard m = c.code) :
    Work m
  | raw {command : Bytes} (h : OneLine command) : Work (cmd command)
  | detect : Work detect_decompiler
  | start {opts : R2PipeOpenOptions} (h : OneLine opts.project) : Work (start_project opts)
  | bind {α β : Type} {m : R2 α} {f : α → R2 β} (hm : Work m) (hf : ∀ a, Work (f a)) :
    Work (m >>= f)

theorem asks_start_project {opts : R2PipeOpenOptions} (h : OneLine opts.project) :
    (start_project opts).Asks OneLine := by
  have haaa : ∀ c : Prop, [Decidable c] →
      (if c then cmd (Bytes.lit "aaa") >>= fun _ => pure () else pure () : R2 Unit).Asks
        OneLine := by
    intro c _
    split
    · exact ⟨by decide, fun _ => trivial⟩
    · exact trivial
  have hproject : (if opts.project ≠ [] then
      (do
        let found ← project_exists_ opts.project
        if found then
          let _ ← cmd (Bytes.lit "P " ++ opts.project)
        else if opts.analyze then
          let _ ← cmd (Bytes.lit "aaa"))
      else pure () : R2 Unit).Asks OneLine := by
    split
    · refine Dialogue.asks_bind ⟨by decide, fun _ => trivial⟩ fun found => ?_
      split
      · exact ⟨oneLine_append (by decide) h, fun _ => trivial⟩
      · exact haaa _
    · exact trivial
  unfold start_project
  dsimp only
  split
  · exact ⟨by decide, fun _ => hproject⟩
  · exact hproject

section
variable [Nlohmann] [NlohmannErrors] [CppLibrary]

theorem Work.asks {α : Type} {m : R2 α} (hm : Work m) : m.Asks OneLine := by
  induction hm with
  | done a => exact Dialogue.asks_pure a
  | call h hm =>
    have hsent := Dialogue.asks_of_asksGiven (TableCall.asksGiven_sent
      (TableCall.oneLine_carrying h) fun _ _ _ _ hfirst hkind =>
        oneLine_type_command hfirst (TableCall.kinds_subset _ hkind))
    have hcode := Dialogue.asks_mono (fun _ => oneLine_of_sent) hsent
    rw [← hm] at hcode
    exact Dialogue.asks_map_iff.mp hcode
  | raw h => exact asks_cmd h
  | detect => exact Dialogue.asks_mono (fun _ => oneLine_of_sent) asks_detect_decompiler_sent
  | start h => exact asks_start_project h
  | bind hm hf ihm ihf => exact Dialogue.asks_bind ihm ihf

/-- Over the pipes the library gets the values that radare2 gives it directly, and leaves radare2 in
the same state and ready for the next command. This holds for every way to cut the replies, and
there is one. -/
theorem work_runs_alike_over_a_pipe {σ : Type} {step : σ → Bytes → Bytes × σ}
    (hreplies : ∀ s command, 0 ∉ (step s command).1) {be : R2PipePosixBackend}
    (hopen : be.closed = false) {α : Type} {m : R2 α} (hm : Work m) (s : σ) :
    (∀ reads a c, (∀ r ∈ reads, .fail ∉ r) →
      Piped.run step be (Piped.ready s) m reads = some (a, c) →
      a = (m.play step s).1 ∧ c = Piped.ready (m.play step s).2) ∧
    ∃ reads, (∀ r ∈ reads, .fail ∉ r) ∧
      Piped.run step be (Piped.ready s) m reads =
        some ((m.play step s).1, Piped.ready (m.play step s).2) := by
  constructor
  · intro reads a c hfail hrun
    refine Dialogue.relay_refines (R := fun c s => c = Piped.ready s) ?_ hm.asks rfl hfail hrun
    rintro _ t command r text u rfl hline hr hcmd
    exact Piped.cmd_of_ready hopen (hreplies t command) hline hr hcmd
  · have hlive : ∀ {c : Piped σ} {t command}, c = Piped.ready t → OneLine command →
        ∃ r u, .fail ∉ r ∧ Piped.cmd step be c command r = some ((step t command).1, u) ∧
          u = Piped.ready (step t command).2 := by
      rintro _ t command rfl hline
      refine ⟨_, _, ?_, Piped.cmd_bytewise hopen (hreplies t command) hline, rfl⟩
      simp [Piped.bytewise]
    obtain ⟨reads, c, hfail, hrun, rfl⟩ := Dialogue.exists_relay
      (R := fun c s => c = Piped.ready s) (G := fun r => ReadResult.fail ∉ r) hlive hm.asks (s := s)
      rfl
    exact ⟨reads, hfail, hrun⟩

end

/-! ## A save over the pipes -/

/-- A radare2 that answers every command alike, and keeps the commands. -/
def logging (log : List Bytes) (command : Bytes) : Bytes × List Bytes :=
  (Bytes.lit "ok\n", log ++ [command])

/-- `SELECT r2sql_project_save('demo')`, and a look at the projects. -/
def save_and_list : R2 Bytes := do
  let answer ← r2sql_project_save [.text (Bytes.lit "demo")]
  let list ← cmd (Bytes.lit "Pl")
  return answer ++ list

theorem the_save_goes_over_the_pipe :
    ∃ reads, (∀ r ∈ reads, .fail ∉ r) ∧
      Piped.run logging ⟨3, 4⟩ (Piped.ready []) save_and_list reads =
        some (Bytes.lit "saved: demook\n",
          Piped.ready [Bytes.lit "Ps demo", Bytes.lit "Pl"]) := by
  let := Nlohmann.ofTexts []
  let := NlohmannErrors.silent
  let := CppLibrary.stable
  have hreplies : ∀ log command, 0 ∉ (logging log command).1 := fun _ _ => by
    change 0 ∉ Bytes.lit "ok\n"
    decide
  have hsave : Work (r2sql_project_save [.text (Bytes.lit "demo")]) :=
    .call (c := .write (.project_save [.text (Bytes.lit "demo")])) trivial rfl
  have hwork : Work save_and_list :=
    .bind hsave fun _ => .bind (.raw (by decide)) fun _ => .done _
  exact (work_runs_alike_over_a_pipe hreplies (by decide) hwork []).2

end r2sql
