-- The command line of the CLI: which lines it takes, and what it makes of them.
import R2sql.Lib.Options
import R2sql.Ports

namespace r2sql.cli

open options

/-- The struct `Args`, with its defaults. -/
structure Args where
  sql : Bytes := []
  script_file : Bytes := []
  source : Bytes := []
  r2_exe : Bytes := []
  project : Bytes := []
  repl : Bool := false
  write : Bool := false
  analyze : Bool := true
  use_pipe : Bool := false
  show_help : Bool := false
  show_version : Bool := false
  http : Bool := false
  http_port : Int := 0
  http_bind : Bytes := Bytes.lit "127.0.0.1"
  http_token : Bytes := []
  mcp : Bool := false
  mcp_port : Int := 0
  deriving DecidableEq

/-! ## The options -/

/-- The options without a value. -/
def flag_options : List (String × (Args → Args)) :=
  [("-h", fun a => { a with show_help := true }),
    ("--help", fun a => { a with show_help := true }),
    ("--version", fun a => { a with show_version := true }),
    ("-w", fun a => { a with write := true }),
    ("--write", fun a => { a with write := true }),
    ("--no-analyze", fun a => { a with analyze := false }),
    ("--r2pipe", fun a => { a with use_pipe := true }),
    ("-i", fun a => { a with repl := true })]

/-- The options that need a value. -/
def value_options : List (String × (Bytes → Args → Args)) :=
  [("-s", fun v a => { a with source := v }),
    ("-q", fun v a => { a with sql := v }),
    ("-f", fun v a => { a with script_file := v }),
    ("--r2-exe", fun v a => { a with r2_exe := v }),
    ("--project", fun v a => { a with project := v }),
    ("--bind", fun v a => { a with http_bind := v }),
    ("--token", fun v a => { a with http_token := v })]

/-- The options with a port that can be left out. Without one, the port stays as it is. -/
def port_options : List (String × (Option Int → Args → Args)) :=
  [("--http", fun port a => { a with http := true, http_port := port.getD a.http_port }),
    ("--mcp", fun port a => { a with mcp := true, mcp_port := port.getD a.mcp_port })]

def find {α : Type} (table : List (String × α)) (k : Bytes) : Option α :=
  (table.find? fun p => Bytes.lit p.1 = k).map Prod.snd

/-- The word after `--http` or `--mcp`, if it is taken as the port. -/
def port_argument (next : Bytes) : Option Int :=
  if next ≠ [] ∧ next.head? ≠ some '-'.toUInt8 then stoi next else none

/-- What is printed where an option has no value. -/
def requires_value (k : Bytes) : Bytes :=
  Bytes.lit "r2sql: " ++ k ++ Bytes.lit " requires a value\n"

def unknown_argument (k : Bytes) : Bytes :=
  Bytes.lit "r2sql: unknown argument: " ++ k ++ Bytes.lit "\n"

/-- `parse_args`, on the words after the name of the program. An error is what it prints where it
returns 2. -/
def parse_args (a : Args) : List Bytes → Except Bytes Args
  | [] => .ok a
  | k :: rest =>
    match find flag_options k with
    | some set => parse_args (set a) rest
    | none =>
      match find value_options k with
      | some set =>
        match rest with
        | [] => .error (requires_value k)
        | v :: rest => parse_args (set v a) rest
      | none =>
        match find port_options k with
        | some set =>
          match rest with
          | [] => .ok (set none a)
          | next :: rest =>
            match port_argument next with
            | some port => parse_args (set (some port) a) rest
            | none => parse_args (set none a) (next :: rest)
        | none => .error (unknown_argument k)

/-! ## The grammar -/

/-- The kind of the option of a name. -/
def kind (k : Bytes) : Option Kind :=
  if (find flag_options k).isSome then some .flag
  else if (find value_options k).isSome then some .value
  else if (find port_options k).isSome then some .optional
  else none

theorem mem_of_find {α : Type} {table : List (String × α)} {k : Bytes} {set : α}
    (h : find table k = some set) : ∃ name, (name, set) ∈ table ∧ Bytes.lit name = k := by
  obtain ⟨p, hp, rfl⟩ := Option.map_eq_some_iff.mp h
  exact ⟨p.1, List.mem_of_find?_eq_some hp, by simpa using List.find?_some hp⟩

theorem head_of_find {α : Type} {table : List (String × α)}
    (hdash : ∀ p ∈ table, (Bytes.lit p.1).head? = some '-'.toUInt8) {k : Bytes}
    (h : (find table k).isSome) : k.head? = some '-'.toUInt8 := by
  obtain ⟨set, hset⟩ := Option.isSome_iff_exists.mp h
  obtain ⟨name, hmem, rfl⟩ := mem_of_find hset
  exact hdash _ hmem

theorem dash_of_kind {k : Bytes} (h : kind k ≠ none) : k.head? = some '-'.toUInt8 := by
  unfold kind at h
  split at h
  · rename_i hflag
    exact head_of_find (by decide) hflag
  · split at h
    · rename_i hvalue
      exact head_of_find (by decide) hvalue
    · split at h
      · rename_i hport
        exact head_of_find (by decide) hport
      · exact absurd rfl h

/-- No port begins with a dash. -/
def grammar : Grammar Bytes where
  kind := kind
  accepts next := (port_argument next).isSome
  not_accepted next h := by
    by_contra hkind
    have hdash := dash_of_kind hkind
    unfold port_argument at h
    rw [if_neg (fun hplain => hplain.2 hdash)] at h
    cases h

/-- What an option does to the arguments. -/
def apply (a : Args) (o : Given Bytes) : Args :=
  match find flag_options o.name, find value_options o.name, find port_options o.name, o.value with
  | some set, _, _, _ => set a
  | none, some set, _, some v => set v a
  | none, none, some set, some next => set (port_argument next) a
  | none, none, some set, none => set none a
  | none, _, _, _ => a

/-- What is printed for the word where no option is. -/
def refusal (k : Bytes) : Bytes :=
  if kind k = some .value then requires_value k else unknown_argument k

/-- What `parse_args` makes of the options that the grammar reads. -/
def parsed (a : Args) (r : List (Given Bytes) × List Bytes) : Except Bytes Args :=
  match r.2 with
  | [] => .ok (r.1.foldl apply a)
  | k :: _ => .error (refusal k)

theorem parsed_cons (a : Args) (o : Given Bytes) (r : List (Given Bytes) × List Bytes) :
    parsed a (o :: r.1, r.2) = parsed (apply a o) r := rfl

section
variable {k : Bytes}

theorem kind_flag {set : Args → Args} (h : find flag_options k = some set) :
    grammar.kind k = some .flag := by
  simp [grammar, kind, h]

theorem kind_value (hflag : find flag_options k = none) {set : Bytes → Args → Args}
    (h : find value_options k = some set) : grammar.kind k = some .value := by
  simp [grammar, kind, hflag, h]

theorem kind_port (hflag : find flag_options k = none) (hvalue : find value_options k = none)
    {set : Option Int → Args → Args} (h : find port_options k = some set) :
    grammar.kind k = some .optional := by
  simp [grammar, kind, hflag, hvalue, h]

theorem kind_unknown (hflag : find flag_options k = none) (hvalue : find value_options k = none)
    (hport : find port_options k = none) : grammar.kind k = none := by
  simp [grammar, kind, hflag, hvalue, hport]

end

theorem parse_args_eq (a : Args) (ws : List Bytes) :
    parse_args a ws = parsed a (grammar.read ws) := by
  fun_induction parse_args a ws with
  | case1 a =>
    rw [grammar.read_of_none rfl]
    rfl
  | case2 a k rest set hset ih =>
    have hnext : grammar.next (k :: rest) = some (⟨k, none⟩, rest) := by
      simp [Grammar.next, kind_flag hset]
    rw [ih, grammar.read_of_some hnext, parsed_cons]
    simp [apply, hset]
  | case3 a k hflag set hset =>
    have hkind := kind_value hflag hset
    have hnext : grammar.next [k] = none := by simp [Grammar.next, hkind]
    rw [grammar.read_of_none hnext]
    exact congrArg Except.error (if_pos hkind).symm
  | case4 a k hflag set hset v rest ih =>
    have hnext : grammar.next (k :: v :: rest) = some (⟨k, some v⟩, rest) := by
      simp [Grammar.next, kind_value hflag hset]
    rw [ih, grammar.read_of_some hnext, parsed_cons]
    simp [apply, hflag, hset]
  | case5 a k hflag hvalue set hset =>
    have hnext : grammar.next [k] = some (⟨k, none⟩, []) := by
      simp [Grammar.next, kind_port hflag hvalue hset]
    rw [grammar.read_of_some hnext, parsed_cons, grammar.read_of_none rfl]
    simp [parsed, apply, hflag, hvalue, hset]
  | case6 a k hflag hvalue set hset next rest port hport ih =>
    have haccepts : grammar.accepts next = true := by simp [grammar, hport]
    have hnext : grammar.next (k :: next :: rest) = some (⟨k, some next⟩, rest) := by
      simp [Grammar.next, kind_port hflag hvalue hset, haccepts]
    rw [ih, grammar.read_of_some hnext, parsed_cons]
    simp [apply, hflag, hvalue, hset, hport]
  | case7 a k hflag hvalue set hset next rest hport ih =>
    have haccepts : grammar.accepts next = false := by simp [grammar, hport]
    have hnext : grammar.next (k :: next :: rest) = some (⟨k, none⟩, next :: rest) := by
      simp [Grammar.next, kind_port hflag hvalue hset, haccepts]
    rw [ih, grammar.read_of_some hnext, parsed_cons]
    simp [apply, hflag, hvalue, hset]
  | case8 a k rest hflag hvalue hport =>
    have hkind := kind_unknown hflag hvalue hport
    have hnext : grammar.next (k :: rest) = none := by simp [Grammar.next, hkind]
    have hnot : kind k ≠ some .value := by
      rw [show kind k = none from hkind]
      intro hvalue
      cases hvalue
    rw [grammar.read_of_none hnext]
    exact congrArg Except.error (if_neg hnot).symm

/-! ## The law of the command line -/

/-- What a command line is: options that fit their kinds, or a word where no option is, which is
unknown or lacks its value. -/
structure ReadInOneWay (a : Args) (ws : List Bytes) : Prop where
  accepted : ∀ b, parse_args a ws = .ok b ↔
    ∃ os : List (Given Bytes), (∀ o ∈ os, grammar.Fits o) ∧ ws = os.flatMap Given.words ∧
      b = os.foldl apply a
  once : ∀ os os' : List (Given Bytes), (∀ o ∈ os, grammar.Fits o) → (∀ o ∈ os', grammar.Fits o) →
    ws = os.flatMap Given.words → ws = os'.flatMap Given.words → os = os'
  refused : ∀ message, parse_args a ws = .error message →
    ∃ (os : List (Given Bytes)) (k : Bytes) (rest : List Bytes),
      (∀ o ∈ os, grammar.Fits o) ∧ ws = os.flatMap Given.words ++ k :: rest ∧
      (kind k = none ∧ message = unknown_argument k ∨
        kind k = some .value ∧ rest = [] ∧ message = requires_value k)

theorem a_command_line_is_read_in_one_way (a : Args) (ws : List Bytes) : ReadInOneWay a ws := by
  obtain ⟨hfits, hws, hstop⟩ := grammar.read_spec ws
  refine ⟨fun b => ?_, fun os os' hos hos' h h' => ?_, fun message h => ?_⟩
  · rw [parse_args_eq]
    constructor
    · intro h
      cases hrest : (grammar.read ws).2 with
      | nil =>
        rw [hrest, List.append_nil] at hws
        simp only [parsed, hrest, Except.ok.injEq] at h
        exact ⟨_, hfits, hws, h.symm⟩
      | cons k rest => simp [parsed, hrest] at h
    · rintro ⟨os, hos, rfl, rfl⟩
      rw [grammar.read_words hos]
      rfl
  · exact grammar.words_injective hos hos' (h.symm.trans h')
  · rw [parse_args_eq] at h
    cases hrest : (grammar.read ws).2 with
    | nil => simp [parsed, hrest] at h
    | cons k rest =>
      rw [hrest] at hws hstop
      simp only [parsed, hrest, Except.error.injEq] at h
      refine ⟨_, k, rest, hfits, hws, ?_⟩
      rcases grammar.next_cons_none.mp hstop with hkind | ⟨hkind, hnil⟩
      · refine Or.inl ⟨hkind, ?_⟩
        have hnot : ¬ kind k = some .value := by simp [show kind k = none from hkind]
        rw [← h, refusal, if_neg hnot]
      · refine Or.inr ⟨hkind, hnil, ?_⟩
        have hvalue : kind k = some .value := hkind
        rw [← h, refusal, if_pos hvalue]

/-! ## The order of the options -/

theorem apply_cases (o : Given Bytes) :
    (∀ a, apply a o = a) ∨
      (∃ p ∈ flag_options, Bytes.lit p.1 = o.name ∧ ∀ a, apply a o = p.2 a) ∨
      (∃ p ∈ value_options, Bytes.lit p.1 = o.name ∧ ∃ v, ∀ a, apply a o = p.2 v a) ∨
      ∃ p ∈ port_options, Bytes.lit p.1 = o.name ∧ ∃ port, ∀ a, apply a o = p.2 port a := by
  unfold apply
  cases hflag : find flag_options o.name with
  | some set =>
    obtain ⟨name, hmem, hname⟩ := mem_of_find hflag
    exact Or.inr (Or.inl ⟨(name, set), hmem, hname, fun _ => rfl⟩)
  | none =>
    cases hvalue : find value_options o.name with
    | some set =>
      obtain ⟨name, hmem, hname⟩ := mem_of_find hvalue
      cases o.value with
      | none => exact Or.inl fun _ => rfl
      | some v => exact Or.inr (Or.inr (Or.inl ⟨(name, set), hmem, hname, v, fun _ => rfl⟩))
    | none =>
      cases hport : find port_options o.name with
      | some set =>
        obtain ⟨name, hmem, hname⟩ := mem_of_find hport
        refine Or.inr (Or.inr (Or.inr ⟨(name, set), hmem, hname, ?_⟩))
        cases o.value with
        | none => exact ⟨none, fun _ => rfl⟩
        | some next => exact ⟨port_argument next, fun _ => rfl⟩
      | none => exact Or.inl fun _ => rfl

theorem flags_comm : ∀ p ∈ flag_options, ∀ q ∈ flag_options, ∀ a, q.2 (p.2 a) = p.2 (q.2 a) := by
  intro p hp q hq a
  fin_cases hp <;> fin_cases hq <;> rfl

theorem flag_value_comm :
    ∀ p ∈ flag_options, ∀ q ∈ value_options, ∀ v a, q.2 v (p.2 a) = p.2 (q.2 v a) := by
  intro p hp q hq v a
  fin_cases hp <;> fin_cases hq <;> rfl

theorem flag_port_comm :
    ∀ p ∈ flag_options, ∀ q ∈ port_options, ∀ port a, q.2 port (p.2 a) = p.2 (q.2 port a) := by
  intro p hp q hq port a
  fin_cases hp <;> fin_cases hq <;> rfl

/-- Of two values for one option the later one stays, so the names have to differ. -/
theorem values_comm : ∀ p ∈ value_options, ∀ q ∈ value_options, p.1 ≠ q.1 →
    ∀ v w a, q.2 w (p.2 v a) = p.2 v (q.2 w a) := by
  intro p hp q hq hne v w a
  fin_cases hp <;> fin_cases hq <;> first | rfl | exact absurd rfl hne

theorem value_port_comm : ∀ p ∈ value_options, ∀ q ∈ port_options,
    ∀ v port a, q.2 port (p.2 v a) = p.2 v (q.2 port a) := by
  intro p hp q hq v port a
  fin_cases hp <;> fin_cases hq <;> rfl

theorem ports_comm : ∀ p ∈ port_options, ∀ q ∈ port_options, p.1 ≠ q.1 →
    ∀ port port' a, q.2 port' (p.2 port a) = p.2 port (q.2 port' a) := by
  intro p hp q hq hne port port' a
  fin_cases hp <;> fin_cases hq <;> first | rfl | exact absurd rfl hne

/-- Options of different names set different fields, or set the same one alike. -/
theorem apply_comm (a : Args) {o o' : Given Bytes} (h : o.name ≠ o'.name) :
    apply (apply a o) o' = apply (apply a o') o := by
  have hne : ∀ {s s' : String}, Bytes.lit s = o.name → Bytes.lit s' = o'.name → s ≠ s' := by
    rintro s s' hs hs' rfl
    exact h (hs.symm.trans hs')
  rcases apply_cases o with ho | ⟨p, hp, hname, ho⟩ | ⟨p, hp, hname, v, ho⟩ | ⟨p, hp, hname, v, ho⟩
  · rw [ho, ho]
  · rcases apply_cases o' with ho' | ⟨q, hq, hname', ho'⟩ | ⟨q, hq, hname', w, ho'⟩ |
      ⟨q, hq, hname', w, ho'⟩
    · rw [ho', ho']
    · rw [ho', ho, ho, ho', flags_comm p hp q hq]
    · rw [ho', ho, ho, ho', flag_value_comm p hp q hq]
    · rw [ho', ho, ho, ho', flag_port_comm p hp q hq]
  · rcases apply_cases o' with ho' | ⟨q, hq, hname', ho'⟩ | ⟨q, hq, hname', w, ho'⟩ |
      ⟨q, hq, hname', w, ho'⟩
    · rw [ho', ho']
    · rw [ho', ho, ho, ho', flag_value_comm q hq p hp]
    · rw [ho', ho, ho, ho', values_comm p hp q hq (hne hname hname')]
    · rw [ho', ho, ho, ho', value_port_comm p hp q hq]
  · rcases apply_cases o' with ho' | ⟨q, hq, hname', ho'⟩ | ⟨q, hq, hname', w, ho'⟩ |
      ⟨q, hq, hname', w, ho'⟩
    · rw [ho', ho']
    · rw [ho', ho, ho, ho', flag_port_comm q hq p hp]
    · rw [ho', ho, ho, ho', value_port_comm q hq p hp]
    · rw [ho', ho, ho, ho', ports_comm p hp q hq (hne hname hname')]

/-- The order of the options makes no difference, but for those of one name. -/
theorem options_come_in_any_order {a b : Args} {os os' : List (Given Bytes)}
    (hfits : ∀ o ∈ os, grammar.Fits o)
    (hsame : ∀ name, os.filter (fun o => o.name = name) = os'.filter fun o => o.name = name)
    (h : parse_args a (os.flatMap Given.words) = .ok b) :
    parse_args a (os'.flatMap Given.words) = .ok b := by
  have hfits' : ∀ o ∈ os', grammar.Fits o := by
    intro o ho
    have hmem : o ∈ os.filter fun o' => o'.name = o.name := by
      rw [hsame, List.mem_filter]
      exact ⟨ho, by simp⟩
    exact hfits o (List.mem_filter.mp hmem).1
  rw [parse_args_eq, grammar.read_words hfits] at h
  rw [parse_args_eq, grammar.read_words hfits', parsed,
    ← foldl_eq_of_filter_eq (fun a o o' hne => apply_comm a hne) hsame]
  exact h

/-- A server between two statements. -/
def a_server_between_statements : List (Given Bytes) :=
  [⟨Bytes.lit "-q", some (Bytes.lit "SELECT 1")⟩, ⟨Bytes.lit "--http", some (Bytes.lit "8080")⟩,
    ⟨Bytes.lit "-q", some (Bytes.lit "SELECT 2")⟩]

def a_server_before_statements : List (Given Bytes) :=
  [⟨Bytes.lit "--http", some (Bytes.lit "8080")⟩, ⟨Bytes.lit "-q", some (Bytes.lit "SELECT 1")⟩,
    ⟨Bytes.lit "-q", some (Bytes.lit "SELECT 2")⟩]

theorem a_server_comes_before_two_statements :
    parse_args {} (a_server_before_statements.flatMap Given.words) =
      .ok { sql := Bytes.lit "SELECT 2", http := true, http_port := 8080 } := by
  refine @options_come_in_any_order _ _ a_server_between_statements _ ?_ (fun name => ?_) ?_
  · decide +kernel
  · by_cases hq : Bytes.lit "-q" = name
    · subst hq
      decide +kernel
    · by_cases hhttp : Bytes.lit "--http" = name
      · subst hhttp
        decide +kernel
      · simp [a_server_between_statements, a_server_before_statements, hq, hhttp]
  · decide +kernel

end r2sql.cli
