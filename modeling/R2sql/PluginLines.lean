-- The lines that radare2 gives to its plugins: how the commands of this one can
-- be written, and that no line can be read in two ways.
import R2sql.PluginServers

namespace r2sql.servers

open plugin (claimed statement server_tail skip_blanks)
open fronts (Stops)

/-! ## The grammar -/

def is_blank (c : UInt8) : Bool := c ∈ Bytes.lit " \t"

/-- A line as it is written: `sql`, blanks, a dot that can be left out, the blanks after the dot,
and a text. -/
structure Line where
  gap : Bytes
  dot : Option Bytes
  text : Bytes

/-- What comes after the blanks. -/
def Line.input (l : Line) : Bytes :=
  match l.dot with
  | some gap => '.'.toUInt8 :: (gap ++ l.text)
  | none => l.text

def Line.words (l : Line) : Bytes := Bytes.lit "sql" ++ (l.gap ++ l.input)

/-- A tab cannot come first after `sql`, and neither can a letter. -/
structure Line.Fits (l : Line) : Prop where
  gap : ∀ c ∈ l.gap, is_blank c = true
  dot_gap : ∀ gap ∈ l.dot, ∀ c ∈ gap, is_blank c = true
  text : Stops is_blank l.text
  no_dot : l.dot = none → l.text.head? ≠ some '.'.toUInt8
  front : ∀ c ∈ (l.gap ++ l.input).head?, c ∈ Bytes.lit " ?."

/-- The port that a text asks for. Port 0 leaves the choice to the server. -/
def Requests (text : Bytes) (port : Int) : Prop :=
  (∃ n : Nat, port = n ∧ 0 < n ∧ n ≤ 65535 ∧ BeginsWith n text) ∨
    port = 0 ∧ ∀ n : Nat, 0 < n → n ≤ 65535 → ¬ BeginsWith n text

/-- What can come after the name of a server, and what it asks for. -/
inductive Spells : Bytes → Subcommand → Prop
  | status {gap rest : Bytes} (blanks : ∀ c ∈ gap, is_blank c = true) :
    Spells (gap ++ '?'.toUInt8 :: rest) .status
  | stop {gap rest : Bytes} (blanks : ∀ c ∈ gap, is_blank c = true) :
    Spells (gap ++ '-'.toUInt8 :: rest) .stop
  | start {gap text : Bytes} {port : Int} (blanks : ∀ c ∈ gap, is_blank c = true)
    (stops : Stops is_blank text) (apart : gap ≠ [] ∨ text = [])
    (plain : text.head? ≠ some '?'.toUInt8 ∧ text.head? ≠ some '-'.toUInt8)
    (requests : Requests text port) : Spells (gap ++ text) (.start port)

/-- The help is asked for: there is no text, or it is a question mark with no blank between the dot
and it. -/
def Line.Help (l : Line) : Prop := l.text = [] ∨ l.text = Bytes.lit "?" ∧ ∀ gap ∈ l.dot, gap = []

/-- What a line asks for. -/
inductive Line.Asks (l : Line) : Command → Prop
  | help (help : l.Help) : l.Asks .help
  | server {t : Transport} {tail : Bytes} {c : Subcommand}
    (text : l.text = Bytes.lit t.word.2 ++ tail) (spells : Spells tail c) : l.Asks (.server t c)
  | statement (help : ¬ l.Help)
    (plain : ∀ (t : Transport) tail c, l.text = Bytes.lit t.word.2 ++ tail → ¬ Spells tail c) :
    l.Asks (.statement l.text)

/-! ## Subcommands -/

theorem skip_blanks_append {gap text : Bytes} (hgap : ∀ c ∈ gap, is_blank c = true)
    (htext : Stops is_blank text) : skip_blanks (gap ++ text) = text :=
  fronts.dropWhile_append hgap htext

theorem requested_port_of_beginsWith {n : Nat} {text : Bytes} (hpos : 0 < n) (hn : n ≤ 65535)
    (h : BeginsWith n text) : requested_port text = n := by
  have hstrtol := (strtol_eq_some_iff hpos (by omega) text).mpr h
  unfold requested_port
  rw [hstrtol]
  exact if_pos (by omega)

theorem requested_port_of_not {text : Bytes}
    (h : ∀ n : Nat, 0 < n → n ≤ 65535 → ¬ BeginsWith n text) : requested_port text = 0 := by
  unfold requested_port
  split
  · rename_i v hstrtol
    split
    · rename_i hv
      by_contra hne
      have hv' : v = (v.toNat : Int) := by omega
      rw [hv'] at hstrtol
      exact h v.toNat (by omega) (by omega)
        ((strtol_eq_some_iff (by omega) (by omega) text).mp hstrtol)
    · rfl
  · rfl

theorem requests_iff (text : Bytes) (port : Int) :
    Requests text port ↔ requested_port text = port := by
  constructor
  · rintro (⟨n, rfl, hpos, hn, h⟩ | ⟨rfl, h⟩)
    · exact requested_port_of_beginsWith hpos hn h
    · exact requested_port_of_not h
  · rintro rfl
    by_cases h : ∃ n : Nat, 0 < n ∧ n ≤ 65535 ∧ BeginsWith n text
    · obtain ⟨n, hpos, hn, h⟩ := h
      exact Or.inl ⟨n, requested_port_of_beginsWith hpos hn h, hpos, hn, h⟩
    · push Not at h
      exact Or.inr ⟨requested_port_of_not h, h⟩

/-- What can stand right after the name of a server. -/
def Follows (tail : Bytes) : Prop := ∀ a ∈ tail.head?, a ∈ Bytes.lit " \t-?"

theorem is_blank_iff {a : UInt8} : is_blank a = true ↔ a = ' '.toUInt8 ∨ a = '\t'.toUInt8 := by
  simp [is_blank, Bytes.lit]

theorem follower_cases :
    ∀ a ∈ Bytes.lit " \t-?", is_blank a = true ∨ a = '-'.toUInt8 ∨ a = '?'.toUInt8 := by
  decide +kernel

theorem follows_of_gap {gap text : Bytes} (hgap : ∀ c ∈ gap, is_blank c = true)
    (htext : gap = [] → Follows text) : Follows (gap ++ text) := by
  cases gap with
  | nil => exact htext rfl
  | cons a gap =>
    intro c hc
    obtain rfl : a = c := by simpa using hc
    rcases is_blank_iff.mp (hgap a List.mem_cons_self) with rfl | rfl <;> decide

theorem spells_iff (tail : Bytes) (c : Subcommand) :
    Spells tail c ↔ Follows tail ∧ subcommand_of tail = c := by
  have hstops : ∀ a : UInt8, is_blank a = false → ∀ rest, Stops is_blank (a :: rest) := by
    intro a ha rest b hb
    obtain rfl : a = b := by simpa using hb
    exact ha
  constructor
  · rintro (⟨hgap⟩ | ⟨hgap⟩ | ⟨hgap, htext, hapart, hplain, hport⟩)
    · refine ⟨follows_of_gap hgap fun _ a ha => ?_, ?_⟩
      · obtain rfl : '?'.toUInt8 = a := by simpa using ha
        decide
      · unfold subcommand_of
        rw [skip_blanks_append hgap (hstops _ (by decide) _)]
        rfl
    · refine ⟨follows_of_gap hgap fun _ a ha => ?_, ?_⟩
      · obtain rfl : '-'.toUInt8 = a := by simpa using ha
        decide
      · unfold subcommand_of
        rw [skip_blanks_append hgap (hstops _ (by decide) _)]
        rfl
    · refine ⟨follows_of_gap hgap fun hnil => ?_, ?_⟩
      · rw [hapart.resolve_left (not_not_intro hnil)]
        intro a ha
        cases ha
      · unfold subcommand_of
        rw [skip_blanks_append hgap htext]
        dsimp only
        rw [if_neg hplain.1, if_neg hplain.2, (requests_iff _ _).mp hport]
  · rintro ⟨hfollows, rfl⟩
    obtain ⟨gap, hgap, htail⟩ := fronts.exists_append is_blank tail
    have htext := fronts.stops_dropWhile is_blank tail
    have hskip : skip_blanks tail = tail.dropWhile is_blank := rfl
    unfold subcommand_of
    rw [hskip]
    generalize tail.dropWhile is_blank = text at htail htext
    subst htail
    dsimp only
    split_ifs with hstatus hstop
    · obtain ⟨rest, rfl⟩ := List.head?_eq_some_iff.mp hstatus
      exact .status hgap
    · obtain ⟨rest, rfl⟩ := List.head?_eq_some_iff.mp hstop
      exact .stop hgap
    · refine .start hgap htext ?_ ⟨hstatus, hstop⟩ ((requests_iff _ _).mpr rfl)
      by_contra h
      push Not at h
      obtain ⟨rfl, hne⟩ := h
      obtain ⟨a, rest, rfl⟩ := List.exists_cons_of_ne_nil hne
      have ha := hfollows a rfl
      have hblank := htext a rfl
      rcases follower_cases a ha with h | rfl | rfl
      · rw [h] at hblank
        cases hblank
      · exact hstop rfl
      · exact hstatus rfl

/-- The rest of a text that begins with a word, if the rest is what it should be. -/
theorem after_word_iff {word text tail : Bytes} {p : Bytes → Prop} [DecidablePred p] :
    (if word.isPrefixOf text then
        if p (text.drop word.length) then some (text.drop word.length) else none
      else none) = some tail ↔ text = word ++ tail ∧ p tail := by
  constructor
  · intro h
    split at h
    · rename_i hprefix
      split at h
      · rename_i hp
        cases h
        exact ⟨(List.prefix_iff_eq_append.mp (List.isPrefixOf_iff_prefix.mp hprefix)).symm, hp⟩
      · cases h
    · cases h
  · rintro ⟨rfl, hp⟩
    have hprefix : word.isPrefixOf (word ++ tail) = true :=
      List.isPrefixOf_iff_prefix.mpr (List.prefix_append _ _)
    rw [if_pos hprefix, List.drop_left, if_pos hp]

theorem server_tail_eq_some_iff {name : String} {text tail : Bytes} :
    server_tail name text = some tail ↔ text = Bytes.lit name ++ tail ∧ Follows tail :=
  after_word_iff (p := fun tail => ∀ a ∈ tail.head?, a ∈ Bytes.lit " \t-?")

theorem claimed_eq_some_iff {line rest : Bytes} :
    claimed line = some rest ↔
      line = Bytes.lit "sql" ++ rest ∧ ∀ c ∈ rest.head?, c ∈ Bytes.lit " ?." :=
  after_word_iff (p := fun rest => ∀ c ∈ rest.head?, c ∈ Bytes.lit " ?.")

/-! ## Lines -/

theorem Line.Fits.input {l : Line} (h : l.Fits) : Stops is_blank l.input := by
  unfold Line.input
  split
  · intro a ha
    obtain rfl : '.'.toUInt8 = a := by simpa using ha
    rfl
  · exact h.text

/-- The help is asked for where the input is one of the texts that `dispatch` compares it with, and
where no text is left. -/
theorem Line.Fits.help_iff {l : Line} (h : l.Fits) :
    l.Help ↔ l.input ∈ ["", "?", ".?", "."].map Bytes.lit ∨ l.text = [] := by
  obtain ⟨gap, dot, text⟩ := l
  unfold Line.Help Line.input
  cases dot with
  | none =>
    have hdot : ∀ rest, text ≠ '.'.toUInt8 :: rest := by
      rintro rest rfl
      exact h.no_dot rfl rfl
    simp [Bytes.lit, hdot]
    tauto
  | some dot_gap =>
    have hblank : is_blank '?'.toUInt8 = false := by decide
    have hgap := h.dot_gap dot_gap rfl
    cases dot_gap with
    | nil =>
      have hdot : '.'.toUInt8 ≠ '?'.toUInt8 := by decide
      simp [Bytes.lit, hdot]
      exact or_comm
    | cons a dot_gap =>
      have ha := hgap a List.mem_cons_self
      have hne : a ≠ '?'.toUInt8 := by
        rintro rfl
        rw [hblank] at ha
        cases ha
      simp [Bytes.lit, hne]

/-- What `dispatch` makes of the input: it takes the dot and the blanks after it off. -/
theorem Line.Fits.statement_eq {l : Line} (h : l.Fits) :
    statement (l.gap ++ l.input) =
      if l.input ∈ ["", "?", ".?", "."].map Bytes.lit then none
      else if l.text = [] then none else some l.text := by
  have htext : skip_blanks
      (if l.input.head? = some '.'.toUInt8 then l.input.tail else l.input) = l.text := by
    unfold Line.input
    cases hdot : l.dot with
    | none =>
      dsimp only
      rw [if_neg (h.no_dot hdot)]
      exact fronts.dropWhile_of_stops h.text
    | some dot_gap => exact skip_blanks_append (h.dot_gap dot_gap hdot) h.text
  unfold plugin.statement
  dsimp only
  rw [skip_blanks_append h.gap h.input, htext]

theorem claimed_words {l : Line} (h : l.Fits) : claimed l.words = some (l.gap ++ l.input) :=
  claimed_eq_some_iff.mpr ⟨rfl, h.front⟩

theorem exists_line {line rest : Bytes} (h : claimed line = some rest) :
    ∃ l : Line, l.Fits ∧ line = l.words := by
  obtain ⟨rfl, hfront⟩ := claimed_eq_some_iff.mp h
  obtain ⟨gap, hgap, hrest⟩ := fronts.exists_append is_blank rest
  have hinput := fronts.stops_dropWhile is_blank rest
  generalize rest.dropWhile is_blank = input at hrest hinput
  subst hrest
  by_cases hdot : input.head? = some '.'.toUInt8
  · obtain ⟨after, rfl⟩ := List.head?_eq_some_iff.mp hdot
    obtain ⟨dot_gap, hdot_gap, hafter⟩ := fronts.exists_append is_blank after
    have htext := fronts.stops_dropWhile is_blank after
    generalize after.dropWhile is_blank = text at hafter htext
    subst hafter
    exact ⟨⟨gap, some dot_gap, text⟩, ⟨hgap, by simpa using hdot_gap, htext, by simp, hfront⟩, rfl⟩
  · exact ⟨⟨gap, none, input⟩, ⟨hgap, by simp, hinput, fun _ => hdot, hfront⟩, rfl⟩

theorem words_injective {l l' : Line} (h : l.Fits) (h' : l'.Fits) (hwords : l.words = l'.words) :
    l = l' := by
  obtain ⟨hgap, hinput⟩ := fronts.append_injective h.gap h.input h'.gap h'.input
    (List.append_cancel_left hwords)
  obtain ⟨gap, dot, text⟩ := l
  obtain ⟨gap', dot', text'⟩ := l'
  dsimp only at hgap
  subst hgap
  rcases dot with _ | dot <;> rcases dot' with _ | dot' <;> dsimp only [Line.input] at hinput
  · rw [hinput]
  · exact absurd (by rw [hinput]; rfl) (h.no_dot rfl)
  · exact absurd (by rw [← hinput]; rfl) (h'.no_dot rfl)
  · obtain ⟨rfl, rfl⟩ := fronts.append_injective (h.dot_gap dot rfl) h.text (h'.dot_gap dot' rfl)
      h'.text (List.tail_eq_of_cons_eq hinput)
    rfl

theorem Line.Help.not_server {l : Line} (h : l.Help) {t : Transport} {tail : Bytes} :
    l.text ≠ Bytes.lit t.word.2 ++ tail := by
  intro htext
  rcases h with h | ⟨h, -⟩ <;> rw [h] at htext <;> cases t <;> cases htext

theorem server_names_differ {t t' : Transport} {tail tail' : Bytes}
    (h : Bytes.lit t.word.2 ++ tail = Bytes.lit t'.word.2 ++ tail') : t = t' ∧ tail = tail' := by
  cases t <;> cases t'
  · exact ⟨rfl, List.append_cancel_left h⟩
  · cases h
  · cases h
  · exact ⟨rfl, List.append_cancel_left h⟩

theorem Line.Fits.asks_iff {l : Line} (h : l.Fits) (c : Command) :
    l.Asks c ↔ command_of (l.gap ++ l.input) = c := by
  unfold command_of
  by_cases hhelp : l.Help
  · have hnone : plugin.statement (l.gap ++ l.input) = none := by
      rw [h.statement_eq]
      rcases h.help_iff.mp hhelp with hinput | htext
      · exact if_pos hinput
      · rw [if_pos htext, ite_self]
    rw [hnone]
    constructor
    · rintro (_ | ⟨htext, hspells⟩ | hnot)
      · rfl
      · exact absurd htext hhelp.not_server
      · exact absurd hhelp hnot
    · rintro rfl
      exact .help hhelp
  · have hsome : plugin.statement (l.gap ++ l.input) = some l.text := by
      obtain ⟨hinput, htext⟩ := not_or.mp fun hor => hhelp (h.help_iff.mpr hor)
      rw [h.statement_eq, if_neg hinput, if_neg htext]
    rw [hsome]
    dsimp only
    have hserver : ∀ {t tail}, server_tail t.word.2 l.text = some tail →
        (l.Asks c ↔ .server t (subcommand_of tail) = c) := by
      intro t tail htail
      obtain ⟨htext, hfollows⟩ := server_tail_eq_some_iff.mp htail
      have hspells := (spells_iff tail _).mpr ⟨hfollows, rfl⟩
      constructor
      · rintro (hnot | ⟨htext', hspells'⟩ | ⟨-, hplain⟩)
        · exact absurd hnot hhelp
        · obtain ⟨rfl, rfl⟩ := server_names_differ (htext.symm.trans htext')
          rw [((spells_iff _ _).mp hspells').2]
        · exact absurd hspells (hplain t tail _ htext)
      · rintro rfl
        exact .server htext hspells
    split
    · rename_i tail hhttp
      exact hserver (t := .http) hhttp
    · rename_i tail hhttp hmcp
      exact hserver (t := .mcp) hmcp
    · rename_i hhttp hmcp
      have hplain : ∀ (t : Transport) tail c, l.text = Bytes.lit t.word.2 ++ tail →
          ¬ Spells tail c := by
        intro t tail c htext hspells
        have htail := server_tail_eq_some_iff.mpr ⟨htext, ((spells_iff _ _).mp hspells).1⟩
        cases t with
        | http => exact Option.some_ne_none _ (htail.symm.trans hhttp)
        | mcp => exact Option.some_ne_none _ (htail.symm.trans hmcp)
      constructor
      · rintro (hnot | ⟨htext, hspells⟩ | -)
        · exact absurd hnot hhelp
        · exact absurd hspells (hplain _ _ _ htext)
        · rfl
      · rintro rfl
        exact .statement hhelp hplain

/-! ## The law of the lines -/

/-- How a line is read: what is written in it is what it asks for. -/
structure ReadAsWritten (line : Bytes) : Prop where
  claimed_iff : (claimed line).isSome ↔ ∃ l : Line, l.Fits ∧ line = l.words
  once : ∀ l l' : Line, l.Fits → l'.Fits → line = l.words → line = l'.words → l = l'
  asks : ∀ l : Line, l.Fits → line = l.words →
    ∀ c, (claimed line).map command_of = some c ↔ l.Asks c

/-- The statements that a line can bring. -/
structure Sendable (sql : Bytes) : Prop where
  nonempty : sql ≠ []
  stops : Stops is_blank sql
  plain : ∀ (t : Transport) tail c, sql = Bytes.lit t.word.2 ++ tail → ¬ Spells tail c

theorem read_as_written (line : Bytes) : ReadAsWritten line where
  claimed_iff := by
    constructor
    · intro h
      obtain ⟨rest, hrest⟩ := Option.isSome_iff_exists.mp h
      exact exists_line hrest
    · rintro ⟨l, hl, rfl⟩
      rw [claimed_words hl]
      rfl
  once l l' h h' hwords hwords' := words_injective h h' (hwords.symm.trans hwords')
  asks l h hwords c := by
    rw [hwords, claimed_words h, h.asks_iff c]
    simp

/-- A dot and a blank after it let every statement through. -/
theorem Sendable.fits {sql : Bytes} (h : Sendable sql) :
    let l : Line := ⟨[], some (Bytes.lit " "), sql⟩
    l.Fits ∧ l.Asks (.statement sql) := by
  have hgap : ∀ c ∈ Bytes.lit " ", is_blank c = true := by simp [Bytes.lit, is_blank]
  have hfront : ∀ c ∈ ('.'.toUInt8 :: (Bytes.lit " " ++ sql)).head?, c ∈ Bytes.lit " ?." := by
    intro c hc
    obtain rfl : '.'.toUInt8 = c := by simpa using hc
    decide
  refine ⟨⟨by simp, by simpa using hgap, h.stops, by simp, hfront⟩, .statement ?_ h.plain⟩
  rintro (hnil | ⟨-, hgap⟩)
  · exact h.nonempty hnil
  · cases hgap _ rfl

/-- The statements that lines can bring, and those that lines without a NUL can bring: a C string
has none. -/
theorem plugin_lines_are_read_in_one_way :
    (∀ line, ReadAsWritten line) ∧
      (∀ sql, (∃ line, (claimed line).map command_of = some (.statement sql)) ↔ Sendable sql) ∧
      ∀ sql, (∃ line, 0 ∉ line ∧ (claimed line).map command_of = some (.statement sql)) ↔
        0 ∉ sql ∧ Sendable sql := by
  have hbrings : ∀ {line sql}, (claimed line).map command_of = some (.statement sql) →
      Sendable sql ∧ ∀ c ∈ sql, c ∈ line := by
    intro line sql hline
    have hread := read_as_written line
    have hsome : (claimed line).isSome := by
      rw [← Option.isSome_map (f := command_of), hline]
      rfl
    obtain ⟨l, hl, hwords⟩ := hread.claimed_iff.mp hsome
    have hasks := (hread.asks l hl hwords _).mp hline
    have hmem : ∀ c ∈ l.text, c ∈ line := by
      intro c hc
      rw [hwords, Line.words, Line.input]
      cases l.dot <;> simp [hc]
    cases hasks with
    | statement hhelp hplain => exact ⟨⟨fun hnil => hhelp (.inl hnil), hl.text, hplain⟩, hmem⟩
  have hline : ∀ {sql}, Sendable sql →
      ∃ line, (∀ c ∈ line, c ∈ Bytes.lit "sql. " ∨ c ∈ sql) ∧
        (claimed line).map command_of = some (.statement sql) := by
    intro sql h
    obtain ⟨hfits, hasks⟩ := h.fits
    refine ⟨_, fun c hc => ?_, ((read_as_written _).asks _ hfits rfl _).mpr hasks⟩
    change c ∈ Bytes.lit "sql. " ++ sql at hc
    exact List.mem_append.mp hc
  refine ⟨read_as_written, fun sql => ⟨fun ⟨line, h⟩ => (hbrings h).1, fun h => ?_⟩, fun sql => ?_⟩
  · obtain ⟨line, -, hsends⟩ := hline h
    exact ⟨line, hsends⟩
  · constructor
    · rintro ⟨line, hnul, h⟩
      exact ⟨fun hmem => hnul ((hbrings h).2 0 hmem), (hbrings h).1⟩
    · rintro ⟨hnul, h⟩
      obtain ⟨line, hbytes, hsends⟩ := hline h
      exact ⟨line, fun hmem => (hbytes 0 hmem).elim (by decide) hnul, hsends⟩

end r2sql.servers
