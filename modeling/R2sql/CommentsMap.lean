-- The comments table over radare2's comments: after any sequence of writes a
-- SELECT lists a map of addresses to texts, the one that the same writes make
-- of the map at the start.
import R2sql.WritableTables
import R2sql.CommandLines
import R2sql.Lib.Keyed

namespace r2sql

open json_utils keyed command_line

/-! ## The comments of radare2 -/

/-- A comment, at an unsigned address as radare2 has it. -/
structure Comment where
  addr : UInt64
  text : Bytes
  deriving DecidableEq

/-- One comment for each address. -/
abbrev Comments := Table Comment.addr

/-- The commands that the comments table sends. -/
inductive CommentCommand where
  | set (text : Bytes) (addr : UInt64)
  | remove (addr : UInt64)
  | list
  | other
  deriving DecidableEq

namespace CommentCommand

/-- A verb with its arguments. `CCu` takes a text after `base64:`, and has none where that is not
base64. -/
def of_verb (v args : Bytes) : CommentCommand :=
  if v = Bytes.lit "CCu" then
    let word := verb args
    if word.take 7 = Bytes.lit "base64:" then
      match base64.decode (word.drop 7) with
      | none => .other
      | some text => .set text (address args).toUInt64
    else .other
  else if v = Bytes.lit "CC-" then .remove (address args).toUInt64
  else if v = Bytes.lit "CCj" then .list
  else .other

def parse (command : Bytes) : CommentCommand := of_verb (verb command) (arguments command)

/-- What a command does. -/
def exec (s : Comments) : CommentCommand → Comments
  | set text addr => s.put { addr := addr, text := text }
  | remove addr => s.erase addr
  | list | other => s

end CommentCommand

/-- radare2 on one command line. `CCj` prints all comments the way `print` does, and nothing reads
what the other commands print. -/
def comments_answer (print : List Comment → Bytes) (s : Comments) (command : Bytes) :
    Bytes × Comments :=
  let c := CommentCommand.parse command
  (if c = .list then print s.rows else [], c.exec s)

/-! ## The commands as radare2 reads them -/

theorem space_notMem_base64 (text : Bytes) : ' '.toUInt8 ∉ base64_encode text := by
  rw [base64_encode_eq]
  intro h
  rcases base64.mem_encode h with h | h
  · revert h
    decide +kernel
  · cases h

namespace CommentCommand

theorem parse_append {v : Bytes} (hv : ' '.toUInt8 ∉ v) (args : Bytes) :
    parse (v ++ ' '.toUInt8 :: args) = of_verb v args := by
  rw [parse, verb_append hv, arguments_append hv]

theorem parse_ccu (text : Bytes) (addr : Int64) :
    parse (ccu text addr) = .set text addr.toUInt64 := by
  let word := Bytes.lit "base64:" ++ base64_encode text
  have hword : ' '.toUInt8 ∉ word := by
    intro h
    rcases List.mem_append.mp h with h | h
    · revert h
      decide
    · exact space_notMem_base64 text h
  have hcommand : ccu text addr =
      Bytes.lit "CCu" ++ ' '.toUInt8 :: (word ++ (Bytes.lit " @ " ++ hex_addr addr)) := by
    simp only [ccu, word, List.append_assoc]
    rfl
  obtain ⟨hverb, haddr⟩ := name_at_append hword addr
  rw [hcommand, parse_append (by decide)]
  have htake : word.take 7 = Bytes.lit "base64:" := List.take_left' rfl
  have hdrop : word.drop 7 = base64.encode text := by
    rw [← base64_encode_eq]
    exact List.drop_left' rfl
  simp only [of_verb, if_true, hverb, haddr, htake, hdrop, base64.decode_encode]

theorem parse_cc_minus (addr : Int64) : parse (cc_minus addr) = .remove addr.toUInt64 := by
  have hcommand : cc_minus addr =
      Bytes.lit "CC-" ++ ' '.toUInt8 :: (Bytes.lit "@" ++ ' '.toUInt8 :: hex_addr addr) := rfl
  rw [hcommand, parse_append (by decide)]
  exact congrArg (fun a : Int64 => remove a.toUInt64) (address_append _ addr)

theorem parse_ccj : parse (Bytes.lit "CCj") = .list := by decide +kernel

end CommentCommand

/-! ## Writes on comments -/

/-- A write on the comments table. -/
inductive CommentOp where
  | insert (argv : List FunctionArg)
  | update (r : CommentRow) (v : Option Bytes)
  | delete (r : CommentRow)

/-- A map of signed addresses to texts. -/
abbrev CommentMap := Int64 → Option Bytes

/-- The comments as SQL has them. -/
def Comments.map (s : Comments) : CommentMap := fun addr =>
  (s.find addr.toUInt64).map Comment.text

namespace CommentOp

/-- radare2 after a write. -/
def step (print : List Comment → Bytes) (s : Comments) : CommentOp → Comments
  | insert argv => ((comments_insertable argv).play (comments_answer print) s).2
  | update r v => ((comments_text_setter r v).play (comments_answer print) s).2
  | delete r => ((comments_deletable r).play (comments_answer print) s).2

/-- What a write is meant to do: it sets or removes the text at its address. An INSERT without an
address or a text does nothing, and an UPDATE to null sets the empty text. -/
def meant (m : CommentMap) : CommentOp → CommentMap
  | insert argv =>
    match supplied argv 0, supplied argv 2 with
    | some a, some t => Function.update m a.as_int64 (some (t.as_c_str.getD []))
    | _, _ => m
  | update r v => Function.update m r.addr (some (v.getD []))
  | delete r => Function.update m r.addr none

end CommentOp

theorem toUInt64_inj {a b : Int64} : a.toUInt64 = b.toUInt64 ↔ a = b := by
  cases a
  cases b
  simp

namespace Comments

variable (s : Comments)

theorem map_put (addr : Int64) (text : Bytes) :
    Comments.map (s.put { addr := addr.toUInt64, text := text }) =
      Function.update s.map addr (some text) := by
  funext a
  rw [map, Table.find_put, Function.update_apply]
  simp only [toUInt64_inj]
  split <;> rfl

theorem map_erase (addr : Int64) :
    Comments.map (s.erase addr.toUInt64) = Function.update s.map addr none := by
  funext a
  rw [map, Table.find_erase, Function.update_apply]
  simp only [toUInt64_inj]
  split <;> rfl

end Comments

/-- A write does to radare2's comments what it is meant to do to the map. -/
theorem map_step (print : List Comment → Bytes) (s : Comments) (op : CommentOp) :
    (op.step print s).map = op.meant s.map := by
  cases op with
  | insert argv =>
    simp only [CommentOp.step, CommentOp.meant, comments_insertable]
    cases supplied argv 0 with
    | none => cases supplied argv 2 <;> rfl
    | some a =>
      cases supplied argv 2 with
      | none => rfl
      | some t =>
        simp only [Dialogue.play_bind, play_send, Dialogue.play_pure, List.foldl_cons,
          List.foldl_nil, comments_answer, CommentCommand.parse_ccu, CommentCommand.exec]
        exact Comments.map_put s _ _
  | update r v =>
    simp only [CommentOp.step, comments_text_setter, Dialogue.play_bind, play_send,
      Dialogue.play_pure, List.foldl_cons, List.foldl_nil, comments_answer,
      CommentCommand.parse_ccu, CommentCommand.exec]
    exact Comments.map_put s _ _
  | delete r =>
    simp only [CommentOp.step, comments_deletable, Dialogue.play_bind, play_send,
      Dialogue.play_pure, List.foldl_cons, List.foldl_nil, comments_answer,
      CommentCommand.parse_cc_minus, CommentCommand.exec]
    exact Comments.map_erase s _

theorem map_foldl_step (print : List Comment → Bytes) (s : Comments) (ops : List CommentOp) :
    (ops.foldl (CommentOp.step print) s).map = ops.foldl CommentOp.meant s.map := by
  induction ops generalizing s with
  | nil => rfl
  | cons op ops ih => rw [List.foldl_cons, List.foldl_cons, ih, map_step]

/-! ## What a SELECT lists -/

/-- The record of a comment: its address is an unsigned `offset`, and its text the `name`. -/
def IsComment (j : Json) (c : Comment) : Prop :=
  j.find (Bytes.lit "addr") = none ∧
    j.find (Bytes.lit "offset") = some (.number_unsigned c.addr) ∧
    j.find (Bytes.lit "name") = some (.string c.text)

section
variable [Nlohmann] (print : List Comment → Bytes)

/-- `CCj` lists a record for each comment, in some order, and the JSON library reads them. -/
def Comments.Listed (s : Comments) : Prop :=
  ∃ cs, cs.Perm s.rows ∧ List.Forall₂ IsComment (json_of_reply (print s.rows)).items cs

/-- The addresses and texts of a SELECT. -/
def Comments.selected (s : Comments) : List (Int64 × Bytes) :=
  (comments_cache_builder.play (comments_answer print) s).1.map fun r => (r.addr, r.text)

theorem columns_of_record {j : Json} {c : Comment} (h : IsComment j c) :
    (i64_addr j, str j (Bytes.lit "name")) = (c.addr.toInt64, c.text) := by
  obtain ⟨haddr, hoffset, hname⟩ := h
  simp only [i64_addr, haddr, i64, hoffset, str, hname]

theorem columns_of_records {js : List Json} {cs : List Comment}
    (h : List.Forall₂ IsComment js cs) :
    js.map (fun j => (i64_addr j, str j (Bytes.lit "name"))) =
      cs.map fun c => (c.addr.toInt64, c.text) := by
  induction h with
  | nil => rfl
  | cons hrecord _ ih => rw [List.map_cons, List.map_cons, columns_of_record hrecord, ih]

theorem selected_perm {s : Comments} (h : s.Listed print) :
    (s.selected print).Perm (s.rows.map fun c => (c.addr.toInt64, c.text)) := by
  obtain ⟨cs, hperm, hrecords⟩ := h
  have hselected : s.selected print = (json_of_reply (print s.rows)).items.map
      fun j => (i64_addr j, str j (Bytes.lit "name")) := by
    simp [Comments.selected, comments_cache_builder, comments_answer, CommentCommand.parse_ccj,
      Function.comp_def]
  rw [hselected, columns_of_records hrecords]
  exact hperm.map _

/-- The rows of a SELECT are the map, each address once. -/
theorem mem_selected_iff {s : Comments} (h : s.Listed print) (addr : Int64) (text : Bytes) :
    (addr, text) ∈ s.selected print ↔ s.map addr = some text := by
  rw [(selected_perm print h).mem_iff, Comments.map, Option.map_eq_some_iff]
  simp only [List.mem_map, Table.find_eq_some_iff, Prod.mk.injEq]
  constructor
  · rintro ⟨c, hc, rfl, rfl⟩
    exact ⟨c, ⟨hc, by simp⟩, rfl⟩
  · rintro ⟨c, ⟨hc, haddr⟩, rfl⟩
    exact ⟨c, hc, by rw [haddr]; simp, rfl⟩

theorem nodup_selected {s : Comments} (h : s.Listed print) :
    ((s.selected print).map Prod.fst).Nodup := by
  rw [((selected_perm print h).map Prod.fst).nodup_iff, List.map_map]
  have hsigned : s.rows.map (Prod.fst ∘ fun c => (c.addr.toInt64, c.text)) =
      (s.rows.map Comment.addr).map UInt64.toInt64 := by
    rw [List.map_map]
    rfl
  rw [hsigned]
  apply s.nodup.map
  intro a b hab
  simpa using congrArg Int64.toUInt64 hab

/-- After any writes, the rows of a SELECT are the map that the writes are meant to make of the one
at the start. -/
theorem comments_refine_the_map (s : Comments) (ops : List CommentOp)
    (h : (ops.foldl (CommentOp.step print) s).Listed print) :
    (((ops.foldl (CommentOp.step print) s).selected print).map Prod.fst).Nodup ∧
      ∀ addr text, (addr, text) ∈ (ops.foldl (CommentOp.step print) s).selected print ↔
        ops.foldl CommentOp.meant s.map addr = some text := by
  refine ⟨nodup_selected print h, fun addr text => ?_⟩
  rw [mem_selected_iff print h, map_foldl_step]

end

/-- The values of `INSERT INTO comments(addr, text) VALUES (-1, 'top')`. -/
def a_comment_at_the_top : List FunctionArg :=
  [{ is_null := false, as_int64 := -1, as_c_str := none, as_text := [] },
    { is_null := true, as_int64 := 0, as_c_str := none, as_text := [] },
    .text (Bytes.lit "top")]

/-- A library that reads the list of that comment. -/
@[reducible] def topJson : Nlohmann := .ofTexts
  [("[\x7b\"offset\":18446744073709551615,\"name\":\"top\"\x7d]", .array [.object
    [(Bytes.lit "offset", .number_unsigned 18446744073709551615),
      (Bytes.lit "name", .string (Bytes.lit "top"))]])]

/-- A comment at the highest address comes back at -1. -/
theorem the_comment_at_the_top_comes_back :
    letI := topJson
    let print : List Comment → Bytes := fun _ =>
      Bytes.lit "[\x7b\"offset\":18446744073709551615,\"name\":\"top\"\x7d]"
    (-1, Bytes.lit "top") ∈ (CommentOp.step print ⟨[], List.nodup_nil⟩
      (.insert a_comment_at_the_top)).selected print := by
  intro print
  let _ := topJson
  have hlisted : ([.insert a_comment_at_the_top].foldl (CommentOp.step print)
      ⟨[], List.nodup_nil⟩).Listed print :=
    ⟨_, List.Perm.refl _, List.Forall₂.cons ⟨rfl, rfl, rfl⟩ List.Forall₂.nil⟩
  exact ((comments_refine_the_map print _ _ hlisted).2 _ _).mpr (by decide +kernel)

end r2sql
