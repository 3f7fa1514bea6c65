-- The laws of the xrefs pushdowns, against a radare2 that answers every
-- command from one relation of edges and one list of functions.
import R2sql.Xrefs
import R2sql.Lib.Walks

namespace r2sql

open json_utils walks

/-! ## The analysis behind the answers -/

structure Edge where
  src : Int64
  dst : Int64
  type : Bytes
  deriving DecidableEq

structure Func where
  addr : Int64
  name : Bytes
  deriving DecidableEq

/-- What radare2 knows: the edges, the functions, and the addresses that each function holds. For an
address it names one function that holds it, if there is one. -/
structure Analysis where
  edges : List Edge
  funcs : List Func
  holds : Func → Int64 → Bool
  owner : Int64 → Option Func
  owner_holds : ∀ a f, owner a = some f → f ∈ funcs ∧ holds f a
  owner_none : ∀ a, owner a = none → ∀ f ∈ funcs, holds f a = false

/-- The name that radare2 gives for an address, empty where there is no function. -/
def Analysis.owner_name (w : Analysis) (a : Int64) : Bytes :=
  match w.owner a with
  | some f => f.name
  | none => []

/-- How many listed functions hold the address. -/
def Analysis.holders (w : Analysis) (a : Int64) : Nat := w.funcs.countP fun f => w.holds f a

section
variable [Nlohmann]

/-- The reply is an array that has one record for each of the values, in some order. -/
def Lists {α : Type} (reply : Bytes) (values : List α) (record : Json → α → Prop) : Prop :=
  ∃ vs, vs.Perm values ∧ List.Forall₂ record (json_of_reply reply).items vs

/-- The backend answers from the analysis. -/
structure Answers (be : Backend) (w : Analysis) : Prop where
  aflj : List.Forall₂ (fun j f => i64_addr j = f.addr ∧ str j (Bytes.lit "name") = f.name)
    (json_of_reply (be (Bytes.lit "aflj"))).items w.funcs
  afxj : ∀ f ∈ w.funcs,
    Lists (be (at_addr "afxj" f.addr)) (w.edges.filter fun e => w.holds f e.src) fun j e =>
      i64 j (Bytes.lit "from") = e.src ∧ i64 j (Bytes.lit "to") = e.dst ∧
        str j (Bytes.lit "type") = e.type
  axtj : ∀ a, Lists (be (at_addr "axtj" a)) (w.edges.filter fun e => e.dst = a) fun j e =>
    i64 j (Bytes.lit "from") = e.src ∧ str j (Bytes.lit "type") = e.type ∧
      str j (Bytes.lit "fcn_name") = w.owner_name e.src
  axfj : ∀ a, Lists (be (at_addr "axfj" a)) (w.edges.filter fun e => e.src = a) fun j e =>
    i64 j (Bytes.lit "from") a = e.src ∧ i64 j (Bytes.lit "to") = e.dst ∧
      str j (Bytes.lit "type") = e.type ∧ str j (Bytes.lit "fcn_name") = w.owner_name e.src
  afij : ∀ a, name_in_info (json_of_reply (be (at_addr "afij" a))) = w.owner_name a

theorem map_items_of_lists {α β : Type} {reply : Bytes} {values : List α} {record : Json → α → Prop}
    (h : Lists reply values record) (g : Json → β) (row : α → β)
    (hg : ∀ j v, v ∈ values → record j v → g j = row v) :
    ((json_of_reply reply).items.map g).Perm (values.map row) := by
  obtain ⟨vs, hperm, hall⟩ := h
  have hmap : (json_of_reply reply).items.map g = vs.map row := by
    have hmem : ∀ v ∈ vs, v ∈ values := fun v hv => hperm.mem_iff.mp hv
    clear hperm
    generalize (json_of_reply reply).items = js at hall
    induction hall with
    | nil => rfl
    | @cons j v js vs hjv _ ih =>
      rw [List.map_cons, List.map_cons, hg j v (hmem v (by simp)) hjv,
        ih fun u hu => hmem u (by simp [hu])]
  rw [hmap]
  exact hperm.map row

end

/-- The row of an edge under the name of a function. -/
def edge_row (e : Edge) (name : Bytes) : XrefRow :=
  { from_addr := e.src, to_addr := e.dst, type := e.type, from_func := name }

/-- The rows that the full scan should have: the edges of each function under its name. -/
def scan_rows (w : Analysis) (edges : List Edge) : List XrefRow :=
  byGroup w.funcs edges Edge.src w.holds fun f e => edge_row e f.name

/-- The rows that a pushdown should have: each edge under the name of its owner. -/
def owned_rows (w : Analysis) (edges : List Edge) : List XrefRow :=
  edges.map fun e => edge_row e (w.owner_name e.src)

theorem scan_rows_perm_owned_rows_iff (w : Analysis) (edges : List Edge) :
    (scan_rows w edges).Perm (owned_rows w edges) ↔ ∀ e ∈ edges, w.holders e.src = 1 := by
  apply byGroup_perm_direct_iff w.funcs edges Edge.src w.holds (fun f e => edge_row e f.name)
    XrefRow.from_addr _ (fun _ _ => rfl) (fun _ => rfl)
  intro e _ g hg
  have hmem : ∀ f, f ∈ w.funcs ∧ w.holds f e.src = true ↔ f = g := by
    intro f
    rw [← List.mem_filter (p := fun f => w.holds f e.src), hg, List.mem_singleton]
  unfold Analysis.owner_name
  split
  · rename_i f hf
    rw [(hmem f).mp (w.owner_holds _ f hf)]
  · rename_i hnone
    obtain ⟨hin, hholds⟩ := (hmem g).mpr rfl
    rw [w.owner_none _ hnone g hin] at hholds
    cases hholds

/-! ## The rows of the two ways -/

section
variable [Nlohmann]

/-- The rows of a full scan. -/
def xrefs_rows (be : Backend) : List XrefRow := xrefs_cache_builder.value be

/-- The rows of the pushdown `to_addr = a`. -/
def xrefs_where_to (be : Backend) (a : Int64) : List XrefRow :=
  ((XrefsToIterator a).value be).delivered.map Prod.snd

/-- The rows of the pushdown `from_addr = a`. -/
def xrefs_where_from (be : Backend) (a : Int64) : List XrefRow :=
  ((XrefsFromIterator a).value be).delivered.map Prod.snd

variable {be : Backend} {w : Analysis}

theorem full_scan_of_answers (h : Answers be w) : (xrefs_rows be).Perm (scan_rows w w.edges) := by
  have hrows : xrefs_rows be =
      (json_of_reply (be (Bytes.lit "aflj"))).items.flatMap fun f =>
        (json_of_reply (be (at_addr "afxj" (i64_addr f)))).items.map fun j =>
          edge_row ⟨i64 j (Bytes.lit "from"), i64 j (Bytes.lit "to"), str j (Bytes.lit "type")⟩
            (str f (Bytes.lit "name")) := by
    simp [xrefs_rows, xrefs_cache_builder, edge_row, List.flatMap]
  rw [hrows]
  unfold scan_rows byGroup
  have hafxj := h.afxj
  have haflj := h.aflj
  generalize (json_of_reply (be (Bytes.lit "aflj"))).items = js at haflj
  generalize w.funcs = funcs at haflj hafxj
  induction haflj with
  | nil => rfl
  | @cons j f js funcs hjf _ ih =>
    rw [List.flatMap_cons, List.flatMap_cons, hjf.1, hjf.2]
    refine List.Perm.append ?_ (ih fun g hg => hafxj g (by simp [hg]))
    apply map_items_of_lists (hafxj f (by simp))
    rintro j' e - ⟨h1, h2, h3⟩
    rw [h1, h2, h3]

theorem where_to_of_answers (h : Answers be w) (a : Int64) :
    (xrefs_where_to be a).Perm (owned_rows w (w.edges.filter fun e => e.dst = a)) := by
  simp only [xrefs_where_to, XrefsToIterator, Dialogue.value_map, VecIterator.delivered_rows,
    xrefs_to_addr, Dialogue.value_bind, value_cmd_json, Dialogue.value_pure]
  apply map_items_of_lists (h.axtj a)
  rintro j e he ⟨h1, h2, h3⟩
  have hdst : e.dst = a := by simpa using (List.mem_filter.mp he).2
  rw [h1, h2, h3, ← hdst]
  rfl

theorem where_from_of_answers (h : Answers be w) (a : Int64) :
    (xrefs_where_from be a).Perm (owned_rows w (w.edges.filter fun e => e.src = a)) := by
  simp only [xrefs_where_from, XrefsFromIterator, Dialogue.value_map, VecIterator.delivered_rows,
    xrefs_from_addr_value]
  apply map_items_of_lists (h.axfj a)
  rintro j e he ⟨h1, h2, h3, h4⟩
  have hsrc : e.src = a := by simpa using (List.mem_filter.mp he).2
  have hname : (function_name_at a).value be = w.owner_name e.src := by
    rw [hsrc]
    exact h.afij a
  simp only [from_row, h1, h2, h3, h4, hname, ite_self]
  rfl

/-- A filter of the full scan that speaks of the edges, as the walk over the functions. -/
theorem filter_scan_of_answers (h : Answers be w) (p : XrefRow → Prop) (q : Edge → Prop)
    [DecidablePred p] [DecidablePred q] (hpq : ∀ e name, p (edge_row e name) ↔ q e) :
    ((xrefs_rows be).filter p).Perm (scan_rows w (w.edges.filter q)) := by
  refine ((full_scan_of_answers h).filter _).trans (List.Perm.of_eq ?_)
  exact filter_byGroup _ _ _ _ _ _ q fun f e => hpq e f.name

/-! ## The law -/

/-- The pushdown on `to_addr` gives the rows of the full scan exactly when one listed function, and
no more, holds the source of each edge into the address. The pushdown on `from_addr` gives them
exactly when one listed function holds the source of each edge out of it. -/
theorem a_pushdown_needs_one_function_for_each_source (h : Answers be w) (a : Int64) :
    (((xrefs_rows be).filter fun r => r.to_addr = a).Perm (xrefs_where_to be a) ↔
        ∀ e ∈ w.edges, e.dst = a → w.holders e.src = 1) ∧
      (((xrefs_rows be).filter fun r => r.from_addr = a).Perm (xrefs_where_from be a) ↔
        ∀ e ∈ w.edges, e.src = a → w.holders e.src = 1) := by
  constructor
  · rw [(filter_scan_of_answers h _ (fun e => e.dst = a) fun _ _ => Iff.rfl).congr_left,
      (where_to_of_answers h a).congr_right, scan_rows_perm_owned_rows_iff]
    simp
  · rw [(filter_scan_of_answers h _ (fun e => e.src = a) fun _ _ => Iff.rfl).congr_left,
      (where_from_of_answers h a).congr_right, scan_rows_perm_owned_rows_iff]
    simp

end

/-! ## One call, from a function or from none -/

@[reducible] def callJson : Nlohmann := .ofTexts
  [("[]", .array []),
    ("[\x7b\"addr\":32,\"name\":\"main\"\x7d]", .array [.object
      [(Bytes.lit "addr", .number_unsigned 32), (Bytes.lit "name", .string (Bytes.lit "main"))]]),
    ("[\x7b\"from\":32,\"to\":16,\"type\":\"CALL\"\x7d]", .array [.object
      [(Bytes.lit "from", .number_unsigned 32), (Bytes.lit "to", .number_unsigned 16),
        (Bytes.lit "type", .string (Bytes.lit "CALL"))]]),
    ("[\x7b\"from\":32,\"to\":16,\"type\":\"CALL\",\"fcn_name\":\"main\"\x7d]", .array [.object
      [(Bytes.lit "from", .number_unsigned 32), (Bytes.lit "to", .number_unsigned 16),
        (Bytes.lit "type", .string (Bytes.lit "CALL")),
        (Bytes.lit "fcn_name", .string (Bytes.lit "main"))]])]

def main_func : Func := { addr := 32, name := Bytes.lit "main" }

/-- One call from 0x20 to 0x10. The function `main` holds 0x20 and no other address, where it is
listed. -/
def callAnalysis (listed : Bool) : Analysis where
  edges := [{ src := 32, dst := 16, type := Bytes.lit "CALL" }]
  funcs := if listed then [main_func] else []
  holds _ a := a = 32
  owner a := if listed ∧ a = 32 then some main_func else none
  owner_holds a f h := by
    by_cases hl : listed ∧ a = 32
    · rw [if_pos hl] at h
      cases h
      simp [hl.1, hl.2]
    · rw [if_neg hl] at h
      cases h
  owner_none a h f hf := by
    cases listed with
    | false => cases hf
    | true => simpa using h

/-- What radare2 answers about the call. -/
def callBackend (listed : Bool) : Backend := fun command =>
  let func := Bytes.lit "[\x7b\"addr\":32,\"name\":\"main\"\x7d]"
  let ref := Bytes.lit "[\x7b\"from\":32,\"to\":16,\"type\":\"CALL\"\x7d]"
  let named := Bytes.lit "[\x7b\"from\":32,\"to\":16,\"type\":\"CALL\",\"fcn_name\":\"main\"\x7d]"
  if command = Bytes.lit "aflj" then if listed then func else Bytes.lit "[]"
  else if command = at_addr "afxj" 32 then if listed then ref else Bytes.lit "[]"
  else if command = at_addr "axtj" 16 then if listed then named else ref
  else if command = at_addr "axfj" 32 then if listed then named else ref
  else if command = at_addr "afij" 32 then if listed then func else Bytes.lit "[]"
  else Bytes.lit "[]"

/-- The backend has something to say about the five commands only. -/
theorem callBackend_else (listed : Bool) (c : String) (a : Int64)
    (hlen : (Bytes.lit c).length = 4) (hafxj : Bytes.lit c = Bytes.lit "afxj" → a ≠ 32)
    (haxtj : Bytes.lit c = Bytes.lit "axtj" → a ≠ 16)
    (haxfj : Bytes.lit c = Bytes.lit "axfj" → a ≠ 32)
    (hafij : Bytes.lit c = Bytes.lit "afij" → a ≠ 32) :
    callBackend listed (at_addr c a) = Bytes.lit "[]" := by
  have hne : ∀ d b, (Bytes.lit d).length = 4 → (Bytes.lit c = Bytes.lit d → a ≠ b) →
      at_addr c a ≠ at_addr d b := by
    intro d b hd hdiff h
    obtain ⟨hname, haddr⟩ := at_addr_inj (hlen.trans hd.symm) h
    exact hdiff hname haddr
  have haflj : at_addr c a ≠ Bytes.lit "aflj" := by
    intro h
    have hl := congrArg List.length h
    have h4 : (Bytes.lit "aflj").length = 4 := rfl
    have h3 : (Bytes.lit " @ ").length = 3 := rfl
    simp only [at_addr, List.length_append, hlen, h3, h4] at hl
    omega
  unfold callBackend
  simp only [if_neg haflj, if_neg (hne "afxj" 32 rfl hafxj), if_neg (hne "axtj" 16 rfl haxtj),
    if_neg (hne "axfj" 32 rfl haxfj), if_neg (hne "afij" 32 rfl hafij)]

theorem callBackend_answers (listed : Bool) :
    letI := callJson
    Answers (callBackend listed) (callAnalysis listed) := by
  let _ := callJson
  have hnothing : (json_of_reply (Bytes.lit "[]")).items = [] := rfl
  constructor
  · cases listed with
    | false => exact List.Forall₂.nil
    | true => exact List.Forall₂.cons ⟨rfl, rfl⟩ List.Forall₂.nil
  · intro f hf
    cases listed with
    | false => cases hf
    | true =>
      rw [List.mem_singleton.mp hf]
      exact ⟨_, List.Perm.refl _, List.Forall₂.cons ⟨rfl, rfl, rfl⟩ List.Forall₂.nil⟩
  · intro a
    by_cases ha : a = 16
    · subst ha
      refine ⟨_, List.Perm.refl _, ?_⟩
      cases listed <;> exact List.Forall₂.cons ⟨rfl, rfl, rfl⟩ List.Forall₂.nil
    · rw [callBackend_else listed "axtj" a rfl (absurd · (by decide)) (fun _ => ha)
        (absurd · (by decide)) (absurd · (by decide))]
      refine ⟨[], ?_, List.Forall₂.nil⟩
      simp [callAnalysis, Ne.symm ha]
  · intro a
    by_cases ha : a = 32
    · subst ha
      refine ⟨_, List.Perm.refl _, ?_⟩
      cases listed <;> exact List.Forall₂.cons ⟨rfl, rfl, rfl, rfl⟩ List.Forall₂.nil
    · rw [callBackend_else listed "axfj" a rfl (absurd · (by decide)) (absurd · (by decide))
        (fun _ => ha) (absurd · (by decide))]
      refine ⟨[], ?_, List.Forall₂.nil⟩
      simp [callAnalysis, Ne.symm ha]
  · intro a
    by_cases ha : a = 32
    · subst ha
      cases listed <;> rfl
    · rw [callBackend_else listed "afij" a rfl (absurd · (by decide)) (absurd · (by decide))
        (absurd · (by decide)) fun _ => ha]
      have howner : (callAnalysis listed).owner_name a = [] := by
        simp [Analysis.owner_name, callAnalysis, ha]
      rw [howner]
      rfl

/-- With `main` listed, both pushdowns find the call that the full scan finds. -/
theorem a_call_of_main_is_found_by_both :
    letI := callJson
    ((xrefs_rows (callBackend true)).filter fun r => r.to_addr = 16).Perm
        (xrefs_where_to (callBackend true) 16) ∧
      ((xrefs_rows (callBackend true)).filter fun r => r.from_addr = 32).Perm
        (xrefs_where_from (callBackend true) 32) := by
  let _ := callJson
  have hone : ∀ e ∈ (callAnalysis true).edges, (callAnalysis true).holders e.src = 1 := by decide
  exact ⟨(a_pushdown_needs_one_function_for_each_source (callBackend_answers true) 16).1.mpr
      fun e he _ => hone e he,
    (a_pushdown_needs_one_function_for_each_source (callBackend_answers true) 32).2.mpr
      fun e he _ => hone e he⟩

/-- With no function listed, the pushdown on `to_addr` finds a call that the full scan does not. -/
theorem a_full_scan_misses_a_call_of_no_function :
    letI := callJson
    Answers (callBackend false) (callAnalysis false) ∧
      ¬ ((xrefs_rows (callBackend false)).filter fun r => r.to_addr = 16).Perm
        (xrefs_where_to (callBackend false) 16) := by
  let _ := callJson
  refine ⟨callBackend_answers false, fun h => ?_⟩
  have hscan : xrefs_rows (callBackend false) = [] := rfl
  have hpush : xrefs_where_to (callBackend false) 16 =
      [{ from_addr := 32, to_addr := 16, type := Bytes.lit "CALL", from_func := [] }] := rfl
  rw [hscan, hpush] at h
  exact absurd h.length_eq (by decide)

end r2sql
