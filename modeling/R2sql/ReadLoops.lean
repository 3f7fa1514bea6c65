-- The reading loops of the two pipe backends: a reply does not depend on how
-- the bytes of the pipe come in chunks, nor on the platform.
import R2sql.R2PipeReplies

namespace r2sql

/-! ## The backend on Windows -/

/-- The members of `R2PipeWinBackend` that `cmd` reads: the two ends of the pipes, 0 for a null
handle. -/
structure R2PipeWinBackend where
  stdin_ : Nat
  stdout_ : Nat
  deriving DecidableEq

/-- `static_cast<DWORD>(-1)`. -/
def no_nul : UInt32 := 0xffffffff

/-- The search for a NUL in the buffer, from index `i`, on the DWORDs of Windows. -/
def find_nul_dword (i : UInt32) : Bytes → UInt32
  | [] => no_nul
  | c :: buf => if c = 0 then i else find_nul_dword (i + 1) buf

/-- The reading loop of `cmd` on Windows. A call of `ReadFile` that answers FALSE is an error, and
one that gets 0 bytes is the end of the stream. -/
def win_read_loop (out : Bytes) : List ReadResult → Option (Bytes × List ReadResult)
  | [] => none
  | .fail :: reads => some (out, reads)
  | .chunk buf :: reads =>
    if buf = [] then some (out, reads)
    else
      let nul := find_nul_dword 0 buf
      if nul ≠ no_nul then some (out ++ buf.take nul.toNat, reads)
      else win_read_loop (out ++ buf) reads

namespace R2PipeWinBackend

/-- `!stdin_ || !stdout_`. -/
def closed (be : R2PipeWinBackend) : Bool := be.stdin_ = 0 || be.stdout_ = 0

/-- `R2PipeWinBackend::cmd`, where `WriteFile` answers `ok` and sets `written`. -/
def cmd (be : R2PipeWinBackend) (command : Bytes) (ok : Bool) (written : UInt32)
    (reads : List ReadResult) : Option (Bytes × List ReadResult) :=
  if be.closed then some ([], reads)
  else if ok = false ∨ written.toNat ≠ (R2PipePosixBackend.line command).length then
    some ([], reads)
  else win_read_loop [] reads

end R2PipeWinBackend

/-! ## What the calls of `read` give -/

/-- What one successful call of `read` gives: one byte at least, and no more than the buffer
holds. -/
structure Chunk where
  bytes : Bytes
  ne_nil : bytes ≠ []
  length_le : bytes.length ≤ 4096

/-- The result of `read` after the last chunk. -/
inductive Ending where
  | failure
  | eof

def Ending.result : Ending → ReadResult
  | failure => .fail
  | eof => .chunk []

/-- The bytes of the chunks, one after another. -/
def stream (chunks : List Chunk) : Bytes := chunks.flatMap Chunk.bytes

/-- The results of the calls of `read`. With no ending there is nothing more to read for now. -/
def results (chunks : List Chunk) (ending : Option Ending) : List ReadResult :=
  chunks.map (fun c => .chunk c.bytes) ++ (ending.map Ending.result).toList

/-- The bytes before the first NUL, and all of them where there is none. -/
def before_nul (s : Bytes) : Bytes := s.takeWhile fun b => b ≠ 0

/-- The text that the loop should give, and the results that it should leave alone: the bytes before
the first NUL and the results after its chunk, or else all bytes where the reads end. -/
def reassembled (chunks : List Chunk) (ending : Option Ending) :
    Option (Bytes × List ReadResult) :=
  if 0 ∈ stream chunks then
    some (before_nul (stream chunks), results (chunks.dropWhile fun c => 0 ∉ c.bytes).tail ending)
  else ending.map fun _ => (stream chunks, [])

/-! ## The first NUL -/

theorem before_nul_append_nul {text : Bytes} (h : 0 ∉ text) (rest : Bytes) :
    before_nul (text ++ 0 :: rest) = text := by
  unfold before_nul
  rw [List.takeWhile_append_of_pos fun b hb => by simpa using ne_of_mem_of_not_mem hb h]
  simp

theorem before_nul_append {s : Bytes} (h : 0 ∉ s) (t : Bytes) :
    before_nul (s ++ t) = s ++ before_nul t := by
  unfold before_nul
  exact List.takeWhile_append_of_pos fun b hb => by simpa using ne_of_mem_of_not_mem hb h

/-! ## The two searches -/

theorem find_nul_dword_of_not_mem (i : UInt32) {buf : Bytes} (h : 0 ∉ buf) :
    find_nul_dword i buf = no_nul := by
  induction buf generalizing i with
  | nil => rfl
  | cons c buf ih =>
    rw [List.mem_cons, not_or] at h
    rw [find_nul_dword, if_neg (Ne.symm h.1), ih _ h.2]

/-- In a buffer below 4 GiB, no index is the one that stands for no NUL. -/
theorem toNat_find_nul_dword (i : UInt32) {text : Bytes} (h : 0 ∉ text) (rest : Bytes)
    (hlen : i.toNat + text.length < 2 ^ 32) :
    (find_nul_dword i (text ++ 0 :: rest)).toNat = i.toNat + text.length := by
  induction text generalizing i with
  | nil => simp [find_nul_dword]
  | cons c text ih =>
    rw [List.mem_cons, not_or] at h
    rw [List.length_cons] at hlen
    have hnext : (i + 1).toNat = i.toNat + 1 := by
      rw [UInt32.toNat_add, UInt32.toNat_one]
      omega
    rw [List.cons_append, find_nul_dword, if_neg (Ne.symm h.1), ih _ h.2 (by omega), hnext,
      List.length_cons]
    omega

/-! ## One turn of the loops -/

section
variable (out : Bytes) (c : Chunk) (reads : List ReadResult)

theorem read_loop_chunk :
    read_loop out (.chunk c.bytes :: reads) =
      if 0 ∈ c.bytes then some (out ++ before_nul c.bytes, reads)
      else read_loop (out ++ c.bytes) reads := by
  rw [read_loop, if_neg c.ne_nil]
  by_cases h : 0 ∈ c.bytes
  · obtain ⟨text, rest, hbuf, hfree⟩ := List.eq_append_cons_of_mem h
    rw [if_pos h, hbuf, before_nul_append_nul hfree, find_nul_append 0 hfree]
    simp
  · rw [if_neg h, find_nul_of_not_mem 0 h]
    rfl

theorem win_read_loop_chunk :
    win_read_loop out (.chunk c.bytes :: reads) =
      if 0 ∈ c.bytes then some (out ++ before_nul c.bytes, reads)
      else win_read_loop (out ++ c.bytes) reads := by
  rw [win_read_loop, if_neg c.ne_nil]
  by_cases h : 0 ∈ c.bytes
  · obtain ⟨text, rest, hbuf, hfree⟩ := List.eq_append_cons_of_mem h
    have hlen : text.length < 4096 := by
      have hle := c.length_le
      rw [hbuf, List.length_append, List.length_cons] at hle
      omega
    have hindex : (find_nul_dword 0 c.bytes).toNat = text.length := by
      rw [hbuf, toNat_find_nul_dword 0 hfree rest (by rw [UInt32.toNat_zero]; omega),
        UInt32.toNat_zero, Nat.zero_add]
    have hfound : find_nul_dword 0 c.bytes ≠ no_nul := by
      intro hnone
      rw [hnone, show no_nul.toNat = 4294967295 from rfl] at hindex
      omega
    dsimp only
    rw [if_pos h, if_pos hfound, hindex, hbuf, before_nul_append_nul hfree, List.take_left]
  · rw [if_neg h, find_nul_dword_of_not_mem 0 h]
    simp

end

/-! ## Whole replies -/

theorem stream_cons (c : Chunk) (chunks : List Chunk) :
    stream (c :: chunks) = c.bytes ++ stream chunks := rfl

theorem results_cons (c : Chunk) (chunks : List Chunk) (ending : Option Ending) :
    results (c :: chunks) ending = .chunk c.bytes :: results chunks ending := rfl

/-- With a NUL in the first chunk, nothing after it is read. -/
theorem reassembled_cons_of_mem {c : Chunk} (h : 0 ∈ c.bytes) (chunks : List Chunk)
    (ending : Option Ending) :
    reassembled (c :: chunks) ending = some (before_nul c.bytes, results chunks ending) := by
  obtain ⟨text, rest, hbuf, hfree⟩ := List.eq_append_cons_of_mem h
  have hbefore : before_nul (stream (c :: chunks)) = before_nul c.bytes := by
    rw [stream_cons, hbuf, List.append_assoc, List.cons_append, before_nul_append_nul hfree,
      before_nul_append_nul hfree]
  rw [reassembled, if_pos (by rw [stream_cons]; exact List.mem_append_left _ h), hbefore,
    List.dropWhile_cons_of_neg (by simpa using h), List.tail_cons]

theorem reassembled_cons_of_not_mem {c : Chunk} (h : 0 ∉ c.bytes) (chunks : List Chunk)
    (ending : Option Ending) :
    reassembled (c :: chunks) ending =
      (reassembled chunks ending).map fun p => (c.bytes ++ p.1, p.2) := by
  have hmem : 0 ∈ stream (c :: chunks) ↔ 0 ∈ stream chunks := by
    rw [stream_cons, List.mem_append, or_iff_right h]
  unfold reassembled
  by_cases hs : 0 ∈ stream chunks
  · rw [if_pos (hmem.mpr hs), if_pos hs, stream_cons, before_nul_append h,
      List.dropWhile_cons_of_pos (by simpa using h)]
    rfl
  · rw [if_neg (mt hmem.mp hs), if_neg hs, stream_cons, Option.map_map]
    rfl

/-- Both loops walk the chunks the same way: to the first NUL, or to the end of the reads. -/
theorem loop_results {loop : Bytes → List ReadResult → Option (Bytes × List ReadResult)}
    (hnil : ∀ out, loop out [] = none)
    (hend : ∀ out (e : Ending), loop out [e.result] = some (out, []))
    (hchunk : ∀ out (c : Chunk) reads, loop out (.chunk c.bytes :: reads) =
      if 0 ∈ c.bytes then some (out ++ before_nul c.bytes, reads) else loop (out ++ c.bytes) reads)
    (out : Bytes) (chunks : List Chunk) (ending : Option Ending) :
    loop out (results chunks ending) =
      (reassembled chunks ending).map fun p => (out ++ p.1, p.2) := by
  induction chunks generalizing out with
  | nil =>
    cases ending with
    | none => exact hnil out
    | some e =>
      rw [show results [] (some e) = [e.result] from rfl, hend]
      simp [reassembled, stream]
  | cons c chunks ih =>
    rw [results_cons, hchunk]
    by_cases h : 0 ∈ c.bytes
    · rw [if_pos h, reassembled_cons_of_mem h]
      rfl
    · rw [if_neg h, ih, reassembled_cons_of_not_mem h, Option.map_map]
      simp only [Function.comp_def, List.append_assoc]

theorem read_loop_results (chunks : List Chunk) (ending : Option Ending) :
    read_loop [] (results chunks ending) = reassembled chunks ending := by
  rw [loop_results (fun _ => rfl) _ read_loop_chunk]
  · simp
  · rintro out (_ | _) <;> rfl

theorem win_read_loop_results (chunks : List Chunk) (ending : Option Ending) :
    win_read_loop [] (results chunks ending) = reassembled chunks ending := by
  rw [loop_results (fun _ => rfl) _ win_read_loop_chunk]
  · simp
  · rintro out (_ | _) <;> rfl

/-- The two loops do the same with buffers that `read` can fill. -/
theorem win_read_loop_eq (out : Bytes) {reads : List ReadResult}
    (h : ∀ buf, .chunk buf ∈ reads → buf.length ≤ 4096) :
    win_read_loop out reads = read_loop out reads := by
  induction reads generalizing out with
  | nil => rfl
  | cons r reads ih =>
    have hrest : ∀ buf, .chunk buf ∈ reads → buf.length ≤ 4096 :=
      fun buf hbuf => h buf (List.mem_cons_of_mem _ hbuf)
    cases r with
    | fail => rfl
    | chunk buf =>
      by_cases hne : buf = []
      · subst hne
        rfl
      · let c : Chunk := { bytes := buf, ne_nil := hne, length_le := h buf (by simp) }
        have hwin := win_read_loop_chunk out c reads
        have hposix := read_loop_chunk out c reads
        rw [ih _ hrest, ← hposix] at hwin
        exact hwin

/-- The loop gives the bytes before the first NUL, or all of them where the reads end before one,
and it reads nothing after the chunk of the first NUL. The loop of Windows does the same. Another
chunking of the same bytes gives the same text, wherever the reads end. -/
theorem reply_text_is_the_same_for_every_chunking (chunks : List Chunk)
    (ending : Option Ending) :
    read_loop [] (results chunks ending) = reassembled chunks ending ∧
      win_read_loop [] (results chunks ending) = reassembled chunks ending ∧
      ∀ chunks', stream chunks' = stream chunks →
        (read_loop [] (results chunks' ending)).map Prod.fst =
            (read_loop [] (results chunks ending)).map Prod.fst ∧
          ∀ ending', ∀ p ∈ read_loop [] (results chunks ending),
            ∀ p' ∈ read_loop [] (results chunks' ending'), p'.1 = p.1 := by
  refine ⟨read_loop_results _ _, win_read_loop_results _ _, ?_⟩
  intro chunks' hstream
  refine ⟨?_, ?_⟩
  · rw [read_loop_results, read_loop_results, reassembled, reassembled, hstream]
    split <;> simp
  · intro ending' p hp p' hp'
    rw [read_loop_results, Option.mem_def, reassembled] at hp hp'
    rw [hstream] at hp'
    by_cases h : 0 ∈ stream chunks
    · rw [if_pos h, Option.some.injEq] at hp hp'
      rw [← hp, ← hp']
    · rw [if_neg h, Option.map_eq_some_iff] at hp hp'
      obtain ⟨-, -, rfl⟩ := hp
      obtain ⟨-, -, rfl⟩ := hp'
      rfl

/-- A reply in two chunks, with the NUL alone in the second, and a chunk that is left alone. -/
example : read_loop [] [.chunk (Bytes.lit "0x40"), .chunk [0], .chunk (Bytes.lit "s")] =
    some (Bytes.lit "0x40", [.chunk (Bytes.lit "s")]) := by decide

end r2sql
