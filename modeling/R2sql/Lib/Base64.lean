-- Base64 as in RFC 4648, section 4: three bytes are four letters of six bits
-- each, and `=` pads a last group of one or two bytes.
import R2sql.Lib.Bytes

namespace base64

def alphabet : Bytes := Bytes.lit "ABCDEFGHIJKLMNOPQRSTUVWXYZabcdefghijklmnopqrstuvwxyz0123456789+/"

def pad : UInt8 := '='.toUInt8

/-- The letter of a value below 64. -/
def letter (v : Nat) : UInt8 := alphabet.getD v 0

/-- The value of a letter. -/
def value (c : UInt8) : Option Nat := alphabet.idxOf? c

/-- The letters of a text, with the padding. -/
def encode : Bytes → Bytes
  | a :: b :: c :: rest =>
    letter (a.toNat / 4) :: letter (a.toNat % 4 * 16 + b.toNat / 16) ::
      letter (b.toNat % 16 * 4 + c.toNat / 64) :: letter (c.toNat % 64) :: encode rest
  | [a, b] =>
    [letter (a.toNat / 4), letter (a.toNat % 4 * 16 + b.toNat / 16), letter (b.toNat % 16 * 4), pad]
  | [a] => [letter (a.toNat / 4), letter (a.toNat % 4 * 16), pad, pad]
  | [] => []

/-- The text of a run of letters. The decoder is strict: the padding is there where it has to be and
nowhere else, and the bits that the padding leaves over are zero. -/
def decode : Bytes → Option Bytes
  | c₁ :: c₂ :: c₃ :: c₄ :: rest => do
    let v₁ ← value c₁
    let v₂ ← value c₂
    let first := UInt8.ofNat (v₁ * 4 + v₂ / 16)
    if c₃ = pad ∧ c₄ = pad ∧ rest = [] then
      if v₂ % 16 = 0 then some [first] else none
    else do
      let v₃ ← value c₃
      let second := UInt8.ofNat (v₂ % 16 * 16 + v₃ / 4)
      if c₄ = pad ∧ rest = [] then
        if v₃ % 4 = 0 then some [first, second] else none
      else do
        let v₄ ← value c₄
        let bytes ← decode rest
        some (first :: second :: UInt8.ofNat (v₃ % 4 * 64 + v₄) :: bytes)
  | [] => some []
  | _ => none

/-! ## Letters -/

theorem value_letter : ∀ v < 64, value (letter v) = some v := by decide +kernel

theorem length_alphabet : alphabet.length = 64 := by decide +kernel

theorem letter_mem (v : Nat) (hv : v < 64) : letter v ∈ alphabet := by
  rw [← length_alphabet] at hv
  rw [letter, List.getD_eq_getElem _ _ hv]
  exact List.getElem_mem hv

theorem letter_ne_pad (v : Nat) (hv : v < 64) : letter v ≠ pad := by
  intro h
  have hmem := letter_mem v hv
  rw [h] at hmem
  exact absurd hmem (by decide)

theorem mem_encode {s : Bytes} {c : UInt8} (h : c ∈ encode s) : c ∈ alphabet ∨ c = pad := by
  fun_induction encode s with
  | case1 a b d rest ih =>
    have ha := a.toNat_lt
    have hb := b.toNat_lt
    have hd := d.toNat_lt
    simp only [List.mem_cons] at h
    rcases h with rfl | rfl | rfl | rfl | h
    · exact Or.inl (letter_mem _ (by omega))
    · exact Or.inl (letter_mem _ (by omega))
    · exact Or.inl (letter_mem _ (by omega))
    · exact Or.inl (letter_mem _ (by omega))
    · exact ih h
  | case2 a b =>
    have ha := a.toNat_lt
    have hb := b.toNat_lt
    simp only [List.mem_cons, List.not_mem_nil, or_false] at h
    rcases h with rfl | rfl | rfl | h
    · exact Or.inl (letter_mem _ (by omega))
    · exact Or.inl (letter_mem _ (by omega))
    · exact Or.inl (letter_mem _ (by omega))
    · exact Or.inr h
  | case3 a =>
    have ha := a.toNat_lt
    simp only [List.mem_cons, List.not_mem_nil, or_false, or_self] at h
    rcases h with rfl | rfl | h
    · exact Or.inl (letter_mem _ (by omega))
    · exact Or.inl (letter_mem _ (by omega))
    · exact Or.inr h
  | case4 => cases h

/-! ## The round trip -/

theorem decode_encode (s : Bytes) : decode (encode s) = some s := by
  fun_induction encode s with
  | case1 a b c rest ih =>
    have ha := a.toNat_lt
    have hb := b.toNat_lt
    have hc := c.toNat_lt
    rw [decode, value_letter _ (by omega), value_letter _ (by omega)]
    simp only [Option.bind_eq_bind, Option.bind_some]
    rw [if_neg fun h => letter_ne_pad _ (by omega) h.1, value_letter _ (by omega)]
    simp only [Option.bind_some]
    rw [if_neg fun h => letter_ne_pad _ (by omega) h.1, value_letter _ (by omega), ih]
    have hfirst : a.toNat / 4 * 4 + (a.toNat % 4 * 16 + b.toNat / 16) / 16 = a.toNat := by omega
    have hsecond : (a.toNat % 4 * 16 + b.toNat / 16) % 16 * 16 +
        (b.toNat % 16 * 4 + c.toNat / 64) / 4 = b.toNat := by omega
    have hthird : (b.toNat % 16 * 4 + c.toNat / 64) % 4 * 64 + c.toNat % 64 = c.toNat := by omega
    simp only [Option.bind_some, hfirst, hsecond, hthird, UInt8.ofNat_toNat]
  | case2 a b =>
    have ha := a.toNat_lt
    have hb := b.toNat_lt
    rw [decode, value_letter _ (by omega), value_letter _ (by omega)]
    simp only [Option.bind_eq_bind, Option.bind_some]
    rw [if_neg fun h => letter_ne_pad _ (by omega) h.1, value_letter _ (by omega)]
    simp only [Option.bind_some, true_and, if_true]
    have hfirst : a.toNat / 4 * 4 + (a.toNat % 4 * 16 + b.toNat / 16) / 16 = a.toNat := by omega
    have hsecond : (a.toNat % 4 * 16 + b.toNat / 16) % 16 * 16 + b.toNat % 16 * 4 / 4 =
        b.toNat := by omega
    rw [if_pos (by omega), hfirst, hsecond, UInt8.ofNat_toNat, UInt8.ofNat_toNat]
  | case3 a =>
    have ha := a.toNat_lt
    rw [decode, value_letter _ (by omega), value_letter _ (by omega)]
    simp only [Option.bind_eq_bind, Option.bind_some, true_and, if_true]
    have hfirst : a.toNat / 4 * 4 + a.toNat % 4 * 16 / 16 = a.toNat := by omega
    rw [if_pos (by omega), hfirst, UInt8.ofNat_toNat]
  | case4 => rfl

/-! ## Shape of the encoded text -/

/-- Four letters for three bytes, the last group rounded up. -/
theorem length_encode (s : Bytes) : (encode s).length = 4 * ((s.length + 2) / 3) := by
  fun_induction encode s with
  | case1 a b c rest ih =>
    simp only [List.length_cons, ih]
    omega
  | case2 a b => simp
  | case3 a => simp
  | case4 => simp

/-- A run of letters, and at most two bytes of padding after it. -/
def LettersThenPad (t : Bytes) : Prop :=
  ∃ letters k, t = letters ++ List.replicate k pad ∧ k ≤ 2 ∧ ∀ c ∈ letters, c ∈ alphabet

theorem LettersThenPad.pads {k : Nat} (hk : k ≤ 2) : LettersThenPad (List.replicate k pad) :=
  ⟨[], k, rfl, hk, by simp⟩

theorem LettersThenPad.cons {v : Nat} {t : Bytes} (hv : v < 64) (h : LettersThenPad t) :
    LettersThenPad (letter v :: t) := by
  obtain ⟨letters, k, rfl, hk, hletters⟩ := h
  refine ⟨letter v :: letters, k, rfl, hk, ?_⟩
  rw [List.forall_mem_cons]
  exact ⟨letter_mem v hv, hletters⟩

theorem lettersThenPad_encode (s : Bytes) : LettersThenPad (encode s) := by
  fun_induction encode s with
  | case1 a b c rest ih =>
    have ha := a.toNat_lt
    have hb := b.toNat_lt
    have hc := c.toNat_lt
    exact (((ih.cons (by omega)).cons (by omega)).cons (by omega)).cons (by omega)
  | case2 a b =>
    have ha := a.toNat_lt
    have hb := b.toNat_lt
    have hpads : LettersThenPad [pad] := LettersThenPad.pads (k := 1) (by decide)
    exact ((hpads.cons (by omega)).cons (by omega)).cons (by omega)
  | case3 a =>
    have ha := a.toNat_lt
    have hpads : LettersThenPad [pad, pad] := LettersThenPad.pads (k := 2) (by decide)
    exact (hpads.cons (by omega)).cons (by omega)
  | case4 => exact LettersThenPad.pads (k := 0) (by decide)

/-! ## Canonical texts -/

/-- The texts of base64 in groups of four: letters, and in the last group perhaps padding, where
the bits that the padding leaves over are zero. -/
inductive Canonical : Bytes → Prop
  | nil : Canonical []
  | one {u v : Nat} (hu : u < 64) (hv : v < 64) (hbits : v % 16 = 0) :
      Canonical [letter u, letter v, pad, pad]
  | two {u v w : Nat} (hu : u < 64) (hv : v < 64) (hw : w < 64) (hbits : w % 4 = 0) :
      Canonical [letter u, letter v, letter w, pad]
  | group {u v w x : Nat} {rest : Bytes} (hu : u < 64) (hv : v < 64) (hw : w < 64) (hx : x < 64)
      (hrest : Canonical rest) : Canonical (letter u :: letter v :: letter w :: letter x :: rest)

theorem exists_encode {t : Bytes} (h : Canonical t) : ∃ s, encode s = t := by
  induction h with
  | nil => exact ⟨[], rfl⟩
  | @one u v hu hv hbits =>
    refine ⟨[UInt8.ofNat (u * 4 + v / 16)], ?_⟩
    rw [encode, UInt8.toNat_ofNat_of_lt' (by simp only [UInt8.size]; omega)]
    congr 3 <;> omega
  | @two u v w hu hv hw hbits =>
    refine ⟨[UInt8.ofNat (u * 4 + v / 16), UInt8.ofNat (v % 16 * 16 + w / 4)], ?_⟩
    rw [encode, UInt8.toNat_ofNat_of_lt' (by simp only [UInt8.size]; omega),
      UInt8.toNat_ofNat_of_lt' (by simp only [UInt8.size]; omega)]
    congr 4 <;> omega
  | @group u v w x rest hu hv hw hx hrest ih =>
    obtain ⟨s, rfl⟩ := ih
    refine ⟨UInt8.ofNat (u * 4 + v / 16) :: UInt8.ofNat (v % 16 * 16 + w / 4) ::
      UInt8.ofNat (w % 4 * 64 + x) :: s, ?_⟩
    rw [encode, UInt8.toNat_ofNat_of_lt' (by simp only [UInt8.size]; omega),
      UInt8.toNat_ofNat_of_lt' (by simp only [UInt8.size]; omega),
      UInt8.toNat_ofNat_of_lt' (by simp only [UInt8.size]; omega)]
    congr 5 <;> omega

theorem letter_of_value {c : UInt8} {v : Nat} (h : value c = some v) : v < 64 ∧ c = letter v := by
  obtain ⟨hv, hc, -⟩ := List.idxOf?_eq_some_iff.mp h
  rw [letter, List.getD_eq_getElem _ _ hv, hc]
  exact ⟨length_alphabet ▸ hv, rfl⟩

theorem canonical_of_decode {t s : Bytes} (h : decode t = some s) : Canonical t := by
  fun_induction decode t generalizing s with
  | case1 c₁ c₂ c₃ c₄ rest ih =>
    simp only [Option.bind_eq_bind, Option.bind_eq_some_iff] at h
    obtain ⟨v₁, h₁, v₂, h₂, h⟩ := h
    obtain ⟨hv₁, rfl⟩ := letter_of_value h₁
    obtain ⟨hv₂, rfl⟩ := letter_of_value h₂
    split at h
    · rename_i hpads
      obtain ⟨rfl, rfl, rfl⟩ := hpads
      exact .one hv₁ hv₂ (by by_contra hbits; simp [hbits] at h)
    · rw [Option.bind_eq_some_iff] at h
      obtain ⟨v₃, h₃, h⟩ := h
      obtain ⟨hv₃, rfl⟩ := letter_of_value h₃
      split at h
      · rename_i hpad
        obtain ⟨rfl, rfl⟩ := hpad
        exact .two hv₁ hv₂ hv₃ (by by_contra hbits; simp [hbits] at h)
      · simp only [Option.bind_eq_some_iff] at h
        obtain ⟨v₄, h₄, bytes, hrest, -⟩ := h
        obtain ⟨hv₄, rfl⟩ := letter_of_value h₄
        exact .group hv₁ hv₂ hv₃ hv₄ (ih hrest)
  | case2 => exact .nil
  | case3 => cases h

theorem canonical_iff (t : Bytes) : Canonical t ↔ ∃ s, decode t = some s := by
  constructor
  · intro h
    obtain ⟨s, rfl⟩ := exists_encode h
    exact ⟨s, decode_encode s⟩
  · rintro ⟨s, hs⟩
    exact canonical_of_decode hs

theorem encode_of_decode {t s : Bytes} (h : decode t = some s) : encode s = t := by
  obtain ⟨s', rfl⟩ := exists_encode (canonical_of_decode h)
  rw [decode_encode, Option.some.injEq] at h
  rw [h]

end base64
