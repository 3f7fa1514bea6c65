-- An address in the forms that a field of an answer can give it: a number, a
-- decimal numeral, or the text that `hex_addr` prints for it.
import R2sql.CheckedTables
import R2sql.Lib.Numerals

namespace r2sql.json_utils

open Json

/-! ## Numerals read by `std::stoll` -/

theorem digit_value_digit : ∀ d < 16, digit_value (hex.digit d) = d := by decide

theorem digit_plain : ∀ d < 16, is_space (hex.digit d) = false ∧ hex.digit d ≠ '-'.toUInt8 ∧
    hex.digit d ≠ '+'.toUInt8 := by decide

theorem leading_digits_print {b : Nat} (hb : 1 < b) (hb' : b ≤ 16) (n : Nat) :
    leading_digits b (numerals.print b n) = if n = 0 then [0] else (Nat.digits b n).reverse := by
  unfold numerals.print
  split
  · have hzero : digit_value '0'.toUInt8 = 0 := rfl
    simp [leading_digits, hzero, show 0 < b by omega]
  · have hdigit : ∀ d ∈ Nat.digits b n, digit_value (hex.digit d) = d := by
      intro d hd
      exact digit_value_digit d (by have := Nat.digits_lt_base hb hd; omega)
    have hall : ∀ c ∈ ((Nat.digits b n).map hex.digit).reverse,
        decide (digit_value c < b) = true := by
      intro c hc
      rw [List.mem_reverse, List.mem_map] at hc
      obtain ⟨d, hd, rfl⟩ := hc
      rw [hdigit d hd, decide_eq_true_eq]
      exact Nat.digits_lt_base hb hd
    rw [leading_digits, List.takeWhile_eq_self_iff.mpr hall, List.map_reverse, List.map_map]
    congr 1
    conv => rhs; rw [← List.map_id (Nat.digits b n)]
    exact List.map_congr_left hdigit

theorem leading_digits_ne_nil {b : Nat} (hb : 1 < b) (hb' : b ≤ 16) (n : Nat) :
    leading_digits b (numerals.print b n) ≠ [] := by
  rw [leading_digits_print hb hb']
  split
  · simp
  · rename_i h
    rw [ne_eq, List.reverse_eq_nil_iff]
    exact Nat.digits_ne_nil_iff_ne_zero.mpr h

theorem ofDigits_leading_digits {b : Nat} (hb : 1 < b) (hb' : b ≤ 16) (n : Nat) :
    Nat.ofDigits b (leading_digits b (numerals.print b n)).reverse = n := by
  rw [leading_digits_print hb hb']
  split
  · rename_i h
    simp [h]
  · rw [List.reverse_reverse, Nat.ofDigits_digits]

/-- What `stoll` makes of a number: it throws from 2^63 on. -/
def stoll_of (n : Nat) : Option Int64 := if n < 2 ^ 63 then some (Int64.ofInt n) else none

/-- A text without space or sign at its front, once its base is known. -/
theorem stoll_eq {text digits : Bytes} {base n : Nat} (hspace : text.dropWhile is_space = text)
    (hsign : split_sign text = (false, text)) (hbase : detect_base text = (base, digits))
    (hne : leading_digits base digits ≠ [])
    (hn : Nat.ofDigits base (leading_digits base digits).reverse = n) :
    stoll text = stoll_of n := by
  have hmax : Int64.maxValue.toInt = 2 ^ 63 - 1 := rfl
  have hmin : Int64.minValue.toInt = -2 ^ 63 := rfl
  simp only [stoll, hspace, hsign, hbase, hn, if_neg hne, Bool.false_eq_true, if_false, stoll_of]
  split <;> split <;> first | rfl | omega

theorem front_of_digit {d : Nat} (hd : d < 16) (rest : Bytes) :
    (hex.digit d :: rest).dropWhile is_space = hex.digit d :: rest ∧
      split_sign (hex.digit d :: rest) = (false, hex.digit d :: rest) := by
  obtain ⟨hspace, hminus, hplus⟩ := digit_plain d hd
  constructor
  · rw [List.dropWhile_cons_of_neg (by simp [hspace])]
  · rw [split_sign, if_neg hminus, if_neg hplus]

theorem detect_base_decimal {c : UInt8} (hc : c ≠ '0'.toUInt8) (rest : Bytes) :
    detect_base (c :: rest) = (10, c :: rest) := by
  rcases rest with _ | ⟨x, _ | ⟨d, rest⟩⟩
  · exact if_neg hc
  · exact if_neg hc
  · rw [detect_base, if_neg fun h => hc h.1, if_neg hc]

theorem stoll_decimal (n : Nat) : stoll (to_string n) = stoll_of n := by
  have htext : to_string n = numerals.print 10 n := numerals.lit_toString n
  rw [htext]
  by_cases h : n = 0
  · subst h
    decide
  · obtain ⟨d, rest, hd, hd', hfirst⟩ := numerals.exists_first_digit (b := 10) (by decide) h
    have hzero : ∀ d < 10, 0 < d → hex.digit d ≠ '0'.toUInt8 := by decide
    have hbase := detect_base_decimal (hzero d hd' hd) rest
    obtain ⟨hspace, hsign⟩ := front_of_digit (by omega : d < 16) rest
    rw [← hfirst] at hbase hspace hsign
    exact stoll_eq hspace hsign hbase (leading_digits_ne_nil (by decide) (by decide) n)
      (ofDigits_leading_digits (by decide) (by decide) n)

theorem stoll_hex (n : Nat) : stoll (Bytes.lit "0x" ++ hex.print n) = stoll_of n := by
  rw [← numerals.print_sixteen]
  have hbase :
      detect_base (Bytes.lit "0x" ++ numerals.print 16 n) = (16, numerals.print 16 n) := by
    obtain ⟨d, rest, hd, hfirst⟩ :
        ∃ d rest, d < 16 ∧ numerals.print 16 n = hex.digit d :: rest := by
      by_cases h : n = 0
      · exact ⟨0, [], by decide, by rw [h]; rfl⟩
      · obtain ⟨d, rest, -, hd, hfirst⟩ := numerals.exists_first_digit (b := 16) (by decide) h
        exact ⟨d, rest, hd, hfirst⟩
    rw [hfirst]
    exact if_pos ⟨rfl, Or.inl rfl, by rw [digit_value_digit d hd]; exact hd⟩
  exact stoll_eq rfl rfl hbase (leading_digits_ne_nil (by decide) (by decide) n)
    (ofDigits_leading_digits (by decide) (by decide) n)

/-! ## The forms of an address -/

/-- The values of a field that stand for the unsigned number `v`. The parser keeps it as an
unsigned number; a number below 2^63 may also be a signed one. -/
inductive AddressForm (v : UInt64) : Json → Prop
  | number : AddressForm v (.number_unsigned v)
  | signed_number (h : v.toNat < 2 ^ 63) : AddressForm v (.number_integer v.toInt64)
  | decimal : AddressForm v (.string (to_string v.toNat))
  | hex : AddressForm v (.string (hex_addr v.toInt64))

/-- `i64` reads the signed number of `v` from every form of it. -/
def ReadsEveryForm (v : UInt64) (key : Bytes) (dflt : Int64) : Prop :=
  ∀ obj field, AddressForm v field → obj.find key = some field → i64 obj key dflt = v.toInt64

theorem i64_of_string {obj : Json} {key s : Bytes} (h : obj.find key = some (.string s))
    (dflt : Int64) : i64 obj key dflt = (stoll s).getD dflt := by
  rw [i64, h]

theorem ofInt_toNat (v : UInt64) : Int64.ofInt v.toNat = v.toInt64 := by
  apply Int64.toBitVec.inj
  rw [Int64.toBitVec_ofInt, BitVec.ofInt_natCast]
  exact congrArg UInt64.toBitVec (UInt64.ofNat_toNat (x := v))

/-- What `i64` makes of a text of `v`. -/
theorem getD_stoll_of (v : UInt64) (dflt : Int64) :
    (stoll_of v.toNat).getD dflt = if v.toNat < 2 ^ 63 then v.toInt64 else dflt := by
  rw [stoll_of]
  split
  · rw [Option.getD_some, ofInt_toNat]
  · rfl

theorem stoll_hex_addr (a : Int64) : stoll (hex_addr a) = stoll_of a.toUInt64.toNat :=
  stoll_hex _

/-- An address is in the lower half of the unsigned range where it is not negative. -/
theorem nonneg_iff (a : Int64) : 0 ≤ a ↔ a.toUInt64.toNat < 2 ^ 63 := by
  have hint : a.toInt = a.toUInt64.toBitVec.toInt := rfl
  have hnat : a.toUInt64.toNat = a.toUInt64.toBitVec.toNat := rfl
  rw [Int64.le_iff_toInt_le, hint, hnat, BitVec.toInt_eq_toNat_cond]
  have hlt := a.toUInt64.toBitVec.isLt
  change 0 ≤ _ ↔ _
  split <;> omega

theorem find_single (key : Bytes) (field : Json) :
    (Json.object [(key, field)]).find key = some field := by
  rw [Json.find, List.lookup_cons_self]

/-- The texts decide: a number is read as itself in any case. -/
theorem readsEveryForm_iff (v : UInt64) (key : Bytes) (dflt : Int64) :
    ReadsEveryForm v key dflt ↔ v.toNat < 2 ^ 63 ∨ dflt = v.toInt64 := by
  constructor
  · intro h
    have htext := h _ _ .decimal (find_single key _)
    rw [i64_of_string (find_single key _), stoll_decimal, getD_stoll_of] at htext
    split at htext
    · rename_i hv
      exact Or.inl hv
    · exact Or.inr htext
  · intro h obj field hform hfind
    have htext : (stoll_of v.toNat).getD dflt = v.toInt64 := by
      rw [getD_stoll_of]
      split
      · rfl
      · rename_i hv
        exact h.resolve_left hv
    cases hform with
    | number => rw [i64, hfind]
    | signed_number => rw [i64, hfind]
    | decimal => rw [i64_of_string hfind, stoll_decimal, htext]
    | hex => rw [i64_of_string hfind, stoll_hex_addr, UInt64.toUInt64_toInt64, htext]

theorem i64_hex_addr_iff (a : Int64) (key : Bytes) (dflt : Int64) :
    i64 (.object [(key, .string (hex_addr a))]) key dflt = a ↔ 0 ≤ a ∨ dflt = a := by
  rw [i64_of_string (find_single key _), stoll_hex_addr, getD_stoll_of, Int64.toInt64_toUInt64,
    nonneg_iff]
  split
  · rename_i ha
    exact iff_of_true rfl (Or.inl ha)
  · rename_i ha
    exact (or_iff_right ha).symm

/-- A field in any form is read as the same signed number exactly below 2^63, where the text forms
still fit `std::stoll`: an address in the upper half is read as the default from a text, although
`hex_addr` prints it there, and as itself from a number. -/
theorem every_form_reads_alike_iff (v : UInt64) (key : Bytes) (dflt : Int64) :
    (ReadsEveryForm v key dflt ↔ v.toNat < 2 ^ 63 ∨ dflt = v.toInt64) ∧
      (∀ obj : Json, obj.find key = some (.number_unsigned v) → i64 obj key dflt = v.toInt64) ∧
      (∀ a : Int64, i64 (.object [(key, .string (hex_addr a))]) key dflt = a ↔
        0 ≤ a ∨ dflt = a) ∧
      Function.Injective hex_addr := by
  refine ⟨readsEveryForm_iff v key dflt, ?_, fun a => i64_hex_addr_iff a key dflt,
    fun _ _ => hex_addr_injective⟩
  intro obj hfind
  rw [i64, hfind]

/-- The address 0xffffffff80000000 of a kernel, in its three forms: the texts are read as zero. -/
theorem kernel_address_is_lost :
    let field := Bytes.lit "addr"
    let a : Int64 := -2147483648
    ¬ReadsEveryForm 0xffffffff80000000 field 0 ∧
      i64 (.object [(field, .number_unsigned 0xffffffff80000000)]) field 0 = a ∧
      i64 (.object [(field, .string (Bytes.lit "18446744071562067968"))]) field 0 = 0 ∧
      hex_addr a = Bytes.lit "0xffffffff80000000" ∧
      i64 (.object [(field, .string (hex_addr a))]) field 0 = 0 := by
  refine ⟨?_, by decide +kernel⟩
  rw [readsEveryForm_iff]
  decide

end r2sql.json_utils
