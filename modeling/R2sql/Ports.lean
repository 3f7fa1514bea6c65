-- The number at the front of a text, as `strtol` and `std::stoi` read it. The
-- plugin and the CLI take their ports from such texts.
import R2sql.FieldTexts
import R2sql.Lib.Fronts

namespace r2sql

open json_utils

/-- `std::strtol(text, &endp, 10)`, or `none` where `endp` stays at the text. -/
def strtol (text : Bytes) : Option Int :=
  let (negative, unsigned) := split_sign (text.dropWhile is_space)
  let ds := leading_digits 10 unsigned
  let v : Int := (Nat.ofDigits 10 ds.reverse : Nat)
  if ds = [] then none
  else some (max Int64.minValue.toInt (min Int64.maxValue.toInt (if negative then -v else v)))

/-- `std::stoi(text)`. `none` stands for its exceptions: no number, or one that is no `int`. -/
def stoi (text : Bytes) : Option Int :=
  match strtol text with
  | some v => if -2 ^ 31 ≤ v ∧ v < 2 ^ 31 then some v else none
  | none => none

/-- No digit of the base is at the front. -/
def NoDigit (base : Nat) (rest : Bytes) : Prop := ∀ c ∈ rest.head?, base ≤ digit_value c

theorem stops_iff_noDigit {base : Nat} {rest : Bytes} :
    fronts.Stops (fun c => decide (digit_value c < base)) rest ↔ NoDigit base rest := by
  unfold fronts.Stops NoDigit
  simp

theorem leading_digits_append {text rest : Bytes} {base : Nat}
    (htext : ∀ c ∈ text, digit_value c < base) (hrest : NoDigit base rest) :
    leading_digits base (text ++ rest) = text.map digit_value := by
  have hall : ∀ c ∈ text, decide (digit_value c < base) = true := by simpa using htext
  unfold leading_digits
  rw [fronts.takeWhile_append hall (stops_iff_noDigit.mpr hrest)]

theorem digits_print (n : Nat) : ∀ c ∈ numerals.print 10 n, digit_value c < 10 := by
  intro c hc
  unfold numerals.print at hc
  split at hc
  · rw [List.mem_singleton.mp hc]
    decide
  · rw [List.mem_reverse, List.mem_map] at hc
    obtain ⟨d, hd, rfl⟩ := hc
    have hlt := Nat.digits_lt_base (by decide : 1 < 10) hd
    rw [digit_value_digit d (by omega)]
    exact hlt

theorem digit_of_value : ∀ c : UInt8, digit_value c < 10 → hex.digit (digit_value c) = c := by
  apply Bytes.forall_byte
  decide +kernel

/-- The digits in front of a text stand for a number other than zero exactly where the text begins
with zeros and its numeral. -/
theorem ofDigits_eq_iff {n : Nat} (hpos : n ≠ 0) (text : Bytes) :
    Nat.ofDigits 10 (leading_digits 10 text).reverse = n ↔
      ∃ k rest, NoDigit 10 rest ∧ text = List.replicate k '0'.toUInt8 ++ to_string n ++ rest := by
  have hprint : to_string n = numerals.print 10 n := numerals.lit_toString n
  rw [hprint]
  constructor
  · intro h
    obtain ⟨front, hfront, htext⟩ :=
      fronts.exists_append (fun c => decide (digit_value c < 10)) text
    have hrest := stops_iff_noDigit.mp
      (fronts.stops_dropWhile (fun c => decide (digit_value c < 10)) text)
    have hdigits : ∀ c ∈ front, digit_value c < 10 := by simpa using hfront
    rw [htext, leading_digits_append hdigits hrest] at h
    have hvalues : ∀ d ∈ front.map digit_value, d < 10 := by simpa using hdigits
    obtain ⟨k, hk⟩ := numerals.digits_eq_print (by decide) hvalues h hpos
    have hback : (front.map digit_value).map hex.digit = front := by
      rw [List.map_map]
      exact (List.map_congr_left fun c hc => digit_of_value c (hdigits c hc)).trans (List.map_id _)
    exact ⟨k, _, hrest, by rw [← hk, hback, ← htext]⟩
  · rintro ⟨k, rest, hrest, rfl⟩
    have hzero : ∀ c ∈ List.replicate k '0'.toUInt8, digit_value c < 10 := by
      intro c hc
      rw [List.eq_of_mem_replicate hc]
      decide
    have hall : ∀ c ∈ List.replicate k '0'.toUInt8 ++ numerals.print 10 n, digit_value c < 10 :=
      List.forall_mem_append.mpr ⟨hzero, digits_print n⟩
    have hend : NoDigit 10 [] := by simp [NoDigit]
    have hdigits := leading_digits_append (digits_print n) hend
    have hvalue := ofDigits_leading_digits (b := 10) (by decide) (by decide) n
    rw [List.append_nil] at hdigits
    rw [hdigits] at hvalue
    rw [leading_digits_append hall hrest, List.map_append, List.map_replicate,
      List.reverse_append, List.reverse_replicate]
    exact (Nat.ofDigits_append_replicate_zero _).trans hvalue

/-- The text begins with the number in decimal, after blanks, a plus sign and zeros that can all be
left out. -/
def BeginsWith (n : Nat) (text : Bytes) : Prop :=
  ∃ blanks sign k rest, (∀ c ∈ blanks, is_space c = true) ∧ (sign = [] ∨ sign = ['+'.toUInt8]) ∧
    NoDigit 10 rest ∧
    text = blanks ++ (sign ++ (List.replicate k '0'.toUInt8 ++ to_string n ++ rest))

/-- `strtol` in range gives a positive number where there is no minus sign, and the digits stand for
the number. -/
theorem strtol_unsigned {text unsigned : Bytes} {negative : Bool}
    (hsign : split_sign (text.dropWhile is_space) = (negative, unsigned)) {n : Nat} (hpos : 0 < n)
    (hn : n < 2 ^ 63 - 1) :
    strtol text = some (n : Int) ↔
      negative = false ∧ Nat.ofDigits 10 (leading_digits 10 unsigned).reverse = n := by
  have hmax : Int64.maxValue.toInt = 2 ^ 63 - 1 := rfl
  have hmin : Int64.minValue.toInt = -2 ^ 63 := rfl
  unfold strtol
  rw [hsign]
  dsimp only
  rw [hmax, hmin]
  split
  · rename_i hnil
    simp [hnil]
    omega
  · cases negative with
    | true =>
      simp
      omega
    | false =>
      simp
      omega

theorem split_sign_eq_false_iff {text unsigned : Bytes} :
    split_sign text = (false, unsigned) ↔
      text = '+'.toUInt8 :: unsigned ∨
        text = unsigned ∧ text.head? ≠ some '-'.toUInt8 ∧ text.head? ≠ some '+'.toUInt8 := by
  cases text with
  | nil => simp [split_sign]
  | cons c text =>
    simp only [split_sign]
    split_ifs with hminus hplus
    · subst hminus
      have hne : '-'.toUInt8 ≠ '+'.toUInt8 := by decide
      simp [hne]
    · subst hplus
      simp
    · simp [hminus, hplus]

theorem exists_digit (n k : Nat) (rest : Bytes) :
    ∃ d tail, d < 16 ∧
      List.replicate k '0'.toUInt8 ++ to_string n ++ rest = hex.digit d :: tail := by
  have hprint : to_string n = numerals.print 10 n := numerals.lit_toString n
  rw [hprint]
  cases k with
  | succ k => exact ⟨0, _, by decide, rfl⟩
  | zero =>
    by_cases h : n = 0
    · subst h
      exact ⟨0, rest, by decide, rfl⟩
    · obtain ⟨d, tail, -, hd, hfirst⟩ := numerals.exists_first_digit (b := 10) (by decide) h
      exact ⟨d, tail ++ rest, by omega, by rw [hfirst]; rfl⟩

/-- `strtol` reads a positive number off the texts that begin with it. -/
theorem strtol_eq_some_iff {n : Nat} (hpos : 0 < n) (hn : n < 2 ^ 63 - 1) (text : Bytes) :
    strtol text = some (n : Int) ↔ BeginsWith n text := by
  constructor
  · intro h
    obtain ⟨blanks, hblanks, htext⟩ := fronts.exists_append is_space text
    obtain ⟨negative, unsigned, hsplit⟩ : ∃ negative unsigned,
        split_sign (text.dropWhile is_space) = (negative, unsigned) := ⟨_, _, rfl⟩
    obtain ⟨rfl, hvalue⟩ := (strtol_unsigned hsplit hpos hn).mp h
    obtain ⟨k, rest, hrest, rfl⟩ := (ofDigits_eq_iff (by omega) _).mp hvalue
    rcases split_sign_eq_false_iff.mp hsplit with hplus | ⟨hnone, -⟩
    · exact ⟨blanks, ['+'.toUInt8], k, rest, hblanks, Or.inr rfl, hrest,
        htext.trans (congrArg (blanks ++ ·) hplus)⟩
    · exact ⟨blanks, [], k, rest, hblanks, Or.inl rfl, hrest,
        htext.trans (congrArg (blanks ++ ·) hnone)⟩
  · rintro ⟨blanks, sign, k, rest, hblanks, hsign, hrest, rfl⟩
    obtain ⟨d, tail, hd, hfirst⟩ := exists_digit n k rest
    obtain ⟨hspace, hminus, hplus⟩ := digit_plain d hd
    have hstops : fronts.Stops is_space
        (sign ++ (List.replicate k '0'.toUInt8 ++ to_string n ++ rest)) := by
      rcases hsign with rfl | rfl
      · rw [List.nil_append, hfirst]
        simpa [fronts.Stops] using hspace
      · simp [fronts.Stops]
        decide
    have hsplit : split_sign (sign ++ (List.replicate k '0'.toUInt8 ++ to_string n ++ rest)) =
        (false, List.replicate k '0'.toUInt8 ++ to_string n ++ rest) := by
      rw [split_sign_eq_false_iff]
      rcases hsign with rfl | rfl
      · right
        rw [List.nil_append, hfirst]
        simp [hminus, hplus]
      · exact Or.inl rfl
    rw [← fronts.dropWhile_append hblanks hstops] at hsplit
    rw [strtol_unsigned hsplit hpos hn]
    exact ⟨rfl, (ofDigits_eq_iff (by omega) _).mpr ⟨k, rest, hrest, rfl⟩⟩

end r2sql
