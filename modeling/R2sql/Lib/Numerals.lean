-- Numerals in any base up to 16, with the digits of `R2sql.Lib.Hex`: how a
-- numeral grows by a digit, and its first digit.
import R2sql.Lib.Hex

namespace numerals

/-- The numeral of a number in base `b`, most significant digit first. -/
def print (b n : Nat) : Bytes :=
  if n = 0 then ['0'.toUInt8] else ((Nat.digits b n).map hex.digit).reverse

theorem print_sixteen (n : Nat) : print 16 n = hex.print n := rfl

theorem print_of_lt {b n : Nat} (hn : n < b) : print b n = [hex.digit n] := by
  unfold print
  split
  · rename_i h
    subst h
    rfl
  · rename_i h
    rw [Nat.digits_of_lt b n h hn]
    rfl

theorem print_of_le {b n : Nat} (hb : 1 < b) (hn : b ≤ n) :
    print b n = print b (n / b) ++ [hex.digit (n % b)] := by
  have hdiv : n / b ≠ 0 := by
    rw [Nat.div_ne_zero_iff]
    omega
  unfold print
  rw [if_neg (by omega), if_neg hdiv, Nat.digits_def' hb (by omega), List.map_cons,
    List.reverse_cons]

theorem toDigits_eq {b : Nat} (hb : 1 < b) (hb' : b ≤ 16) (n : Nat) :
    (Nat.toDigits b n).map Char.toUInt8 = print b n := by
  have hdigit : ∀ d < 16, (Nat.digitChar d).toUInt8 = hex.digit d := by decide
  induction n using Nat.strong_induction_on with
  | _ n ih =>
    rw [Nat.toDigits_eq_if hb]
    split
    · rename_i hn
      rw [print_of_lt hn, List.map_singleton, hdigit n (by omega)]
    · rename_i hn
      have hlast := Nat.mod_lt n (by omega : b > 0)
      rw [print_of_le hb (by omega), List.map_append, List.map_singleton,
        ih (n / b) (Nat.div_lt_self (by omega) hb), hdigit _ (by omega)]

theorem lit_toString (n : Nat) : Bytes.lit (toString n) = print 10 n := by
  rw [Bytes.lit, ← toDigits_eq (by decide) (by decide), ← Nat.toList_repr]
  rfl

theorem exists_first_digit {b n : Nat} (hb : 1 < b) (hn : n ≠ 0) :
    ∃ d rest, 0 < d ∧ d < b ∧ print b n = hex.digit d :: rest := by
  induction n using Nat.strong_induction_on with
  | _ n ih =>
    by_cases hlt : n < b
    · exact ⟨n, [], by omega, hlt, print_of_lt hlt⟩
    · have hdiv : n / b ≠ 0 := by
        rw [Nat.div_ne_zero_iff]
        omega
      obtain ⟨d, rest, hd, hd', hrest⟩ := ih (n / b) (Nat.div_lt_self (by omega) hb) hdiv
      refine ⟨d, rest ++ [hex.digit (n % b)], hd, hd', ?_⟩
      rw [print_of_le hb (by omega), hrest, List.cons_append]

theorem digits_eq_print {b n : Nat} (hb : 1 < b) {ds : List Nat} (hds : ∀ d ∈ ds, d < b)
    (hn : Nat.ofDigits b ds.reverse = n) (hpos : n ≠ 0) :
    ∃ k, ds.map hex.digit = List.replicate k '0'.toUInt8 ++ print b n := by
  have hmem : ds.reverse ∈ {l : List Nat | l.length = ds.length ∧ ∀ d ∈ l, d < b} :=
    ⟨List.length_reverse, fun d hd => hds d (List.mem_reverse.mp hd)⟩
  have hall := (Nat.setInvOn_digitsAppend_ofDigits hb ds.length).1 hmem
  rw [hn, Nat.digitsAppend] at hall
  have hrev := congrArg List.reverse hall
  rw [List.reverse_reverse, List.reverse_append, List.reverse_replicate] at hrev
  refine ⟨ds.length - (Nat.digits b n).length, ?_⟩
  have hzero : hex.digit 0 = '0'.toUInt8 := rfl
  calc ds.map hex.digit
      = (List.replicate (ds.length - (Nat.digits b n).length) 0 ++
          (Nat.digits b n).reverse).map hex.digit := by rw [hrev]
    _ = _ := by
      rw [List.map_append, List.map_replicate, hzero, print, if_neg hpos, List.map_reverse]

end numerals
