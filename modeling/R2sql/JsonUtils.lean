-- The accessors of json_utils.cpp: they read one field of a JSON object and
-- fall back to a default, whatever the shape of the value.
import R2sql.Json
import R2sql.Lib.Base64
import R2sql.Lib.Hex

namespace r2sql.json_utils

open Json

/-! ## `std::stoll(text, nullptr, 0)` -/

/-- `isspace` in the C locale. -/
def is_space (c : UInt8) : Bool := c == ' '.toUInt8 || (9 ≤ c && c ≤ 13)

/-- The value of a digit, in a base up to 36. -/
def digit_value (c : UInt8) : Nat :=
  if '0'.toUInt8 ≤ c ∧ c ≤ '9'.toUInt8 then c.toNat - '0'.toNat
  else if 'a'.toUInt8 ≤ c ∧ c ≤ 'z'.toUInt8 then c.toNat - 'a'.toNat + 10
  else if 'A'.toUInt8 ≤ c ∧ c ≤ 'Z'.toUInt8 then c.toNat - 'A'.toNat + 10
  else 36

/-- The digits of base `base` at the front of a text. -/
def leading_digits (base : Nat) (text : Bytes) : List Nat :=
  (text.takeWhile fun c => digit_value c < base).map digit_value

/-- The base that `strtoll` detects, and the text after its prefix. -/
def detect_base (text : Bytes) : Nat × Bytes :=
  match text with
  | z :: x :: d :: rest =>
    if z = '0'.toUInt8 ∧ (x = 'x'.toUInt8 ∨ x = 'X'.toUInt8) ∧ digit_value d < 16 then
      (16, d :: rest)
    else if z = '0'.toUInt8 then (8, text) else (10, text)
  | z :: _ => if z = '0'.toUInt8 then (8, text) else (10, text)
  | [] => (10, text)

/-- The sign at the front of a text, and the text after it. -/
def split_sign (text : Bytes) : Bool × Bytes :=
  match text with
  | c :: rest =>
    if c = '-'.toUInt8 then (true, rest)
    else if c = '+'.toUInt8 then (false, rest)
    else (false, text)
  | [] => (false, text)

/-- `std::stoll` with base 0. `none` stands for its two exceptions: no digit at the front of
the text, and a value outside the signed 64-bit range. -/
def stoll (text : Bytes) : Option Int64 :=
  let (negative, unsigned) := split_sign (text.dropWhile is_space)
  let (base, digits) := detect_base unsigned
  let ds := leading_digits base digits
  let v : Int := (Nat.ofDigits base ds.reverse : Nat)
  let w := if negative then -v else v
  if ds = [] then none
  else if w < Int64.minValue.toInt ∨ Int64.maxValue.toInt < w then none
  else some (Int64.ofInt w)

/-! ## The accessors -/

/-- `static_cast<int64_t>(double)`: toward zero. Outside the range, where C++ leaves the value
open, it is the one that x86-64 gives. -/
def trunc_int64 (x : Rat) : Int64 :=
  let t := x.num.tdiv x.den
  if t < Int64.minValue.toInt ∨ Int64.maxValue.toInt < t then Int64.minValue else Int64.ofInt t

def str [Nlohmann] (obj : Json) (key : Bytes) (dflt : Bytes := []) : Bytes :=
  match obj.find key with
  | none => dflt
  | some .null => dflt
  | some (.string s) => s
  | some v => Nlohmann.dump v

def i64 (obj : Json) (key : Bytes) (dflt : Int64 := 0) : Int64 :=
  match obj.find key with
  | none => dflt
  | some .null => dflt
  | some (.number_integer i) => i
  | some (.number_unsigned u) => u.toInt64
  | some (.number_float x) => trunc_int64 x
  | some (.string s) => (stoll s).getD dflt
  | some _ => dflt

/-- `addr` first, then `offset`: the key of a record's address differs between commands. -/
def i64_addr (obj : Json) (dflt : Int64 := 0) : Int64 :=
  match obj.find (Bytes.lit "addr") with
  | none => i64 obj (Bytes.lit "offset") dflt
  | some .null => i64 obj (Bytes.lit "offset") dflt
  | some _ => i64 obj (Bytes.lit "addr") dflt

/-! ## Addresses in commands -/

/-- `0x%llx` of the address as an unsigned number. -/
def hex_addr (addr : Int64) : Bytes := Bytes.lit "0x" ++ hex.print addr.toUInt64.toNat

theorem hex_addr_injective {a b : Int64} (h : hex_addr a = hex_addr b) : a = b := by
  have hp : a.toUInt64 = b.toUInt64 :=
    UInt64.toNat_inj.mp (hex.print_injective (List.append_cancel_left h))
  cases a
  cases b
  simpa using hp

/-- `hex_addr` read back, modulo 2^64. -/
def read_hex_addr (s : Bytes) : Int64 := (UInt64.ofNat (hex.read (s.drop 2))).toInt64

theorem read_hex_addr_hex_addr (addr : Int64) : read_hex_addr (hex_addr addr) = addr := by
  have hdrop : (hex_addr addr).drop 2 = hex.print addr.toUInt64.toNat := by
    rw [hex_addr, show 2 = (Bytes.lit "0x").length from rfl, List.drop_left]
  rw [read_hex_addr, hdrop, hex.read_print, UInt64.ofNat_toNat, Int64.toInt64_toUInt64]

/-! ## Names in commands -/

/-- The bytes that a name may have. -/
def name_byte (c : UInt8) : Bool :=
  ('A'.toUInt8 ≤ c && c ≤ 'Z'.toUInt8) || ('a'.toUInt8 ≤ c && c ≤ 'z'.toUInt8) ||
    ('0'.toUInt8 ≤ c && c ≤ '9'.toUInt8) || c == '.'.toUInt8 || c == '_'.toUInt8 || c == '$'.toUInt8

def valid_flag_name (name : Bytes) : Bool := name ≠ [] && name.all name_byte

/-! ## Texts in commands -/

/-- One byte of a text in quotes. -/
def quote_byte (c : UInt8) : Bytes :=
  if c = '\\'.toUInt8 then Bytes.lit "\\\\"
  else if c = '"'.toUInt8 then Bytes.lit "\\\""
  else if c = '\n'.toUInt8 then Bytes.lit "\\n"
  else if c = '\r'.toUInt8 then Bytes.lit "\\r"
  else [c]

def r2_quote (s : Bytes) : Bytes := Bytes.lit "\"" ++ s.flatMap quote_byte ++ Bytes.lit "\""

def tbl : Bytes := Bytes.lit "ABCDEFGHIJKLMNOPQRSTUVWXYZabcdefghijklmnopqrstuvwxyz0123456789+/"

/-- `tbl[(v >> shift) & 0x3f]`. -/
def sextet (v shift : UInt32) : UInt8 := tbl.getD ((v >>> shift) &&& 0x3f).toNat 0

def base64_encode : Bytes → Bytes
  | a :: b :: c :: rest =>
    let v := (a.toUInt32 <<< 16) ||| (b.toUInt32 <<< 8) ||| c.toUInt32
    sextet v 18 :: sextet v 12 :: sextet v 6 :: sextet v 0 :: base64_encode rest
  | [a] =>
    let v := a.toUInt32 <<< 16
    sextet v 18 :: sextet v 12 :: Bytes.lit "=="
  | [a, b] =>
    let v := (a.toUInt32 <<< 16) ||| (b.toUInt32 <<< 8)
    [sextet v 18, sextet v 12, sextet v 6, '='.toUInt8]
  | [] => []

theorem toNat_shift (a : UInt8) (k : UInt32) (h : k.toNat ≤ 24) :
    (a.toUInt32 <<< k).toNat = a.toNat <<< k.toNat := by
  have ha := a.toNat_lt
  rw [UInt32.toNat_shiftLeft, UInt8.toNat_toUInt32, Nat.mod_eq_of_lt (by omega : k.toNat < 32)]
  apply Nat.mod_eq_of_lt
  rw [Nat.shiftLeft_eq]
  calc a.toNat * 2 ^ k.toNat < 2 ^ 8 * 2 ^ k.toNat := by
        apply Nat.mul_lt_mul_of_pos_right ha (Nat.two_pow_pos _)
    _ = 2 ^ (8 + k.toNat) := (Nat.pow_add 2 8 _).symm
    _ ≤ 2 ^ 32 := Nat.pow_le_pow_right (by decide) (by omega)

theorem toNat_pack (a b c : UInt8) :
    ((a.toUInt32 <<< 16) ||| (b.toUInt32 <<< 8) ||| c.toUInt32).toNat =
      a.toNat * 65536 + b.toNat * 256 + c.toNat := by
  have ha := a.toNat_lt
  have hb := b.toNat_lt
  have hc := c.toNat_lt
  rw [UInt32.toNat_or, UInt32.toNat_or, toNat_shift a 16 (by decide), toNat_shift b 8 (by decide),
    UInt8.toNat_toUInt32, Nat.or_assoc]
  simp only [show (16 : UInt32).toNat = 16 from rfl, show (8 : UInt32).toNat = 8 from rfl]
  rw [← Nat.shiftLeft_add_eq_or_of_lt hc,
    ← Nat.shiftLeft_add_eq_or_of_lt (by rw [Nat.shiftLeft_eq]; omega)]
  simp only [Nat.shiftLeft_eq]
  omega

theorem toNat_pack_two (a b : UInt8) :
    ((a.toUInt32 <<< 16) ||| (b.toUInt32 <<< 8)).toNat = a.toNat * 65536 + b.toNat * 256 := by
  have h := toNat_pack a b 0
  rwa [show (0 : UInt8).toUInt32 = 0 from rfl, UInt32.or_zero, show (0 : UInt8).toNat = 0 from rfl,
    Nat.add_zero] at h

theorem toNat_pack_one (a : UInt8) : (a.toUInt32 <<< 16).toNat = a.toNat * 65536 := by
  have h := toNat_shift a 16 (by decide)
  simp only [Nat.shiftLeft_eq, show (16 : UInt32).toNat = 16 from rfl] at h
  omega

theorem sextet_eq (v k : UInt32) (n : Nat) (hn : n < 32) (hk : k.toNat = n) :
    sextet v k = base64.letter (v.toNat / 2 ^ n % 64) := by
  have hindex : ((v >>> k) &&& 0x3f).toNat = v.toNat / 2 ^ n % 64 := by
    rw [UInt32.toNat_and, UInt32.toNat_shiftRight, hk, Nat.mod_eq_of_lt hn,
      Nat.shiftRight_eq_div_pow, show (0x3f : UInt32).toNat = 2 ^ 6 - 1 from rfl,
      Nat.and_two_pow_sub_one_eq_mod]
  rw [sextet, hindex]
  rfl

theorem sextets_eq (v : UInt32) {a b c : Nat} (ha : a < 256) (hb : b < 256) (hc : c < 256)
    (hv : v.toNat = a * 65536 + b * 256 + c) :
    sextet v 18 = base64.letter (a / 4) ∧ sextet v 12 = base64.letter (a % 4 * 16 + b / 16) ∧
      sextet v 6 = base64.letter (b % 16 * 4 + c / 64) ∧ sextet v 0 = base64.letter (c % 64) := by
  rw [sextet_eq v 18 18 (by decide) rfl, sextet_eq v 12 12 (by decide) rfl,
    sextet_eq v 6 6 (by decide) rfl, sextet_eq v 0 0 (by decide) rfl, hv]
  refine ⟨?_, ?_, ?_, ?_⟩ <;> congr 1 <;> omega

theorem base64_encode_eq (s : Bytes) : base64_encode s = base64.encode s := by
  fun_induction base64_encode s with
  | case1 a b c rest v ih =>
    obtain ⟨h18, h12, h6, h0⟩ := sextets_eq v a.toNat_lt b.toNat_lt c.toNat_lt (toNat_pack a b c)
    rw [h18, h12, h6, h0, ih, base64.encode]
  | case2 a v =>
    have hv : v.toNat = a.toNat * 65536 + 0 * 256 + 0 := by
      rw [show v.toNat = a.toNat * 65536 from toNat_pack_one a, Nat.zero_mul, Nat.add_zero]
    obtain ⟨h18, h12, -, -⟩ := sextets_eq v a.toNat_lt (by decide) (by decide) hv
    rw [h18, h12, base64.encode]
    rfl
  | case3 a b v =>
    have hv : v.toNat = a.toNat * 65536 + b.toNat * 256 + 0 := by
      rw [Nat.add_zero]
      exact toNat_pack_two a b
    obtain ⟨h18, h12, h6, -⟩ := sextets_eq v a.toNat_lt b.toNat_lt (by decide) hv
    rw [h18, h12, h6, base64.encode]
    rfl
  | case4 => rfl

/-- The strict decoder gives every text back, the code has the shape of base64, and every canonical
text, which is one that the decoder takes, is the code of what it decodes to. -/
theorem base64_encode_is_strict_base64 :
    (∀ s : Bytes, base64.decode (base64_encode s) = some s ∧
      (base64_encode s).length = 4 * ((s.length + 2) / 3) ∧
      base64.LettersThenPad (base64_encode s)) ∧
    ∀ t : Bytes, (base64.Canonical t ↔ ∃ s, base64.decode t = some s) ∧
      ∀ s, base64.decode t = some s → base64_encode s = t := by
  constructor
  · intro s
    rw [base64_encode_eq]
    exact ⟨base64.decode_encode s, base64.length_encode s, base64.lettersThenPad_encode s⟩
  · intro t
    refine ⟨base64.canonical_iff t, ?_⟩
    intro s hs
    rw [base64_encode_eq]
    exact base64.encode_of_decode hs

end r2sql.json_utils
