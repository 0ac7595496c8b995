/-
Little-endian integers, bits, hexadecimal digits and UTF-8 text.

* `fromLe_toLe` — `n` little-endian bytes keep a number modulo `256 ^ n`;
* `decodeUtf8_encodeUtf8` — a string is read back from its encoding;
* `or_shiftLeft_of_lt`, `toNat_or_shiftLeft` — fields of bits that do not overlap add up,
  and `testBit` says what a single bit of a byte is;
* `readHex_hexDigits` — the last `w` hexadecimal digits of `n` are read back as `n` modulo
  `16 ^ w`.
-/
import Mathlib.Data.Nat.Bitwise
import Mathlib.Data.Nat.ModEq
import Mathlib.Tactic.Ring

namespace Oxillama

/-! ### Little-endian integers -/

/-- The low `n` bytes of `v`, the lowest first. -/
def toLe : ℕ → ℕ → List UInt8
  | 0, _ => []
  | n + 1, v => UInt8.ofNat v :: toLe n (v / 256)

/-- The number that bytes stand for, the lowest first. -/
def fromLe : List UInt8 → ℕ
  | [] => 0
  | b :: bs => b.toNat + 256 * fromLe bs

@[simp] theorem length_toLe (n v : ℕ) : (toLe n v).length = n := by
  induction n generalizing v with
  | zero => rfl
  | succ n ih => rw [toLe, List.length_cons, ih]

theorem fromLe_toLe (n v : ℕ) : fromLe (toLe n v) = v % 256 ^ n := by
  induction n generalizing v with
  | zero => rw [pow_zero, Nat.mod_one, toLe, fromLe]
  | succ n ih =>
    have hlow : (UInt8.ofNat v).toNat = v % 256 := UInt8.toNat_ofNat'
    rw [toLe, fromLe, ih, hlow, pow_succ', Nat.mod_mul]

theorem fromLe_toLe_of_lt {n v : ℕ} (h : v < 256 ^ n) : fromLe (toLe n v) = v := by
  rw [fromLe_toLe, Nat.mod_eq_of_lt h]

theorem fromLe_lt (bs : List UInt8) : fromLe bs < 256 ^ bs.length := by
  induction bs with
  | nil => decide
  | cons b bs ih =>
    have hb : b.toNat < 256 := b.toNat_lt
    rw [fromLe, List.length_cons, pow_succ']
    omega

/-! ### Text -/

/-- The bytes of a string. -/
def encodeUtf8 (s : String) : List UInt8 := s.toUTF8.data.toList

/-- The string with the given bytes, when they are valid UTF-8. -/
def decodeUtf8 (bytes : List UInt8) : Option String := String.fromUTF8? ⟨bytes.toArray⟩

@[simp] theorem decodeUtf8_encodeUtf8 (s : String) : decodeUtf8 (encodeUtf8 s) = some s :=
  dif_pos s.isValidUTF8

/-! ### Bits -/

/-- Fields that do not overlap add up. -/
theorem or_shiftLeft_of_lt {a i : ℕ} (h : a < 2 ^ i) (b : ℕ) :
    a ||| (b <<< i) = a + 2 ^ i * b := by
  rw [Nat.or_comm, ← Nat.shiftLeft_add_eq_or_of_lt h, Nat.shiftLeft_eq, Nat.mul_comm,
    Nat.add_comm]

theorem toNat_or_shiftLeft {a b k : UInt8} (hk : k.toNat < 8) (ha : a.toNat < 2 ^ k.toNat)
    (hb : b.toNat * 2 ^ k.toNat < 256) :
    (a ||| (b <<< k)).toNat = a.toNat + 2 ^ k.toNat * b.toNat := by
  rw [UInt8.toNat_or, UInt8.toNat_shiftLeft, Nat.mod_eq_of_lt hk]
  have hfits : b.toNat <<< k.toNat % 2 ^ 8 = b.toNat <<< k.toNat := by
    rw [Nat.shiftLeft_eq]
    exact Nat.mod_eq_of_lt hb
  rw [hfits, or_shiftLeft_of_lt ha]

/-- A bit of a byte, by a mask with one bit. -/
theorem and_ne_zero_iff {x m : UInt8} {b : ℕ} (hm : m.toNat = 2 ^ b) :
    x &&& m ≠ 0 ↔ x.toNat.testBit b = true := by
  rw [ne_eq, ← UInt8.toNat_inj, UInt8.toNat_and, hm, Nat.and_two_pow]
  show ¬ (x.toNat.testBit b).toNat * 2 ^ b = 0 ↔ _
  have hpos : 2 ^ b ≠ 0 := (Nat.two_pow_pos b).ne'
  cases x.toNat.testBit b with
  | false => simp
  | true => simp

/-- A byte with one more bit. -/
theorem testBit_or_two_pow {x m : UInt8} {b : ℕ} (hm : m.toNat = 2 ^ b) (i : ℕ) :
    (x ||| m).toNat.testBit i = (x.toNat.testBit i || decide (b = i)) := by
  rw [UInt8.toNat_or, Nat.testBit_or, hm, Nat.testBit_two_pow]

/-! ### Hexadecimal digits -/

/-- `char::to_digit` with radix 16. -/
def hexDigit (c : Char) : Option ℕ :=
  if '0' ≤ c ∧ c ≤ '9' then some (c.toNat - '0'.toNat)
  else if 'a' ≤ c ∧ c ≤ 'f' then some (c.toNat - 'a'.toNat + 10)
  else if 'A' ≤ c ∧ c ≤ 'F' then some (c.toNat - 'A'.toNat + 10)
  else none

/-- A digit of `{:x}`. -/
def lowerHex (n : ℕ) : Char := if n < 10 then Char.ofNat (n + 48) else Char.ofNat (n + 87)

/-- The last `w` digits of `n`. -/
def hexDigits : ℕ → ℕ → List Char
  | 0, _ => []
  | w + 1, n => hexDigits w (n / 16) ++ [lowerHex (n % 16)]

/-- The digits read as a `u64`, unless one is no digit or the number overflows. -/
def readHex (digits : List Char) : Option ℕ :=
  digits.foldlM (fun value c => do
    let digit ← hexDigit c
    if value * 16 + digit < 2 ^ 64 then some (value * 16 + digit) else none) 0

/-- Bytes, two digits each. -/
def hexEncode (bytes : List UInt8) : String :=
  String.ofList (bytes.flatMap fun b => hexDigits 2 b.toNat)

theorem hexDigit_lowerHex {n : ℕ} (h : n < 16) : hexDigit (lowerHex n) = some n := by
  have hall : ∀ n < 16, hexDigit (lowerHex n) = some n := by decide
  exact hall n h

theorem length_hexDigits (w n : ℕ) : (hexDigits w n).length = w := by
  induction w generalizing n with
  | zero => rfl
  | succ w ih => rw [hexDigits, List.length_append, ih, List.length_singleton]

/-- **What was written is read back.** -/
theorem readHex_hexDigits {w : ℕ} (h : 16 ^ w ≤ 2 ^ 64) (n : ℕ) :
    readHex (hexDigits w n) = some (n % 16 ^ w) := by
  induction w generalizing n with
  | zero =>
    rw [pow_zero, Nat.mod_one]
    rfl
  | succ w ih =>
    have hpow : 16 ^ (w + 1) = 16 * 16 ^ w := by ring
    have hrest := ih (by omega) (n / 16)
    have hsplit : n % 16 ^ (w + 1) = n / 16 % 16 ^ w * 16 + n % 16 := by
      rw [hpow, Nat.mod_mul]
      omega
    have hlt : n % 16 ^ (w + 1) < 2 ^ 64 :=
      lt_of_lt_of_le (Nat.mod_lt _ (Nat.pow_pos (by omega))) h
    unfold readHex at hrest ⊢
    rw [hexDigits, List.foldlM_append, hrest]
    show (hexDigit (lowerHex (n % 16))).bind _ >>= _ = _
    rw [hexDigit_lowerHex (Nat.mod_lt n (by omega)), Option.bind_some, if_pos (by omega), hsplit]
    rfl

end Oxillama
