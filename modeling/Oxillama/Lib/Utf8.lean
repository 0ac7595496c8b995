/-
UTF-8 decoding as Rust's standard library documents it.

`utf8Head` looks at the first character of a byte string with the checks of
`core::str::from_utf8`: a character and its width, an invalid sequence with the
length that is to be replaced (the maximal subpart), or the start of a sequence
that the bytes do not complete.  `fromUtf8` and `fromUtf8Lossy` repeat it.
Text is a list of characters.

* `utf8Scanner` — `utf8Head` as a `Scanner`: what it decides stays decided;
* `fromUtf8Lossy_eq`, `fromUtf8_eq` — both functions in terms of its scan;
* `utf8Head_encode` — the head of an encoded character is that character.
-/
import Oxillama.Lib.Scanner
import Mathlib.Tactic.IntervalCases

namespace Oxillama

/-- Text, character by character. -/
abbrev Text := List Char

/-- `U+FFFD`. -/
def replacement : Char := Char.ofNat 0xFFFD

/-- What stands at the front of a byte string. -/
inductive Utf8Head
  | char (c : Char) (width : ℕ)
  | invalid (len : ℕ)
  | incomplete
  deriving DecidableEq

/-- A continuation byte. -/
def isCont (b : UInt8) : Bool := 0x80 ≤ b && b ≤ 0xBF

/-- `core::str::utf8_char_width`. -/
def utf8CharWidth (b : UInt8) : ℕ :=
  if b ≤ 0x7F then 1
  else if 0xC2 ≤ b ∧ b ≤ 0xDF then 2
  else if 0xE0 ≤ b ∧ b ≤ 0xEF then 3
  else if 0xF0 ≤ b ∧ b ≤ 0xF4 then 4
  else 0

/-- The second byte of a sequence of three or four: shorter encodings, surrogates
and code points past `U+10FFFF` are excluded here. -/
def isSecond (first b : UInt8) : Bool :=
  if first = 0xE0 then 0xA0 ≤ b && b ≤ 0xBF
  else if first = 0xED then 0x80 ≤ b && b ≤ 0x9F
  else if first = 0xF0 then 0x90 ≤ b && b ≤ 0xBF
  else if first = 0xF4 then 0x80 ≤ b && b ≤ 0x8F
  else isCont b

/-- The payload of a continuation byte. -/
def contBits (b : UInt8) : ℕ := b.toNat % 64

/-- `next!()`: the next byte, where there is one. -/
def nextByte (rest : List UInt8) (k : UInt8 → List UInt8 → Utf8Head) : Utf8Head :=
  match rest with
  | [] => .incomplete
  | b :: rest => k b rest

/-- A sequence of `width` bytes that starts with `b₀`. -/
def utf8Sequence (b₀ : UInt8) (width : ℕ) (rest : List UInt8) : Utf8Head :=
  match width with
  | 1 => .char (Char.ofNat b₀.toNat) 1
  | 2 => nextByte rest fun b₁ _ =>
    if isCont b₁ then .char (Char.ofNat (b₀.toNat % 32 * 64 + contBits b₁)) 2 else .invalid 1
  | 3 => nextByte rest fun b₁ rest =>
    if isSecond b₀ b₁ then nextByte rest fun b₂ _ =>
      if isCont b₂ then
        .char (Char.ofNat (b₀.toNat % 16 * 4096 + contBits b₁ * 64 + contBits b₂)) 3
      else .invalid 2
    else .invalid 1
  | 4 => nextByte rest fun b₁ rest =>
    if isSecond b₀ b₁ then nextByte rest fun b₂ rest =>
      if isCont b₂ then nextByte rest fun b₃ _ =>
        if isCont b₃ then
          .char (Char.ofNat
            (b₀.toNat % 8 * 262144 + contBits b₁ * 4096 + contBits b₂ * 64 + contBits b₃)) 4
        else .invalid 3
      else .invalid 2
    else .invalid 1
  | _ => .invalid 1

/-- The first character of a byte string. -/
def utf8Head : List UInt8 → Utf8Head
  | [] => .incomplete
  | b₀ :: rest => utf8Sequence b₀ (utf8CharWidth b₀) rest

/-- What a head says about the string it stands at the front of. -/
def Utf8Head.Fits (head : Utf8Head) (bytes : List UInt8) : Prop :=
  match head with
  | .char _ width => 0 < width ∧ width ≤ bytes.length
  | .invalid len => 0 < len ∧ len ≤ bytes.length
  | .incomplete => bytes.length ≤ 3

/-- A head takes bytes that are there; an incomplete one leaves at most three. -/
theorem utf8Head_fits (bytes : List UInt8) : (utf8Head bytes).Fits bytes := by
  cases bytes with
  | nil => exact Nat.zero_le 3
  | cons b₀ rest =>
    rw [utf8Head]
    generalize utf8CharWidth b₀ = width
    rcases rest with _ | ⟨b₁, _ | ⟨b₂, _ | ⟨b₃, rest⟩⟩⟩ <;>
      simp only [utf8Sequence, nextByte] <;> split <;> try split_ifs
    all_goals simp [Utf8Head.Fits]

theorem nextByte_append {rest more : List UInt8} {k : UInt8 → List UInt8 → Utf8Head}
    (hk : ∀ b rest, k b rest ≠ .incomplete → k b (rest ++ more) = k b rest)
    (h : nextByte rest k ≠ .incomplete) : nextByte (rest ++ more) k = nextByte rest k := by
  cases rest with
  | nil => exact absurd rfl h
  | cons b rest => exact hk b rest h

/-- A check between two bytes. -/
theorem ite_append {c : Prop} [Decidable c] {a a' b : Utf8Head} (ha : a' ≠ .incomplete → a = a')
    (h : (if c then a' else b) ≠ .incomplete) : (if c then a else b) = if c then a' else b := by
  split
  · rename_i hc
    rw [if_pos hc] at h
    exact ha h
  · rfl

/-- **A decided head stays** when more bytes follow. -/
theorem utf8Head_append {bytes : List UInt8} (h : utf8Head bytes ≠ .incomplete)
    (more : List UInt8) : utf8Head (bytes ++ more) = utf8Head bytes := by
  cases bytes with
  | nil => exact absurd rfl h
  | cons b₀ rest =>
    rw [utf8Head] at h
    rw [List.cons_append, utf8Head, utf8Head]
    generalize utf8CharWidth b₀ = width at h
    rw [utf8Sequence.eq_def] at h
    rw [utf8Sequence.eq_def, utf8Sequence.eq_def]
    split
    · rfl
    · exact nextByte_append (fun _ _ _ => rfl) h
    · exact nextByte_append (fun b₁ rest => ite_append (nextByte_append fun _ _ _ => rfl)) h
    · exact nextByte_append (fun b₁ rest => ite_append (nextByte_append fun b₂ rest =>
        ite_append (nextByte_append fun _ _ _ => rfl))) h
    · rfl

/-- A character is decided by its own bytes. -/
theorem utf8Head_take {bytes : List UInt8} {c : Char} {w : ℕ} (h : utf8Head bytes = .char c w) :
    utf8Head (bytes.take w) = .char c w := by
  cases bytes with
  | nil => cases h
  | cons b₀ rest =>
    rw [utf8Head] at h
    obtain ⟨width, hwidth⟩ : ∃ width, utf8CharWidth b₀ = width := ⟨_, rfl⟩
    rw [hwidth] at h
    rcases rest with _ | ⟨b₁, _ | ⟨b₂, _ | ⟨b₃, rest⟩⟩⟩ <;>
      simp only [utf8Sequence, nextByte] at h <;> split at h <;> try split_ifs at h
    all_goals cases h <;> simp_all [utf8Head, utf8Sequence, nextByte]

/-! ### Decoding byte strings -/

/-- What a decided head is replaced by, and its length. -/
def Utf8Head.token : Utf8Head → Option (Char × ℕ)
  | .char c width => some (c, width)
  | .invalid len => some (replacement, len)
  | .incomplete => none

/-- Reading characters with replacement, off the front of a byte string. -/
def utf8Scanner : Scanner UInt8 Char where
  head bytes := (utf8Head bytes).token
  width {bytes c w} h := by
    have hfits := utf8Head_fits bytes
    cases hhead : utf8Head bytes with
    | char c' w' =>
      rw [hhead] at h hfits
      obtain ⟨-, rfl⟩ := Prod.mk.inj (Option.some.inj h)
      exact hfits
    | invalid len =>
      rw [hhead] at h hfits
      obtain ⟨-, rfl⟩ := Prod.mk.inj (Option.some.inj h)
      exact hfits
    | incomplete =>
      rw [hhead] at h
      cases h
  stable {bytes c w} h more := by
    have hdecided : utf8Head bytes ≠ .incomplete := by
      intro hinc
      rw [hinc] at h
      cases h
    rw [utf8Head_append hdecided, h]

/-- `Utf8Error`. -/
structure Utf8Error where
  validUpTo : ℕ
  errorLen : Option ℕ
  deriving DecidableEq

/-- `core::str::from_utf8`. -/
def fromUtf8 (bytes : List UInt8) : Except Utf8Error Text :=
  if bytes = [] then .ok []
  else
    match _h : utf8Head bytes with
    | .char c width =>
      match fromUtf8 (bytes.drop width) with
      | .ok text => .ok (c :: text)
      | .error e => .error ⟨width + e.validUpTo, e.errorLen⟩
    | .invalid len => .error ⟨0, some len⟩
    | .incomplete => .error ⟨0, none⟩
termination_by bytes.length
decreasing_by
  have hfits := utf8Head_fits bytes
  rw [_h] at hfits
  obtain ⟨hpos, hle⟩ := hfits
  rw [List.length_drop]
  omega

/-- `String::from_utf8_lossy`. -/
def fromUtf8Lossy (bytes : List UInt8) : Text :=
  if bytes = [] then []
  else
    match _h : utf8Head bytes with
    | .char c width => c :: fromUtf8Lossy (bytes.drop width)
    | .invalid len => replacement :: fromUtf8Lossy (bytes.drop len)
    | .incomplete => [replacement]
termination_by bytes.length
decreasing_by
  all_goals
    have hfits := utf8Head_fits bytes
    rw [_h] at hfits
    obtain ⟨hpos, hle⟩ := hfits
    rw [List.length_drop]
    omega

section Decoding

variable {bytes : List UInt8}

theorem ne_nil_of_utf8Head {head : Utf8Head} (h : utf8Head bytes = head)
    (hne : head ≠ .incomplete) :
    bytes ≠ [] := by
  rintro rfl
  exact hne h.symm

theorem scan_of_char {c : Char} {w : ℕ} (h : utf8Head bytes = .char c w) :
    utf8Scanner.scan bytes =
      (c :: (utf8Scanner.scan (bytes.drop w)).1, (utf8Scanner.scan (bytes.drop w)).2) :=
  Scanner.scan_of_head_eq_some (congrArg Utf8Head.token h)

theorem scan_of_invalid {len : ℕ} (h : utf8Head bytes = .invalid len) :
    utf8Scanner.scan bytes = (replacement :: (utf8Scanner.scan (bytes.drop len)).1,
      (utf8Scanner.scan (bytes.drop len)).2) :=
  Scanner.scan_of_head_eq_some (congrArg Utf8Head.token h)

theorem scan_of_incomplete (h : utf8Head bytes = .incomplete) :
    utf8Scanner.scan bytes = ([], bytes) :=
  Scanner.scan_of_head_eq_none (congrArg Utf8Head.token h)

theorem fromUtf8_of_char {c : Char} {w : ℕ} (h : utf8Head bytes = .char c w) :
    fromUtf8 bytes = match fromUtf8 (bytes.drop w) with
      | .ok text => .ok (c :: text)
      | .error e => .error ⟨w + e.validUpTo, e.errorLen⟩ := by
  rw [fromUtf8, if_neg (ne_nil_of_utf8Head h nofun)]
  split <;> simp_all

theorem fromUtf8_of_invalid {len : ℕ} (h : utf8Head bytes = .invalid len) :
    fromUtf8 bytes = .error ⟨0, some len⟩ := by
  rw [fromUtf8, if_neg (ne_nil_of_utf8Head h nofun)]
  split <;> simp_all

theorem fromUtf8_of_incomplete (h : utf8Head bytes = .incomplete) (hne : bytes ≠ []) :
    fromUtf8 bytes = .error ⟨0, none⟩ := by
  rw [fromUtf8, if_neg hne]
  split <;> simp_all

/-- Induction along the characters and invalid sequences of a byte string. -/
@[elab_as_elim]
theorem utf8_induction {motive : List UInt8 → Prop}
    (incomplete : ∀ bytes, utf8Head bytes = .incomplete → motive bytes)
    (char : ∀ bytes c w, utf8Head bytes = .char c w → motive (bytes.drop w) → motive bytes)
    (invalid : ∀ bytes len, utf8Head bytes = .invalid len → motive (bytes.drop len) →
      motive bytes) (bytes : List UInt8) : motive bytes := by
  induction bytes using utf8Scanner.scan_induction with
  | undecided bytes h =>
    cases hhead : utf8Head bytes with
    | incomplete => exact incomplete bytes hhead
    | char c w => exact nomatch (congrArg Utf8Head.token hhead).symm.trans h
    | invalid len => exact nomatch (congrArg Utf8Head.token hhead).symm.trans h
  | token bytes c w h ih =>
    cases hhead : utf8Head bytes with
    | incomplete => exact nomatch (congrArg Utf8Head.token hhead).symm.trans h
    | char c' w' =>
      obtain ⟨-, rfl⟩ := Prod.mk.inj
        (Option.some.inj ((congrArg Utf8Head.token hhead).symm.trans h))
      exact char bytes c' w' hhead ih
    | invalid len =>
      obtain ⟨-, rfl⟩ := Prod.mk.inj
        (Option.some.inj ((congrArg Utf8Head.token hhead).symm.trans h))
      exact invalid bytes len hhead ih

/-- Valid bytes are read to their end. -/
theorem scan_of_fromUtf8_ok {text : Text} (h : fromUtf8 bytes = .ok text) :
    utf8Scanner.scan bytes = (text, []) := by
  induction bytes using utf8_induction generalizing text with
  | incomplete bytes hhead =>
    by_cases hnil : bytes = []
    · subst hnil
      rw [fromUtf8, if_pos rfl] at h
      rw [scan_of_incomplete hhead, Except.ok.inj h]
    · rw [fromUtf8_of_incomplete hhead hnil] at h
      cases h
  | char bytes c w hhead ih =>
    rw [fromUtf8_of_char hhead] at h
    cases htail : fromUtf8 (bytes.drop w) with
    | ok text' =>
      rw [htail] at h
      rw [scan_of_char hhead, ih htail, Except.ok.inj h]
    | error e =>
      rw [htail] at h
      cases h
  | invalid bytes len hhead ih =>
    rw [fromUtf8_of_invalid hhead] at h
    cases h

/-- **What an error of `from_utf8` says**: the bytes up to `validUpTo` are text, and
there an invalid sequence of the given length starts, or an incomplete one. -/
structure Utf8Error.Describes (e : Utf8Error) (bytes : List UInt8) (text : Text) : Prop where
  le : e.validUpTo ≤ bytes.length
  valid : fromUtf8 (bytes.take e.validUpTo) = .ok text
  scan : utf8Scanner.scan bytes = (text ++ (utf8Scanner.scan (bytes.drop e.validUpTo)).1,
    (utf8Scanner.scan (bytes.drop e.validUpTo)).2)
  head : utf8Head (bytes.drop e.validUpTo) = match e.errorLen with
    | some len => .invalid len
    | none => .incomplete

theorem fromUtf8_nil : fromUtf8 [] = .ok [] := by
  rw [fromUtf8, if_pos rfl]

theorem describes_of_fromUtf8_error {e : Utf8Error} (h : fromUtf8 bytes = .error e) :
    ∃ text, e.Describes bytes text := by
  induction bytes using utf8_induction generalizing e with
  | incomplete bytes hhead =>
    by_cases hnil : bytes = []
    · subst hnil
      rw [fromUtf8_nil] at h
      cases h
    · rw [fromUtf8_of_incomplete hhead hnil] at h
      obtain rfl := Except.error.inj h
      exact ⟨[], Nat.zero_le _, fromUtf8_nil, rfl, hhead⟩
  | char bytes c w hhead ih =>
    rw [fromUtf8_of_char hhead] at h
    have hfits := utf8Head_fits bytes
    rw [hhead] at hfits
    cases htail : fromUtf8 (bytes.drop w) with
    | ok text =>
      rw [htail] at h
      cases h
    | error e' =>
      rw [htail] at h
      obtain rfl := Except.error.inj h
      obtain ⟨text, hle, hvalid, hscan, hhead'⟩ := ih htail
      rw [List.drop_drop] at hscan hhead'
      refine ⟨c :: text, ?_, ?_, ?_, hhead'⟩
      · have hlen := hfits.2
        rw [List.length_drop] at hle
        show w + e'.validUpTo ≤ bytes.length
        omega
      · -- the first character is decided by the bytes that are kept
        have hkept : utf8Head (bytes.take (w + e'.validUpTo)) = .char c w := by
          have htake : bytes.take (w + e'.validUpTo) =
              bytes.take w ++ (bytes.drop w).take e'.validUpTo := List.take_add
          rw [htake, utf8Head_append (by rw [utf8Head_take hhead]; nofun), utf8Head_take hhead]
        have hdrop : (bytes.take (w + e'.validUpTo)).drop w = (bytes.drop w).take e'.validUpTo := by
          rw [List.drop_take, Nat.add_sub_cancel_left]
        show fromUtf8 (bytes.take (w + e'.validUpTo)) = .ok (c :: text)
        rw [fromUtf8_of_char hkept, hdrop, hvalid]
      · rw [scan_of_char hhead, hscan]
        rfl
  | invalid bytes len hhead ih =>
    rw [fromUtf8_of_invalid hhead] at h
    obtain rfl := Except.error.inj h
    exact ⟨[], Nat.zero_le _, fromUtf8_nil, rfl, hhead⟩

/-- **Lossy decoding** scans, and replaces an incomplete rest once. -/
theorem fromUtf8Lossy_eq (bytes : List UInt8) :
    fromUtf8Lossy bytes = (utf8Scanner.scan bytes).1 ++
      if (utf8Scanner.scan bytes).2 = [] then [] else [replacement] := by
  induction bytes using utf8_induction with
  | incomplete bytes hhead =>
    rw [scan_of_incomplete hhead, fromUtf8Lossy]
    split
    · rfl
    · split <;> simp_all
  | char bytes c w hhead ih =>
    rw [scan_of_char hhead, fromUtf8Lossy, if_neg (ne_nil_of_utf8Head hhead nofun)]
    split <;> simp_all
  | invalid bytes len hhead ih =>
    rw [scan_of_invalid hhead, fromUtf8Lossy, if_neg (ne_nil_of_utf8Head hhead nofun)]
    split <;> simp_all

/-- Some bytes are decoded to some text. -/
theorem fromUtf8Lossy_ne_nil (h : bytes ≠ []) : fromUtf8Lossy bytes ≠ [] := by
  rw [fromUtf8Lossy, if_neg h]
  split
  · exact List.cons_ne_nil _ _
  · exact List.cons_ne_nil _ _
  · exact List.cons_ne_nil _ _

end Decoding

/-! ### Decoding what was encoded -/

section Encoding

variable {n m : ℕ}

private theorem toNat_byte (h : n < 256) : (UInt8.ofNat n).toNat = n := by
  rw [UInt8.toNat_ofNat']
  exact Nat.mod_eq_of_lt h

private theorem le_byte (h : n < 256) (b : UInt8) : b ≤ UInt8.ofNat n ↔ b.toNat ≤ n := by
  rw [UInt8.le_iff_toNat_le, toNat_byte h]

private theorem byte_le (h : n < 256) (b : UInt8) : UInt8.ofNat n ≤ b ↔ n ≤ b.toNat := by
  rw [UInt8.le_iff_toNat_le, toNat_byte h]

private theorem byte_eq (h : n < 256) (b : UInt8) : UInt8.ofNat n = b ↔ n = b.toNat := by
  rw [← UInt8.toNat_inj, toNat_byte h]

/-- The width of a sequence, by the value of its first byte. -/
private theorem utf8CharWidth_byte (h : n < 256) : utf8CharWidth (UInt8.ofNat n) =
    if n ≤ 0x7F then 1 else if 0xC2 ≤ n ∧ n ≤ 0xDF then 2 else if 0xE0 ≤ n ∧ n ≤ 0xEF then 3
      else if 0xF0 ≤ n ∧ n ≤ 0xF4 then 4 else 0 := by
  simp only [utf8CharWidth, byte_le h, le_byte h]
  rfl

private theorem within_byte {lo hi : UInt8} (h : n < 256) (hlo : lo.toNat ≤ n)
    (hhi : n ≤ hi.toNat) : (lo ≤ UInt8.ofNat n && UInt8.ofNat n ≤ hi) = true := by
  rw [Bool.and_eq_true, decide_eq_true_iff, decide_eq_true_iff, le_byte h, byte_le h]
  exact ⟨hlo, hhi⟩

private theorem isCont_byte (h : n < 64) : isCont (UInt8.ofNat (n + 0x80)) = true :=
  within_byte (by omega) (Nat.le_add_left 0x80 n) (show n + 0x80 ≤ 0xBF by omega)

private theorem contBits_byte (h : n < 64) : contBits (UInt8.ofNat (n + 0x80)) = n := by
  rw [contBits, toNat_byte (by omega)]
  omega

/-- A second byte that follows `first` where it starts no shorter encoding, no
surrogate and no code point past the last. -/
private theorem isSecond_byte (h : n < 256) (hm : m < 64) (hlong : n = 0xE0 → 0x20 ≤ m)
    (hsurrogate : n = 0xED → m < 0x20) (hlong' : n = 0xF0 → 0x10 ≤ m)
    (hlast : n = 0xF4 → m < 0x10) :
    isSecond (UInt8.ofNat n) (UInt8.ofNat (m + 0x80)) = true := by
  have hbyte : m + 0x80 < 256 := by omega
  simp only [isSecond, byte_eq h]
  split_ifs with h₁ h₂ h₃ h₄
  · exact within_byte hbyte (Nat.add_le_add_right (hlong h₁) 0x80)
      (show m + 0x80 ≤ 0xBF by omega)
  · have := hsurrogate h₂
    exact within_byte hbyte (Nat.le_add_left 0x80 m) (show m + 0x80 ≤ 0x9F by omega)
  · exact within_byte hbyte (Nat.add_le_add_right (hlong' h₃) 0x80)
      (show m + 0x80 ≤ 0xBF by omega)
  · have := hlast h₄
    exact within_byte hbyte (Nat.le_add_left 0x80 m) (show m + 0x80 ≤ 0x8F by omega)
  · exact isCont_byte hm

/-- **The head of an encoded character is that character.** -/
theorem utf8Head_encode (c : Char) (more : List UInt8) :
    utf8Head (String.utf8EncodeChar c ++ more) =
      .char c (String.utf8EncodeChar c).length := by
  obtain ⟨v, hv⟩ : ∃ v, c.val.toNat = v := ⟨_, rfl⟩
  have hc : Char.ofNat v = c := by rw [← hv]; exact Char.ofNat_toNat c
  have hvalid : v < 0xD800 ∨ 0xDFFF < v ∧ v < 0x110000 := hv ▸ c.valid
  rw [String.utf8EncodeChar, hv]
  split_ifs with h₁ h₂ h₃
  · have hb : (UInt8.ofNat v).toNat = v := toNat_byte (by omega)
    rw [List.cons_append, utf8Head, utf8CharWidth_byte (by omega), if_pos h₁, utf8Sequence, hb, hc]
    rfl
  · have hb : (UInt8.ofNat (v / 64 % 32 + 0xC0)).toNat = v / 64 % 32 + 0xC0 := toNat_byte (by omega)
    have hv' : (v / 64 % 32 + 0xC0) % 32 * 64 + v % 64 = v := by omega
    rw [List.cons_append, utf8Head, utf8CharWidth_byte (by omega), if_neg (by omega),
      if_pos (by omega), utf8Sequence, List.cons_append, nextByte, if_pos (isCont_byte (by omega)),
      contBits_byte (by omega), hb, hv', hc]
    rfl
  · have hb : (UInt8.ofNat (v / 4096 % 16 + 0xE0)).toNat = v / 4096 % 16 + 0xE0 :=
      toNat_byte (by omega)
    have hv' : (v / 4096 % 16 + 0xE0) % 16 * 4096 + v / 64 % 64 * 64 + v % 64 = v := by omega
    rw [List.cons_append, utf8Head, utf8CharWidth_byte (by omega), if_neg (by omega),
      if_neg (by omega), if_pos (by omega), utf8Sequence, List.cons_append, nextByte,
      if_pos (isSecond_byte (by omega) (by omega) (by omega) (by omega) (by omega) (by omega)),
      List.cons_append, nextByte, if_pos (isCont_byte (by omega)), contBits_byte (by omega),
      contBits_byte (by omega), hb, hv', hc]
    rfl
  · have hb : (UInt8.ofNat (v / 262144 % 8 + 0xF0)).toNat = v / 262144 % 8 + 0xF0 :=
      toNat_byte (by omega)
    have hv' : (v / 262144 % 8 + 0xF0) % 8 * 262144 + v / 4096 % 64 * 4096 + v / 64 % 64 * 64 +
        v % 64 = v := by omega
    rw [List.cons_append, utf8Head, utf8CharWidth_byte (by omega), if_neg (by omega),
      if_neg (by omega), if_neg (by omega), if_pos (by omega), utf8Sequence, List.cons_append,
      nextByte,
      if_pos (isSecond_byte (by omega) (by omega) (by omega) (by omega) (by omega) (by omega)),
      List.cons_append, nextByte, if_pos (isCont_byte (by omega)), List.cons_append, nextByte,
      if_pos (isCont_byte (by omega)), contBits_byte (by omega), contBits_byte (by omega),
      contBits_byte (by omega), hb, hv', hc]
    rfl

/-- Lossy decoding loses nothing of an encoded text. -/
theorem fromUtf8Lossy_encode (text : Text) :
    fromUtf8Lossy (text.flatMap String.utf8EncodeChar) = text := by
  have hscan : utf8Scanner.scan (text.flatMap String.utf8EncodeChar) = (text, []) := by
    induction text with
    | nil => exact scan_of_incomplete rfl
    | cons c text ih =>
      rw [List.flatMap_cons, scan_of_char (utf8Head_encode c _), List.drop_left, ih]
  rw [fromUtf8Lossy_eq, hscan, if_pos rfl, List.append_nil]

end Encoding

end Oxillama
