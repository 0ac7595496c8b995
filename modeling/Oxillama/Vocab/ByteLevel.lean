/-
The byte-level alphabet (`oxillama-runtime/src/gguf_vocab/byte_level.rs`).

Every byte has a printable character; text is encoded byte by byte.

* `charToByte_byteToChar` — the alphabet can be read back;
* `decodeBytes_map` — **what is spelled in the alphabet decodes to its bytes.**
-/
import Mathlib.Data.List.Range
import Mathlib.Data.UInt
import Oxillama.Lib.Str

namespace Oxillama

namespace Text

/-- `str::as_bytes`. -/
def bytes (text : Text) : List UInt8 := text.flatMap String.utf8EncodeChar

@[simp] theorem bytes_append (a b : Text) : bytes (a ++ b) = bytes a ++ bytes b :=
  List.flatMap_append

theorem bytes_flatten (pieces : List Text) : bytes pieces.flatten = pieces.flatMap bytes := by
  induction pieces with
  | nil => rfl
  | cons piece pieces ih => rw [List.flatten_cons, bytes_append, ih, List.flatMap_cons]

end Text

namespace Vocab

/-- `is_printable_byte`. -/
def isPrintableByte (b : ℕ) : Bool :=
  ('!'.toNat ≤ b && b ≤ '~'.toNat) || (0xA1 ≤ b && b ≤ 0xAC) || b ≥ 0xAE

/-- `byte_to_char`: a byte that is not printable has the code point `0x100 + n`, where `n` counts
the bytes of its kind below it. -/
def byteToChar (b : UInt8) : Char :=
  if isPrintableByte b.toNat then Char.ofNat b.toNat
  else Char.ofNat (0x100 + ((List.range b.toNat).filter fun b => !isPrintableByte b).length)

/-- `char_to_byte_table().get(&c)`. -/
def charToByte (c : Char) : Option UInt8 :=
  ((List.range 256).map Nat.toUInt8).find? fun b => byteToChar b == c

/-- `encode_bytes`. -/
def encodeBytes (text : Text) : Text := text.bytes.map byteToChar

/-- `decode_bytes`. -/
def decodeBytes (text : Text) : List UInt8 :=
  text.flatMap fun ch => match charToByte ch with
    | some b => [b]
    | none => String.utf8EncodeChar ch

/-- What can be checked for 256 numbers holds of every byte. -/
theorem forall_byte {P : UInt8 → Prop} (h : ∀ n < 256, P (Nat.toUInt8 n)) (b : UInt8) : P b := by
  have hb := h b.toNat b.toNat_lt
  rwa [show Nat.toUInt8 b.toNat = b from UInt8.ofNat_toNat] at hb

/-- The bytes below `n` that are not printable. -/
def unprintables (n : ℕ) : List ℕ := (List.range n).filter fun b => !isPrintableByte b

theorem length_unprintables_lt {m n : ℕ} (hm : isPrintableByte m = false) (hlt : m < n) :
    (unprintables m).length < (unprintables n).length := by
  have hnext : (unprintables (m + 1)).length = (unprintables m).length + 1 := by
    rw [unprintables, List.range_succ, List.filter_append, List.length_append]
    simp [unprintables, hm]
  have hle : (unprintables (m + 1)).length ≤ (unprintables n).length :=
    ((List.range_sublist.2 hlt).filter _).length_le
  omega

/-- The code point of a byte's character. -/
theorem toNat_byteToChar (b : UInt8) : (byteToChar b).toNat =
    if isPrintableByte b.toNat then b.toNat else 0x100 + (unprintables b.toNat).length := by
  have hb := b.toNat_lt
  have hlength : (unprintables b.toNat).length ≤ b.toNat := by
    have := List.length_filter_le (fun b => !isPrintableByte b) (List.range b.toNat)
    rwa [List.length_range] at this
  have hvalid {n : ℕ} (hn : n < 0xD800) : (Char.ofNat n).toNat = n := by
    rw [Char.ofNat, dif_pos (Or.inl hn)]
    rfl
  rw [byteToChar]
  split
  · exact hvalid (by omega)
  · exact hvalid (by rw [unprintables] at hlength; omega)

/-- **No two bytes have the same character.** -/
theorem byteToChar_injective : Function.Injective byteToChar := by
  intro a b h
  have hcodes := congrArg Char.toNat h
  rw [toNat_byteToChar, toNat_byteToChar] at hcodes
  have ha := a.toNat_lt
  have hb := b.toNat_lt
  refine UInt8.toNat_inj.1 ?_
  split at hcodes
  · split at hcodes
    · exact hcodes
    · omega
  · rename_i hprintable
    split at hcodes
    · omega
    · rename_i hprintable'
      rcases Nat.lt_trichotomy a.toNat b.toNat with hlt | heq | hlt
      · have := length_unprintables_lt (Bool.eq_false_iff.2 hprintable) hlt
        omega
      · exact heq
      · have := length_unprintables_lt (Bool.eq_false_iff.2 hprintable') hlt
        omega

theorem charToByte_byteToChar (b : UInt8) : charToByte (byteToChar b) = some b := by
  have hmem : b ∈ (List.range 256).map Nat.toUInt8 :=
    List.mem_map.2 ⟨b.toNat, List.mem_range.2 b.toNat_lt, UInt8.ofNat_toNat⟩
  rcases hfind : charToByte (byteToChar b) with - | b'
  · have hnone := List.find?_eq_none.1 hfind b hmem
    simp at hnone
  · have hfound := List.find?_some hfind
    rw [byteToChar_injective (eq_of_beq hfound)]

/-- **Decoding what is spelled in the alphabet.** -/
theorem decodeBytes_map (bytes : List UInt8) : decodeBytes (bytes.map byteToChar) = bytes := by
  induction bytes with
  | nil => rfl
  | cons b bytes ih =>
    rw [List.map_cons, decodeBytes, List.flatMap_cons, charToByte_byteToChar]
    exact congrArg (b :: ·) ih

theorem decodeBytes_append (a b : Text) : decodeBytes (a ++ b) = decodeBytes a ++ decodeBytes b :=
  List.flatMap_append

theorem decodeBytes_flatten (pieces : List Text) :
    decodeBytes pieces.flatten = pieces.flatMap decodeBytes := by
  induction pieces with
  | nil => rfl
  | cons piece pieces ih => rw [List.flatten_cons, decodeBytes_append, ih, List.flatMap_cons]

end Vocab

end Oxillama
