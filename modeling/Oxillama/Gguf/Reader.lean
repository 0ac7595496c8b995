/-
The binary reader (`oxillama-gguf/src/reader.rs`).

`BinaryReader` is a cursor over the bytes of a file; its methods are functions
in `ReadM`, which advance it or report an error.  The fixed-width reads are one
function of the width.

The last section says of each method which bytes it reads as which value.
-/
import Oxillama.Lib.Bytes
import Oxillama.Lib.Decoder
import Oxillama.Gguf.Types

namespace Oxillama

namespace Gguf

/-- `BinaryReader`. -/
structure BinaryReader where
  data : List UInt8
  pos : ℕ

/-- A method on `&mut BinaryReader`. -/
abbrev ReadM := StateT BinaryReader GgufResult

namespace BinaryReader

/-- `BinaryReader::position`. -/
def position : ReadM ℕ := do return (← get).pos

/-- `BinaryReader::remaining`. -/
def remaining : ReadM ℕ := do
  let r ← get
  return r.data.length - r.pos

/-- `BinaryReader::check`. -/
def check (n : ℕ) : ReadM Unit := do
  let r ← get
  if n > r.data.length - r.pos then throw (.unexpectedEof r.pos) else return

/-- `BinaryReader::skip`. -/
def skip (n : ℕ) : ReadM Unit := do
  check n
  modify fun r => { r with pos := r.pos + n }

/-- `BinaryReader::read_bytes`. -/
def readBytes (n : ℕ) : ReadM (List UInt8) := do
  check n
  let r ← get
  set { r with pos := r.pos + n }
  return (r.data.drop r.pos).take n

/-- The `n` bytes a fixed-width read checks for and converts with
`from_le_bytes`. -/
def readLe (n : ℕ) : ReadM ℕ := do return fromLe (← readBytes n)

/-- `BinaryReader::read_u8`. -/
def readU8 : ReadM UInt8 := do return .ofNat (← readLe 1)

/-- `BinaryReader::read_u16`. -/
def readU16 : ReadM UInt16 := do return .ofNat (← readLe 2)

/-- `BinaryReader::read_i16`. -/
def readI16 : ReadM Int16 := do return (UInt16.ofNat (← readLe 2)).toInt16

/-- `BinaryReader::read_u32`. -/
def readU32 : ReadM UInt32 := do return .ofNat (← readLe 4)

/-- `BinaryReader::read_i32`. -/
def readI32 : ReadM Int32 := do return (UInt32.ofNat (← readLe 4)).toInt32

/-- `BinaryReader::read_u64`. -/
def readU64 : ReadM UInt64 := do return .ofNat (← readLe 8)

/-- `BinaryReader::read_i64`. -/
def readI64 : ReadM Int64 := do return (UInt64.ofNat (← readLe 8)).toInt64

/-- `BinaryReader::read_f32`, as bits. -/
def readF32 : ReadM UInt32 := do return .ofNat (← readLe 4)

/-- `BinaryReader::read_f64`, as bits. -/
def readF64 : ReadM UInt64 := do return .ofNat (← readLe 8)

/-- `BinaryReader::read_bool`. -/
def readBool : ReadM Bool := do return (← readU8) != 0

/-- The text of a string of `len` bytes.  The length is compared with what
remains before anything is read. -/
def takeString (len : ℕ) : ReadM String := do
  let r ← get
  if len > r.data.length - r.pos then throw (.unexpectedEof r.pos)
  else
    let bytes := (r.data.drop r.pos).take len
    set { r with pos := r.pos + len }
    okOr (.invalidString r.pos bytes) (decodeUtf8 bytes)

/-- A string behind a length of `n` bytes. -/
def readStringOf (n : ℕ) : ReadM String := do takeString (← readLe n)

/-- `BinaryReader::read_string`. -/
def readString : ReadM String := readStringOf 8

/-- `BinaryReader::read_string_v2`. -/
def readStringV2 : ReadM String := readStringOf 4

/-! ### What the methods read -/

theorem readBytes_eq (n : ℕ) (r : BinaryReader) :
    readBytes n r =
      if n > r.data.length - r.pos then .error (.unexpectedEof r.pos)
      else .ok ((r.data.drop r.pos).take n, { r with pos := r.pos + n }) := by
  show (check n r >>= _) = _
  rw [check]
  show ((if n > r.data.length - r.pos then throw (GgufError.unexpectedEof r.pos)
    else Pure.pure () : ReadM Unit) r >>= _) = _
  split <;> rfl

theorem reads_readBytes (bytes : List UInt8) :
    Reads mk (readBytes bytes.length) bytes bytes := by
  intro pre post
  rw [readBytes_eq, if_neg]
  · simp
  · simp only [List.length_append]
    omega

theorem reads_readLe {n v : ℕ} (h : v < 256 ^ n) : Reads mk (readLe n) (toLe n v) v := by
  have hbytes := reads_readBytes (toLe n v)
  rw [length_toLe] at hbytes
  refine hbytes.bind_last ?_
  rw [fromLe_toLe_of_lt h]
  exact Reads.pure v

theorem reads_readU8 (v : UInt8) : Reads mk readU8 (toLe 1 v.toNat) v := by
  refine (reads_readLe v.toNat_lt).bind_last ?_
  rw [UInt8.ofNat_toNat]
  exact Reads.pure v

theorem reads_readU16 (v : UInt16) : Reads mk readU16 (toLe 2 v.toNat) v := by
  refine (reads_readLe v.toNat_lt).bind_last ?_
  rw [UInt16.ofNat_toNat]
  exact Reads.pure v

theorem reads_readI16 (v : Int16) : Reads mk readI16 (toLe 2 v.toUInt16.toNat) v := by
  refine (reads_readLe v.toUInt16.toNat_lt).bind_last ?_
  rw [UInt16.ofNat_toNat, Int16.toInt16_toUInt16]
  exact Reads.pure v

theorem reads_readU32 (v : UInt32) : Reads mk readU32 (toLe 4 v.toNat) v := by
  refine (reads_readLe v.toNat_lt).bind_last ?_
  rw [UInt32.ofNat_toNat]
  exact Reads.pure v

theorem reads_readI32 (v : Int32) : Reads mk readI32 (toLe 4 v.toUInt32.toNat) v := by
  refine (reads_readLe v.toUInt32.toNat_lt).bind_last ?_
  rw [UInt32.ofNat_toNat, Int32.toInt32_toUInt32]
  exact Reads.pure v

theorem reads_readU64 (v : UInt64) : Reads mk readU64 (toLe 8 v.toNat) v := by
  refine (reads_readLe v.toNat_lt).bind_last ?_
  rw [UInt64.ofNat_toNat]
  exact Reads.pure v

theorem reads_readI64 (v : Int64) : Reads mk readI64 (toLe 8 v.toUInt64.toNat) v := by
  refine (reads_readLe v.toUInt64.toNat_lt).bind_last ?_
  rw [UInt64.ofNat_toNat, Int64.toInt64_toUInt64]
  exact Reads.pure v

theorem reads_readBool (v : Bool) : Reads mk readBool [if v then 1 else 0] v := by
  cases v with
  | true => exact (reads_readU8 1).bind_last (Reads.pure true)
  | false => exact (reads_readU8 0).bind_last (Reads.pure false)

theorem takeString_eq (len : ℕ) (r : BinaryReader) :
    takeString len r =
      if len > r.data.length - r.pos then .error (.unexpectedEof r.pos)
      else
        match decodeUtf8 ((r.data.drop r.pos).take len) with
        | some s => .ok (s, { r with pos := r.pos + len })
        | none => .error (.invalidString r.pos ((r.data.drop r.pos).take len)) := by
  show ((if len > r.data.length - r.pos then throw (GgufError.unexpectedEof r.pos)
    else _ : ReadM String) r) = _
  split
  · rfl
  · show (okOr _ (decodeUtf8 ((r.data.drop r.pos).take len)) : ReadM String) _ = _
    cases decodeUtf8 ((r.data.drop r.pos).take len) <;> rfl

theorem reads_takeString (s : String) :
    Reads mk (takeString (encodeUtf8 s).length) (encodeUtf8 s) s := by
  intro pre post
  have htake : ((pre ++ encodeUtf8 s ++ post).drop pre.length).take (encodeUtf8 s).length =
      encodeUtf8 s := by
    simp
  rw [takeString_eq, htake, decodeUtf8_encodeUtf8, if_neg]
  simp only [List.length_append]
  omega

theorem reads_readStringOf {n : ℕ} {s : String} (h : (encodeUtf8 s).length < 256 ^ n) :
    Reads mk (readStringOf n) (toLe n (encodeUtf8 s).length ++ encodeUtf8 s) s :=
  (reads_readLe h).bind (reads_takeString s)

/-- A step that looks at what remains: it sees at least what it goes on to
read. -/
theorem reads_remaining {α : Type} {f : ℕ → ReadM α} {bytes : List UInt8} {a : α}
    (h : ∀ rem, bytes.length ≤ rem → Reads mk (f rem) bytes a) :
    Reads mk (remaining >>= f) bytes a := by
  intro pre post
  refine h ((pre ++ bytes ++ post).length - pre.length) ?_ pre post
  simp only [List.length_append]
  omega

end BinaryReader

end Gguf

end Oxillama
