/-
The core types of the GGUF format (`oxillama-gguf/src/types.rs`, `error.rs`).

The identifiers of value types and tensor types, the block layout of every
tensor type, and the errors that parsing and writing report.
-/
import Mathlib.Data.Nat.Notation

namespace Oxillama

namespace Gguf

/-- `GGUF_MAGIC`. -/
def ggufMagic : UInt32 := 0x46554747

/-- `GGUF_DEFAULT_ALIGNMENT`. -/
def ggufDefaultAlignment : ℕ := 32

/-! ### Errors -/

/-- `GgufError`, the part of it that parsing, writing and converting raise. -/
inductive GgufError
  | invalidMagic (magic : UInt32)
  | unsupportedVersion (version : UInt32)
  | invalidMetadata (key reason : String)
  | tensorNotFound (name : String)
  | unsupportedQuantType (typeId : UInt32)
  /-- `error` is the text of the I/O error. -/
  | mmapError (error : String)
  | unexpectedEof (offset : ℕ)
  /-- `bytes` are what the UTF-8 error of the source holds. -/
  | invalidString (offset : ℕ) (bytes : List UInt8)
  | writeError (reason : String)
  | integrityError (tensorName reason : String)
  | resumeMismatch (detail expected found : String)
  | cannotRequantize (name existing : String)
  | safetensorsParseError (reason : String)
  | unsupportedDtype (dtype : String)
  deriving DecidableEq, Repr

/-- `GgufResult`. -/
abbrev GgufResult (α : Type) := Except GgufError α

/-! ### Hashes -/

/-- The `blake3` crate: the digest of some bytes, and the bytes of a digest. -/
structure Blake3 (Digest : Type) where
  hash : List UInt8 → Digest
  asBytes : Digest → List UInt8

/-! ### Value types -/

/-- `GgufValueType`. -/
inductive GgufValueType
  | uint8
  | int8
  | uint16
  | int16
  | uint32
  | int32
  | float32
  | bool
  | string
  | array
  | uint64
  | int64
  | float64
  deriving DecidableEq, Repr

namespace GgufValueType

/-- `value_type as u32`. -/
def toU32 : GgufValueType → UInt32
  | .uint8 => 0
  | .int8 => 1
  | .uint16 => 2
  | .int16 => 3
  | .uint32 => 4
  | .int32 => 5
  | .float32 => 6
  | .bool => 7
  | .string => 8
  | .array => 9
  | .uint64 => 10
  | .int64 => 11
  | .float64 => 12

/-- `GgufValueType::from_u32`. -/
def fromU32 (value : UInt32) : Option GgufValueType :=
  match value.toNat with
  | 0 => some .uint8
  | 1 => some .int8
  | 2 => some .uint16
  | 3 => some .int16
  | 4 => some .uint32
  | 5 => some .int32
  | 6 => some .float32
  | 7 => some .bool
  | 8 => some .string
  | 9 => some .array
  | 10 => some .uint64
  | 11 => some .int64
  | 12 => some .float64
  | _ => none

theorem fromU32_toU32 (t : GgufValueType) : fromU32 t.toU32 = some t := by
  cases t <;> rfl

end GgufValueType

/-! ### Tensor types -/

/-- `GgufTensorType`. -/
inductive GgufTensorType
  | f32 | f16 | q4_0 | q4_1 | q5_0 | q5_1 | q8_0 | q8_1 | q2K | q3K | q4K | q5K | q6K | q8K
  | iq2Xxs | iq2Xs | iq3Xxs | iq1S | iq4Nl | iq3S | iq2S | iq4Xs | i8 | i16 | i32 | i64 | f64
  | iq1M | bf16 | q4_0_4_4 | q4_0_4_8 | q4_0_8_8 | tq1_0 | tq2_0 | iq4Nl4x4 | iq4Nl4x8
  | iq4Nl8x8 | q1_0G128
  deriving DecidableEq, Repr

namespace GgufTensorType

/-- `tensor_type as u32`. -/
def toU32 : GgufTensorType → UInt32
  | .f32 => 0
  | .f16 => 1
  | .q4_0 => 2
  | .q4_1 => 3
  | .q5_0 => 6
  | .q5_1 => 7
  | .q8_0 => 8
  | .q8_1 => 9
  | .q2K => 10
  | .q3K => 11
  | .q4K => 12
  | .q5K => 13
  | .q6K => 14
  | .q8K => 15
  | .iq2Xxs => 16
  | .iq2Xs => 17
  | .iq3Xxs => 18
  | .iq1S => 19
  | .iq4Nl => 20
  | .iq3S => 21
  | .iq2S => 22
  | .iq4Xs => 23
  | .i8 => 24
  | .i16 => 25
  | .i32 => 26
  | .i64 => 27
  | .f64 => 28
  | .iq1M => 29
  | .bf16 => 30
  | .q4_0_4_4 => 31
  | .q4_0_4_8 => 32
  | .q4_0_8_8 => 33
  | .tq1_0 => 34
  | .tq2_0 => 35
  | .iq4Nl4x4 => 36
  | .iq4Nl4x8 => 37
  | .iq4Nl8x8 => 38
  | .q1_0G128 => 39

/-- `GgufTensorType::from_u32`. -/
def fromU32 (value : UInt32) : Option GgufTensorType :=
  match value.toNat with
  | 0 => some .f32
  | 1 => some .f16
  | 2 => some .q4_0
  | 3 => some .q4_1
  | 6 => some .q5_0
  | 7 => some .q5_1
  | 8 => some .q8_0
  | 9 => some .q8_1
  | 10 => some .q2K
  | 11 => some .q3K
  | 12 => some .q4K
  | 13 => some .q5K
  | 14 => some .q6K
  | 15 => some .q8K
  | 16 => some .iq2Xxs
  | 17 => some .iq2Xs
  | 18 => some .iq3Xxs
  | 19 => some .iq1S
  | 20 => some .iq4Nl
  | 21 => some .iq3S
  | 22 => some .iq2S
  | 23 => some .iq4Xs
  | 24 => some .i8
  | 25 => some .i16
  | 26 => some .i32
  | 27 => some .i64
  | 28 => some .f64
  | 29 => some .iq1M
  | 30 => some .bf16
  | 31 => some .q4_0_4_4
  | 32 => some .q4_0_4_8
  | 33 => some .q4_0_8_8
  | 34 => some .tq1_0
  | 35 => some .tq2_0
  | 36 => some .iq4Nl4x4
  | 37 => some .iq4Nl4x8
  | 38 => some .iq4Nl8x8
  | 39 => some .q1_0G128
  | _ => none

theorem fromU32_toU32 (t : GgufTensorType) : fromU32 t.toU32 = some t := by
  cases t <;> rfl

/-- `GgufTensorType::block_size`. -/
def blockSize : GgufTensorType → ℕ
  | .f32 | .f16 | .bf16 | .f64 => 1
  | .i8 | .i16 | .i32 | .i64 => 1
  | .q4_0 | .q4_1 | .q5_0 | .q5_1 => 32
  | .q8_0 | .q8_1 => 32
  | .q2K | .q3K | .q4K | .q5K | .q6K | .q8K => 256
  | .iq2Xxs | .iq2Xs | .iq2S => 256
  | .iq3Xxs | .iq3S => 256
  | .iq1S | .iq1M => 256
  | .iq4Nl => 32
  | .iq4Xs => 256
  | .q4_0_4_4 | .q4_0_4_8 | .q4_0_8_8 => 32
  | .iq4Nl4x4 | .iq4Nl4x8 | .iq4Nl8x8 => 32
  | .tq1_0 | .tq2_0 => 256
  | .q1_0G128 => 128

/-- `GgufTensorType::block_bytes`. -/
def blockBytes : GgufTensorType → ℕ
  | .f32 => 4
  | .f16 | .bf16 => 2
  | .f64 => 8
  | .i8 => 1
  | .i16 => 2
  | .i32 => 4
  | .i64 => 8
  | .q4_0 => 18
  | .q4_1 => 20
  | .q5_0 => 22
  | .q5_1 => 24
  | .q8_0 => 34
  | .q8_1 => 36
  | .q2K => 84
  | .q3K => 110
  | .q4K => 144
  | .q5K => 176
  | .q6K => 210
  | .q8K => 292
  | .iq2Xxs => 66
  | .iq2Xs => 74
  | .iq2S => 82
  | .iq3Xxs => 98
  | .iq3S => 110
  | .iq1S => 50
  | .iq1M => 56
  | .iq4Nl => 18
  | .iq4Xs => 136
  | .q4_0_4_4 => 18
  | .q4_0_4_8 => 18
  | .q4_0_8_8 => 18
  | .iq4Nl4x4 => 34
  | .iq4Nl4x8 => 34
  | .iq4Nl8x8 => 34
  | .tq1_0 => 54
  | .tq2_0 => 66
  | .q1_0G128 => 18

end GgufTensorType

end Gguf

end Oxillama
