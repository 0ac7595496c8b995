/-
The snapshot of a speculative engine, in bytes (`oxillama-runtime/src/snapshot.rs`).

`encode` appends one field after the other to a buffer that it has allocated for all of
them.  `decode` walks over a buffer that anybody may have written.  Beside its result it
leaves behind the operations that could go wrong and were evaluated: the additions
to the position, the slices and the allocations.

The codec of the two engine snapshots inside is a parameter.  `usize` has 64 bits;
an addition that overflows ends in a panic, right there in a debug build and at the
slice behind it in a release build.
-/
import Oxillama.Lib.Bytes
import Oxillama.Lib.Decoder
import Oxillama.Lib.Usize

namespace Oxillama

namespace Speculative

namespace Snapshot

/-- `SPEC_SNAPSHOT_MAGIC`: `OXISPEC1`. -/
def specSnapshotMagic : List UInt8 := [0x4F, 0x58, 0x49, 0x53, 0x50, 0x45, 0x43, 0x31]

/-- `SPEC_SNAPSHOT_VERSION`. -/
def specSnapshotVersion : ℕ := 1

/-- `SpeculativeEngineSnapshot`, around the snapshots `Snap` of two engines. -/
structure SpeculativeEngineSnapshot (Snap : Type) where
  targetSnapshot : Snap
  draftSnapshot : Snap
  numSpeculative : ℕ
  specSeed : Option ℕ
  acceptedTokens : List ℕ
  rngState : ℕ

/-- `RuntimeError`, the part of it that encoding and decoding raise. -/
inductive RuntimeError
  | snapshotIncompatible (detail : String)
  | specSnapshotIncompatible (reason : String)
  deriving DecidableEq, Repr

/-! ### Runs -/

/-- An operation that can go wrong. -/
inductive Operation
  /-- `pos + n` -/
  | add (pos n : ℕ)
  /-- `bytes[start..stop]` -/
  | slice (start stop : ℕ)
  /-- `Vec::with_capacity(capacity)` -/
  | allocate (capacity : ℕ)
  deriving DecidableEq, Repr

/-- How a run ends early. -/
inductive Stop
  | panic
  | error (e : RuntimeError)
  deriving DecidableEq, Repr

/-- The position, and the operations that were evaluated, the last one first. -/
structure DecodeState where
  pos : ℕ
  evaluated : List Operation

/-- A part of `decode`. -/
abbrev DecodeM := ExceptT Stop (StateM DecodeState)

/-- An operation that panics where it has no value. -/
def evaluate {α : Type} (op : Operation) (value : Option α) : DecodeM α := do
  modify fun s => { s with evaluated := op :: s.evaluated }
  match value with
  | some a => return a
  | none => throw .panic

/-- Returning an error. -/
def fail {α : Type} (reason : String) : DecodeM α :=
  throw (.error (.specSnapshotIncompatible reason))

/-- The error for a field that is not there in full. -/
def truncated (n : ℕ) (label : String) (pos : ℕ) : String :=
  "truncated: expected " ++ toString n ++ " bytes for " ++ label ++ " at offset " ++ toString pos

/-! ### Encoding -/

section Encode

variable {Snap : Type}

/-- The flag of the seed, and the seed. -/
def seedBytes : Option ℕ → List UInt8
  | none => [0x00]
  | some seed => 0x01 :: toLe 8 seed

/-- What the buffer is allocated for, if the engine snapshots have the given lengths. -/
def SpeculativeEngineSnapshot.capacity (s : SpeculativeEngineSnapshot Snap)
    (targetLen draftLen : ℕ) : ℕ :=
  let seedLen := if s.specSeed.isSome then 9 else 1
  8 + 4 + 8 + targetLen + 8 + draftLen + 8 + seedLen + 8 + s.acceptedTokens.length * 4 + 8

/-- The fields, one behind the other. -/
def SpeculativeEngineSnapshot.layout (s : SpeculativeEngineSnapshot Snap)
    (targetBytes draftBytes : List UInt8) : List UInt8 :=
  specSnapshotMagic ++ (toLe 4 specSnapshotVersion ++
    (toLe 8 targetBytes.length ++ targetBytes ++ (toLe 8 draftBytes.length ++ draftBytes ++
      (toLe 8 s.numSpeculative ++ (seedBytes s.specSeed ++
        (toLe 8 s.acceptedTokens.length ++ s.acceptedTokens.flatMap (toLe 4) ++
          toLe 8 s.rngState))))))

/-- `SpeculativeEngineSnapshot::encode`.  No vector has more than `isize::MAX` bytes: where the
capacity is larger, its sum overflows or the allocation panics. -/
def SpeculativeEngineSnapshot.encode (serialize : Snap → Except RuntimeError (List UInt8))
    (s : SpeculativeEngineSnapshot Snap) : Except Stop (List UInt8) := do
  let targetBytes ← (serialize s.targetSnapshot).mapError .error
  let draftBytes ← (serialize s.draftSnapshot).mapError .error
  if s.capacity targetBytes.length draftBytes.length < 2 ^ 63 then
    return s.layout targetBytes draftBytes
  else throw .panic

end Encode

/-! ### Decoding -/

section Decode

variable {Snap : Type} (deserialize : List UInt8 → Except String Snap) (bytes : List UInt8)

/-- `read_exact!`. -/
def readExact (n : ℕ) (label : String) : DecodeM (List UInt8) := do
  let pos := (← get).pos
  let stop ← evaluate (.add pos n) (usizeAdd pos n)
  if stop > bytes.length then fail (truncated n label pos)
  else
    let slice ← evaluate (.slice pos stop) (sliceRange bytes pos stop)
    modify fun s => { s with pos := stop }
    return slice

/-- A little-endian integer of `n` bytes. -/
def readLe (n : ℕ) (label : String) : DecodeM ℕ := do
  return fromLe (← readExact bytes n label)

/-- A length field and the snapshot behind it. -/
def readSnapshot (name : String) : DecodeM Snap := do
  let len ← readLe bytes 8 (name ++ "_len")
  let raw ← readExact bytes len (name ++ "_bytes")
  match deserialize raw with
  | .ok snapshot => return snapshot
  | .error e => fail (name ++ " snapshot corrupt: " ++ e)

/-- The optional seed. -/
def readSeed : DecodeM (Option ℕ) := do
  let hasSeed ← readLe bytes 1 "has_seed"
  if hasSeed = 0x01 then return some (← readLe bytes 8 "seed") else return none

/-- The accepted tokens, into a vector that is allocated for all of them. -/
def readAcceptedTokens : DecodeM (List ℕ) := do
  let acceptedLen ← readLe bytes 8 "accepted_len"
  evaluate (.allocate acceptedLen) (if 4 * acceptedLen < 2 ^ 63 then some () else none)
  iterM (fun tokens => do return tokens ++ [← readLe bytes 4 "accepted_token"]) acceptedLen []

/-- `SpeculativeEngineSnapshot::decode`. -/
def decode : DecodeM (SpeculativeEngineSnapshot Snap) := do
  let magic ← readExact bytes 8 "magic"
  if magic ≠ specSnapshotMagic then
    fail ("invalid magic bytes: expected " ++ toString specSnapshotMagic ++ ", got " ++
      toString magic)
  else
    let version ← readLe bytes 4 "version"
    if version ≠ specSnapshotVersion then
      fail ("unsupported version " ++ toString version ++ " (expected " ++
        toString specSnapshotVersion ++ ")")
    else
      let targetSnapshot ← readSnapshot deserialize bytes "target"
      let draftSnapshot ← readSnapshot deserialize bytes "draft"
      let numSpeculative ← readLe bytes 8 "num_speculative"
      let specSeed ← readSeed bytes
      let acceptedTokens ← readAcceptedTokens bytes
      let rngState ← readLe bytes 8 "rng_state"
      return { targetSnapshot, draftSnapshot, numSpeculative, specSeed, acceptedTokens, rngState }

/-- A run over the whole buffer: its result, and what it has evaluated. -/
def run : Except Stop (SpeculativeEngineSnapshot Snap) × DecodeState :=
  decode deserialize bytes ⟨0, []⟩

end Decode

end Snapshot

end Speculative

end Oxillama
