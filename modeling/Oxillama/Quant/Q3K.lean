/-
The Q3_K format (`oxillama-quant/src/kquant/q3_k.rs`, `helpers.rs`,
`reference/q3_k.rs`).

A block of 256 weights has 16 sub-blocks with a 6-bit scale each, and a 3-bit
code for every weight: the high bits of the codes in 32 bytes, the low bits in
64, the scales in 12, and an `f16` for the whole block.

`encodeQ3KBlock` chooses scales and codes and packs them; `dequantBlock` unpacks
and multiplies them.  An array that a loop fills in order is the list of what it
is filled with.
-/
import Oxillama.Lib.Bytes
import Oxillama.Lib.F32

namespace Oxillama

namespace Quant

open F32 (lit ofInt)

/-- `QuantError`, the part of it that a block kernel raises. -/
inductive QuantError
  | bufferTooSmall (needed available : ℕ)
  deriving DecidableEq, Repr

/-- `QuantResult`. -/
abbrev QuantResult (α : Type) := Except QuantError α

variable {F : Type} [F32 F]

/-- `a > b`. -/
def gt (a b : F) : Bool := F32.lt b a

/-- `n.clamp(lo, hi)`. -/
def clamp (n lo hi : ℤ) : ℤ := if n < lo then lo else if hi < n then hi else n

/-- `nearest_int`. -/
def nearestInt (fval : F) : ℤ :=
  let val := fval + lit 12582912
  (F32.toBits val &&& 0x007fffff).toNat - 0x00400000

namespace Q3K

/-- `QK_K`. -/
def qkK : ℕ := 256

/-- `Q3_K_BLOCK_BYTES`. -/
def blockBytes : ℕ := 110

/-! ### Choosing the codes of a sub-block -/

/-- `make_q3_quants`, one round of the loop over the weights that improves a code.  The sums
are `sumlx` and `suml2`. -/
def improveCode (nmax : ℤ) (x : F) (l : Int8) (sumlx suml2 : F) : Option (Int8 × F × F) :=
  let w := x * x
  let slx := sumlx - w * x * ofInt l.toInt
  if gt slx (lit 0) then
    let sl2 := suml2 - w * ofInt l.toInt * ofInt l.toInt
    let newL := clamp (nearestInt (x * sl2 / slx)) (-nmax) (nmax - 1)
    if Int8.ofInt newL ≠ l then
      let slx := slx + w * x * ofInt newL
      let sl2 := sl2 + w * ofInt newL * ofInt newL
      if gt sl2 (lit 0) && gt (slx * slx * suml2) (sumlx * sumlx * sl2) then
        some (Int8.ofInt newL, slx, sl2)
      else none
    else none
  else none

/-- One pass over the weights: the codes, the sums, and whether a code has changed. -/
def improvePass (nmax : ℤ) : List (F × Int8) → F → F → List Int8 × F × F × Bool
  | [], sumlx, suml2 => ([], sumlx, suml2, false)
  | (x, l) :: rest, sumlx, suml2 =>
    match improveCode nmax x l sumlx suml2 with
    | some (l, sumlx, suml2) =>
      let (ls, sumlx, suml2, _) := improvePass nmax rest sumlx suml2
      (l :: ls, sumlx, suml2, true)
    | none =>
      let (ls, sumlx, suml2, changed) := improvePass nmax rest sumlx suml2
      (l :: ls, sumlx, suml2, changed)

/-- The passes that are left, until one changes nothing. -/
def improve (nmax : ℤ) (x : List F) : ℕ → List Int8 → F → F → List Int8 × F × F
  | 0, l, sumlx, suml2 => (l, sumlx, suml2)
  | n + 1, l, sumlx, suml2 =>
    let (l, sumlx, suml2, changed) := improvePass nmax (x.zip l) sumlx suml2
    if changed then improve nmax x n l sumlx suml2 else (l, sumlx, suml2)

/-- `make_q3_quants` on a sub-block: the scale and the codes. -/
def makeQ3Quants (nmax : ℤ) (x : List F) (doRmse : Bool) : F × List Int8 :=
  let (amax, max) := x.foldl (fun (amax, max) v =>
    let ax := F32.abs v
    if gt ax amax then (ax, v) else (amax, max)) (lit 0, lit 0)
  if F32.lt amax (lit (1 / 10 ^ 15)) then (lit 0, x.map fun _ => 0)
  else
    let iscale := ofInt (-nmax) / max
    let q := fun v : F => clamp (nearestInt (iscale * v)) (-nmax) (nmax - 1)
    if doRmse then
      let (sumlx, suml2) := x.foldl (fun (sumlx, suml2) v =>
        let w := v * v
        (sumlx + w * v * ofInt (q v), suml2 + w * ofInt (q v) * ofInt (q v))) (lit 0, lit 0)
      let (l, sumlx, suml2) := improve nmax x 5 (x.map fun v => Int8.ofInt (q v)) sumlx suml2
      (if gt suml2 (lit 0) then sumlx / suml2 else lit 0, l.map (· + Int8.ofInt nmax))
    else (lit 1 / iscale, x.map fun v => Int8.ofInt (q v + nmax))

/-! ### Packing -/

/-- One round of the loop that packs the scales. -/
def packScale (packed : List UInt8) (scale : Int8 × ℕ) : List UInt8 :=
  let (lv, j) := scale
  let packed :=
    if j < 8 then packed.set j (lv &&& 0xF).toUInt8
    else packed.modify (j - 8) (· ||| ((lv &&& 0xF).toUInt8 <<< 4))
  packed.modify (j % 4 + 8) (· ||| ((lv >>> 4).toUInt8 <<< UInt8.ofNat (2 * (j / 4))))

/-- The scales of a block in 12 bytes. -/
def packScales (lvs : List Int8) : List UInt8 :=
  lvs.zipIdx.foldl packScale (List.replicate 12 0)

/-- A scale as the encoder reads it back. -/
def readScale (packed : List UInt8) (j : ℕ) : Int8 :=
  let sc : Int8 :=
    if j < 8 then (packed.getD j 0 &&& 0xF).toInt8 else (packed.getD (j - 8) 0 >>> 4).toInt8
  (sc ||| (((packed.getD (8 + j % 4) 0 >>> UInt8.ofNat (2 * (j / 4))) &&& 3) <<< 4).toInt8) - 32

/-- The loop over the high bits, behind `m` bytes with the bit `hm`: the bytes, and the codes
without their high bits. -/
def packHigh : List Int8 → ℕ → UInt8 → List UInt8 → List UInt8 × List Int8
  | [], _, _, hmask => (hmask, [])
  | code :: codes, m, hm, hmask =>
    let (hmask, code) :=
      if code > 3 then (hmask.modify m (· ||| hm), code - 4) else (hmask, code)
    let (m, hm) := if m + 1 = qkK / 8 then (0, hm <<< 1) else (m + 1, hm)
    let (hmask, codes) := packHigh codes m hm hmask
    (hmask, code :: codes)

/-- The byte with the low bits of four codes. -/
def packLowByte (l : List Int8) (i : ℕ) : UInt8 :=
  let l0 := (l.getD i 0).toUInt8
  let l1 := (l.getD (i + 32) 0).toUInt8
  let l2 := (l.getD (i + 64) 0).toUInt8
  let l3 := (l.getD (i + 96) 0).toUInt8
  l0 ||| (l1 <<< 2) ||| (l2 <<< 4) ||| (l3 <<< 6)

/-- The loop over the low bits. -/
def packLow (l : List Int8) : List UInt8 :=
  [0, 128].flatMap fun j => (List.range 32).map fun i => packLowByte l (j + i)

/-- What the encoder writes for its codes, its packed scales and the bits of its `f16`. -/
def packBlock (l : List Int8) (packed : List UInt8) (d : UInt16) : List UInt8 :=
  let (hmask, l) := packHigh l 0 1 (List.replicate (qkK / 8) 0)
  hmask ++ packLow l ++ packed ++ toLe 2 d.toNat

/-! ### Encoding -/

/-- The sub-blocks of a block. -/
def subBlocks (x : List F) : List (List F) :=
  (List.range 16).map fun j => (x.drop (16 * j)).take 16

/-- The scale with the largest absolute value. -/
def maxScale (scales : List F) : F :=
  (scales.foldl (fun (amax, max) scale =>
    if gt (F32.abs scale) amax then (F32.abs scale, scale) else (amax, max)) (lit 0, lit 0)).2

/-- A scale as a 6-bit code. -/
def scaleCode (iscale scale : F) : Int8 :=
  Int8.ofInt (clamp (Int8.ofInt (nearestInt (iscale * scale))).toInt (-32) 31) + 32

/-- The codes of a sub-block once its scale is known. -/
def requantize (d : F) (packed : List UInt8) (sub : List F) (codes : List Int8) (j : ℕ) :
    List Int8 :=
  let dj := d * ofInt (readScale packed j).toInt
  if dj == lit 0 then codes
  else sub.map fun v => Int8.ofInt (clamp (nearestInt (v / dj)) (-4) 3 + 4)

/-- `encode_q3_k_block`: what it appends. -/
def encodeQ3KBlock (x : List F) : List UInt8 :=
  let quants := (subBlocks x).map fun sub => makeQ3Quants 4 sub true
  let scales := quants.map Prod.fst
  let max := maxScale scales
  let (packed, d) :=
    if max != lit 0 then
      let iscale := lit (-32) / max
      (packScales (scales.map (scaleCode iscale)), F32.toF16 (lit 1 / iscale))
    else (List.replicate 12 0, F32.toF16 (lit 0 : F))
  let l := ((subBlocks x).zip (quants.map Prod.snd)).zipIdx.flatMap fun ((sub, codes), j) =>
    requantize (F32.ofF16 d) packed sub codes j
  packBlock l packed d

/-! ### Decoding -/

/-- The scales in 12 bytes, before 32 is subtracted. -/
def decodeScaleCodes (scalesRaw : List UInt8) : List UInt32 :=
  let byte := fun j => scalesRaw.getD j 0
  (List.range 4).map (fun j => (byte j &&& 0x3F).toUInt32) ++
    (List.range 4).map (fun j => (byte (4 + j) &&& 0x3F).toUInt32) ++
    (List.range 4).map (fun j => (byte (8 + j) &&& 0x0F).toUInt32 |||
      (((byte j >>> 6) &&& 0x03).toUInt32 <<< 4)) ++
    (List.range 4).map (fun j => ((byte (8 + j) >>> 4) &&& 0x0F).toUInt32 |||
      (((byte (4 + j) >>> 6) &&& 0x03).toUInt32 <<< 4))

/-- `decode_scales`.  The SIMD kernels have copies of it. -/
def decodeScales (scalesRaw : List UInt8) : List F :=
  (decodeScaleCodes scalesRaw).map fun sc => ofInt (sc.toNat - 32)

/-- The code of a weight, from a byte of the low bits and a byte of the high bits. -/
def weightCode (hmask qs : List UInt8) (group shift n l : ℕ) (m : UInt8) : ℤ :=
  let qsIdx := group * 32 + n * 16 + l
  let qLo : ℤ := ((qs.getD qsIdx 0 >>> UInt8.ofNat shift) &&& 3).toNat
  let subtract : ℤ := if hmask.getD (n * 16 + l) 0 &&& m ≠ 0 then 0 else 4
  qLo - subtract

/-- The loops over two sub-blocks and their weights, from the scale with index `is`. -/
def dequantPair (hmask qs : List UInt8) (d : F) (sc : List F) (group shift is : ℕ) (m : UInt8) :
    List F :=
  (List.range 2).flatMap fun n =>
    let dl := d * sc.getD (is + n) (lit 0)
    (List.range 16).map fun l => dl * ofInt (weightCode hmask qs group shift n l m)

/-- The loops over the groups and the shifts, which advance the scale and the bit. -/
def dequantLoop (hmask qs : List UInt8) (d : F) (sc : List F) :
    List (ℕ × ℕ) → ℕ → UInt8 → List F
  | [], _, _ => []
  | (group, shift) :: rest, is, m =>
    dequantPair hmask qs d sc group shift is m ++ dequantLoop hmask qs d sc rest (is + 2) (m <<< 1)

/-- `Q3KRef::dequant_block`, for an output of a given length: the 256 values it writes. -/
def dequantBlock (block : List UInt8) (outputLen : ℕ) : QuantResult (List F) :=
  if block.length < blockBytes then .error (.bufferTooSmall blockBytes block.length)
  else if outputLen < qkK then .error (.bufferTooSmall qkK outputLen)
  else
    let hmask := block.take 32
    let qs := (block.drop 32).take 64
    let scalesRaw := (block.drop 96).take 12
    let d : F := F32.ofF16 (.ofNat (fromLe ((block.drop 108).take 2)))
    let sc := decodeScales scalesRaw
    .ok (dequantLoop hmask qs d sc
      ((List.range 2).flatMap fun group => [0, 2, 4, 6].map fun shift => (group, shift)) 0 1)

end Q3K

end Quant

end Oxillama
