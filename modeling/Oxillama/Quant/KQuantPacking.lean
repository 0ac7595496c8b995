/-
Packing of the K-quants that have scales and minima of sub-blocks, or scales alone
(`oxillama-quant/src/kquant/`: `q2_k.rs`, `q4_k.rs`, `q5_k.rs`, `q6_k.rs`, `helpers.rs`).

An encoder spreads the codes that it has chosen over planes of bytes; `dequant_block` of
the reference kernels collects them again.

* `decodeScalesMins_packScalesMins` — the scales and minima of Q4_K and Q5_K;
* `Q2K.dequantBlock_packBlock` and its siblings — what is dequantised, format by format;
* `packed_codes_unpack` — **the codes of every format are unpacked where they were packed**.
-/
import Oxillama.Quant.FusedDot

namespace Oxillama

namespace Quant

open F32 (lit ofInt)

/-! ### Packing -/

namespace Q2K

/-- The two loops over `packed`, of which the second adds the minima. -/
def packScales (ls lm : List UInt8) : List UInt8 :=
  List.zipWith (fun slot (m : UInt8) => slot ||| (m <<< 4)) ls lm

/-- The byte with four codes. -/
def packLowByte (l : List UInt8) (i : ℕ) : UInt8 :=
  byteAt l i ||| (byteAt l (i + 32) <<< 2) ||| (byteAt l (i + 64) <<< 4) |||
    (byteAt l (i + 96) <<< 6)

/-- The loop over `qs`. -/
def packLow (l : List UInt8) : List UInt8 :=
  [0, 128].flatMap fun j => (List.range 32).map fun i => packLowByte l (j + i)

/-- What `encode_q2_k_block` writes for its codes and the bits of its `f16`s. -/
def packBlock (ls lm l : List UInt8) (d dmin : UInt16) : List UInt8 :=
  packScales ls lm ++ packLow l ++ toLe 2 d.toNat ++ toLe 2 dmin.toNat

end Q2K

/-- One round of the loop that packs a scale and a minimum. -/
def packScaleMin (ls lm : List UInt8) (packed : List UInt8) (j : ℕ) : List UInt8 :=
  let ls := byteAt ls j
  let lm := byteAt lm j
  if j < 4 then (packed.set j ls).set (j + 4) lm
  else
    let packed := packed.set (j + 4) ((ls &&& (0xF : UInt8)) ||| ((lm &&& (0xF : UInt8)) <<< 4))
    let packed := packed.modify (j - 4) (· ||| ((ls >>> 4) <<< 6))
    packed.modify j (· ||| ((lm >>> 4) <<< 6))

/-- The scales and minima of a block in 12 bytes.  The encoders of Q4_K and Q5_K have a copy of
the loop each. -/
def packScalesMins (ls lm : List UInt8) : List UInt8 :=
  (List.range 8).foldl (packScaleMin ls lm) (List.replicate 12 0)

/-- `get_scale_min_k4`: a scale and a minimum as the encoder reads them back. -/
def getScaleMinK4 (j : ℕ) (q : List UInt8) : UInt8 × UInt8 :=
  if j < 4 then (byteAt q j &&& 63, byteAt q (j + 4) &&& 63)
  else
    ((byteAt q (j + 4) &&& (0xF : UInt8)) ||| ((byteAt q (j - 4) >>> 6) <<< 4),
      (byteAt q (j + 4) >>> 4) ||| ((byteAt q j >>> 6) <<< 4))

namespace Q4K

/-- The loop over nibbles. -/
def packLow (l : List UInt8) : List UInt8 :=
  [0, 64, 128, 192].flatMap fun j => (List.range 32).map fun i =>
    byteAt l (j + i) ||| (byteAt l (j + i + 32) <<< 4)

/-- What `encode_q4_k_block` writes for its codes and the bits of its `f16`s. -/
def packBlock (ls lm l : List UInt8) (d dmin : UInt16) : List UInt8 :=
  toLe 2 d.toNat ++ toLe 2 dmin.toNat ++ packScalesMins ls lm ++ packLow l

end Q4K

namespace Q5K

/-- The loop over a group of 64 codes from `n` on: the high bits, and the bytes of low bits. -/
def packGroup (l : List UInt8) (n : ℕ) (m1 m2 : UInt8) :
    List ℕ → List UInt8 → List UInt8 × List UInt8
  | [], qh => (qh, [])
  | j :: js, qh =>
    let l1 := byteAt l (n + j)
    let (l1, qh) := if l1 > 15 then (l1 - 16, qh.modify j (· ||| m1)) else (l1, qh)
    let l2 := byteAt l (n + j + 32)
    let (l2, qh) := if l2 > 15 then (l2 - 16, qh.modify j (· ||| m2)) else (l2, qh)
    let (qh, ql) := packGroup l n m1 m2 js qh
    (qh, (l1 ||| (l2 <<< 4)) :: ql)

/-- The loop over the groups, which advances the bits. -/
def packGroups (l : List UInt8) :
    List ℕ → UInt8 → UInt8 → List UInt8 → List UInt8 × List UInt8
  | [], _, _, qh => (qh, [])
  | n :: ns, m1, m2, qh =>
    let (qh, ql) := packGroup l n m1 m2 (List.range 32) qh
    let (qh, qls) := packGroups l ns (m1 <<< 2) (m2 <<< 2) qh
    (qh, ql ++ qls)

/-- What `encode_q5_k_block` writes for its codes and the bits of its `f16`s. -/
def packBlock (ls lm l : List UInt8) (d dmin : UInt16) : List UInt8 :=
  let (qh, ql) := packGroups l [0, 64, 128, 192] 1 2 (List.replicate 32 0)
  toLe 2 d.toNat ++ toLe 2 dmin.toNat ++ packScalesMins ls lm ++ qh ++ ql

end Q5K

namespace Q6K

/-- The writes of the loop to `ql`. -/
def lowWrites (l : List Int8) : List (ℕ × UInt8) :=
  (List.range 2).flatMap fun group => (List.range 32).flatMap fun i =>
    let j := 128 * group
    let l0 := (l.getD (j + i) 0).toUInt8
    let l1 := (l.getD (j + i + 32) 0).toUInt8
    let l2 := (l.getD (j + i + 64) 0).toUInt8
    let l3 := (l.getD (j + i + 96) 0).toUInt8
    [(group * 64 + i, (l0 &&& (0xF : UInt8)) ||| ((l2 &&& (0xF : UInt8)) <<< 4)),
      (group * 64 + i + 32, (l1 &&& (0xF : UInt8)) ||| ((l3 &&& (0xF : UInt8)) <<< 4))]

/-- Its writes to `qh`. -/
def highWrites (l : List Int8) : List (ℕ × UInt8) :=
  (List.range 2).flatMap fun group => (List.range 32).map fun i =>
    let j := 128 * group
    let l0 := (l.getD (j + i) 0).toUInt8
    let l1 := (l.getD (j + i + 32) 0).toUInt8
    let l2 := (l.getD (j + i + 64) 0).toUInt8
    let l3 := (l.getD (j + i + 96) 0).toUInt8
    (group * 32 + i, (l0 >>> 4) ||| ((l1 >>> 4) <<< 2) ||| ((l2 >>> 4) <<< 4) |||
      ((l3 >>> 4) <<< 6))

/-- What `encode_q6_k_block` writes for its codes and the bits of its `f16`. -/
def packBlock (sc l : List Int8) (d : UInt16) : List UInt8 :=
  applyWrites (lowWrites l) (List.replicate 128 0) ++
    applyWrites (highWrites l) (List.replicate 64 0) ++ sc.map Int8.toUInt8 ++ toLe 2 d.toNat

end Q6K

/-! ### Codes -/

/-- The given codes as bytes. -/
def codeBytes {m : ℕ} (n : ℕ) (c : ℕ → Fin m) : List UInt8 :=
  (List.range n).map fun j => UInt8.ofNat (c j)

theorem byteAt_codeBytes {m n j : ℕ} (c : ℕ → Fin m) (h : j < n) :
    byteAt (codeBytes n c) j = UInt8.ofNat (c j) :=
  Q3K.getD_range_map _ h 0

theorem ofByte_ofNat {F : Type} [F32 F] {n : ℕ} (h : n < 256) :
    (ofByte (.ofNat n) : F) = ofInt (n : ℤ) := by
  rw [ofByte, Q3K.toNat_ofNat_lt h]

/-- A field between what is in front of it and what is behind it. -/
theorem slice_of_append {block a b c : List UInt8} {n m : ℕ} (h : block = a ++ (b ++ c))
    (ha : a.length = n) (hb : b.length = m) : (block.drop n).take m = b := by
  rw [h, List.drop_left' ha, List.take_left' hb]

theorem f16At_of_append {F : Type} [F32 F] {block a c : List UInt8} {n : ℕ} {d : UInt16}
    (h : block = a ++ (toLe 2 d.toNat ++ c)) (ha : a.length = n) :
    (f16At block n : F) = F32.ofF16 d := by
  rw [f16At, slice_of_append h ha (length_toLe 2 _), fromLe_toLe_of_lt d.toNat_lt,
    UInt16.ofNat_toNat]

/-- A byte of a plane that is filled in rows. -/
theorem byteAt_rows {f : ℕ → List UInt8} {xs : List ℕ} {n g i : ℕ}
    (h : ∀ x ∈ xs, (f x).length = n) (hg : g < xs.length) (hi : i < n) :
    byteAt (xs.flatMap f) (g * n + i) = byteAt (f xs[g]) i := by
  have hget := getElem?_row n (xs.flatMap f) g i
  rw [if_pos hi, row_flatMap h hg] at hget
  rw [byteAt, byteAt, List.getD_eq_getElem?_getD, ← hget, List.getD_eq_getElem?_getD]

/-! ### Bits -/

theorem nibbles (a b : Fin 16) :
    (UInt8.ofNat a ||| (UInt8.ofNat b <<< 4)) &&& (0x0F : UInt8) = UInt8.ofNat a ∧
      (UInt8.ofNat a ||| (UInt8.ofNat b <<< 4)) >>> 4 = UInt8.ofNat b := by
  have hsum := Q3K.toNat_nibbles a.isLt b.isLt
  constructor
  · apply UInt8.toNat_inj.mp
    rw [Q3K.toNat_mask_four, hsum, Q3K.toNat_ofNat_lt (by omega)]
    omega
  · apply UInt8.toNat_inj.mp
    rw [← shift_four_and, Q3K.toNat_shift_four, hsum, Q3K.toNat_ofNat_lt (by omega)]
    omega

theorem pairs (c : Fin 4 → Fin 4) (t : Fin 4) :
    ((UInt8.ofNat (c 0) ||| (UInt8.ofNat (c 1) <<< 2) ||| (UInt8.ofNat (c 2) <<< 4) |||
      (UInt8.ofNat (c 3) <<< 6)) >>> UInt8.ofNat (2 * t)) &&& 3 = UInt8.ofNat (c t) := by
  have hsum := Q3K.toNat_pairs (c 0).isLt (c 1).isLt (c 2).isLt (c 3).isLt
  have hshift : (UInt8.ofNat (2 * t)).toNat = 2 * t := Q3K.toNat_ofNat_lt (by omega)
  apply UInt8.toNat_inj.mp
  rw [Q3K.toNat_shift_mask (by omega), hsum, hshift, Q3K.toNat_ofNat_lt (by omega)]
  match t with
  | 0 => show _ / 1 % 4 = _; omega
  | 1 => show _ / 4 % 4 = _; omega
  | 2 => show _ / 16 % 4 = _; omega
  | 3 => show _ / 64 % 4 = _; omega

/-- The nibble and the pair of a code of six bits. -/
theorem six_split (a : Fin 64) : UInt8.ofNat a &&& (0x0F : UInt8) = UInt8.ofNat (a % 16 : ℕ) ∧
    UInt8.ofNat a >>> 4 = UInt8.ofNat (a / 16 : ℕ) ∧
    UInt8.ofNat (a / 16 : ℕ) &&& (0x03 : UInt8) = UInt8.ofNat (a / 16 : ℕ) ∧
    UInt8.ofNat (a % 16 : ℕ) ||| (UInt8.ofNat (a / 16 : ℕ) <<< 4) = UInt8.ofNat a := by
  have ha := Q3K.toNat_ofNat_lt (n := a) (by omega)
  have hpair := Q3K.toNat_ofNat_lt (n := a / 16) (by omega)
  refine ⟨UInt8.toNat_inj.mp ?_, UInt8.toNat_inj.mp ?_, UInt8.toNat_inj.mp ?_,
    UInt8.toNat_inj.mp ?_⟩
  · rw [Q3K.toNat_mask_four, ha, Q3K.toNat_ofNat_lt (by omega)]
  · rw [← shift_four_and, Q3K.toNat_shift_four, ha, hpair]
  · rw [UInt8.toNat_and, hpair]
    exact (Nat.and_two_pow_sub_one_eq_mod _ 2).trans (by omega)
  · rw [Q3K.toNat_nibbles (by omega) (by omega), ha]
    omega

/-- Six bits, with two more of another code above them. -/
theorem six_two (a b : Fin 64) :
    (UInt8.ofNat a ||| ((UInt8.ofNat b >>> 4) <<< 6)) &&& 0x3F = UInt8.ofNat a ∧
      (UInt8.ofNat a ||| ((UInt8.ofNat b >>> 4) <<< 6)) >>> 6 = UInt8.ofNat b >>> 4 := by
  have ha := Q3K.toNat_ofNat_lt (n := a) (by omega)
  have hpair := Q3K.toNat_ofNat_lt (n := b / 16) (by omega)
  have hsum := toNat_or_shiftLeft (a := UInt8.ofNat a) (b := UInt8.ofNat (b / 16 : ℕ)) (k := 6)
    (by decide) (by rw [ha]; exact a.isLt) (by rw [hpair]; show _ / 16 * 64 < 256; omega)
  rw [ha, hpair, show 2 ^ (6 : UInt8).toNat = 64 from rfl] at hsum
  rw [(six_split b).2.1]
  constructor
  · apply UInt8.toNat_inj.mp
    rw [UInt8.toNat_and, hsum, ha]
    exact (Nat.and_two_pow_sub_one_eq_mod _ 6).trans (by omega)
  · apply UInt8.toNat_inj.mp
    rw [UInt8.toNat_shiftRight, hsum, hpair]
    show (_ : ℕ) >>> 6 = _
    rw [Nat.shiftRight_eq_div_pow]
    omega

/-- A bit of a byte. -/
theorem shift_and_one (b : UInt8) {r : ℕ} (hr : r < 8) :
    (b >>> UInt8.ofNat r) &&& 1 = if b.toNat.testBit r then 1 else 0 := by
  apply UInt8.toNat_inj.mp
  rw [UInt8.toNat_and, UInt8.toNat_shiftRight, Q3K.toNat_ofNat_lt (by omega), Nat.mod_eq_of_lt hr,
    Nat.shiftRight_eq_div_pow]
  refine (Nat.and_two_pow_sub_one_eq_mod _ 1).trans ?_
  rw [Nat.testBit_eq_decide_div_mod_eq]
  rcases Nat.mod_two_eq_zero_or_one (b.toNat / 2 ^ r) with h | h
  · rw [h]
    rfl
  · rw [h]
    rfl

/-- The nibble and the highest bit of a code of five bits. -/
theorem five_split (a : Fin 32) :
    (if UInt8.ofNat a > 15 then UInt8.ofNat a - 16 else UInt8.ofNat a) =
        UInt8.ofNat (a % 16 : ℕ) ∧
      UInt8.ofNat (a % 16 : ℕ) |||
        ((if UInt8.ofNat a > 15 then (1 : UInt8) else 0) <<< 4) = UInt8.ofNat a := by
  have ha := Q3K.toNat_ofNat_lt (n := a) (by omega)
  have hgt : UInt8.ofNat a > 15 ↔ 15 < (a : ℕ) := by
    rw [gt_iff_lt, UInt8.lt_iff_toNat_lt, ha]
    rfl
  have hsum := Q3K.toNat_nibbles (a := a % 16) (b := a / 16) (by omega) (by omega)
  have hwhole : UInt8.ofNat (a % 16 : ℕ) ||| (UInt8.ofNat (a / 16 : ℕ) <<< 4) = UInt8.ofNat a := by
    apply UInt8.toNat_inj.mp
    rw [hsum, ha]
    omega
  rcases Nat.lt_or_ge 15 (a : ℕ) with h | h
  · rw [if_pos (hgt.mpr h), if_pos (hgt.mpr h)]
    refine ⟨UInt8.toNat_inj.mp ?_, ?_⟩
    · have hle : (16 : UInt8) ≤ UInt8.ofNat a := by
        rw [UInt8.le_iff_toNat_le, ha]
        exact h
      rw [UInt8.toNat_sub_of_le _ _ hle, ha, Q3K.toNat_ofNat_lt (by omega)]
      show (a : ℕ) - 16 = _
      omega
    · rw [show (a : ℕ) / 16 = 1 by omega] at hwhole
      exact hwhole
  · rw [if_neg (hgt.not.mpr (Nat.not_lt.mpr h)), if_neg (hgt.not.mpr (Nat.not_lt.mpr h))]
    refine ⟨by rw [Nat.mod_eq_of_lt (by omega)], ?_⟩
    rw [show (a : ℕ) / 16 = 0 by omega] at hwhole
    exact hwhole

/-! ### Q2_K -/

section Values

variable {F : Type} [F32 F]

omit [F32 F] in
theorem mem_run {start n : ℕ} {value : ℕ → F} {write : ℕ × F} (h : write ∈ run start n value) :
    ∃ l < n, write = (start + l, value l) := by
  obtain ⟨l, hl, rfl⟩ := List.mem_map.mp h
  exact ⟨l, List.mem_range.mp hl, rfl⟩

omit [F32 F] in
/-- `dequant_block`, where what is written depends on the position alone. -/
theorem dequantInto_of_writes {blockSize blockBytes : ℕ} {writes : List UInt8 → List (ℕ × F)}
    {block : List UInt8} {output : List F} {v : ℕ → F} (hblock : block.length = blockBytes)
    (hout : blockSize ≤ output.length)
    (hall : ((writes block).map Prod.fst).Perm (List.range blockSize))
    (hv : ∀ write ∈ writes block, write.2 = v write.1) :
    dequantInto blockSize blockBytes writes block output =
      .ok ((List.range blockSize).map v ++ output.drop blockSize) := by
  rw [dequantInto_eq hblock.ge hout, applyWrites_of_perm hall hout hv]

namespace Q2K

theorem byteAt_packScales (sc mn : ℕ → Fin 16) {j : ℕ} (hj : j < 16) :
    byteAt (packScales (codeBytes 16 sc) (codeBytes 16 mn)) j =
      UInt8.ofNat (sc j) ||| (UInt8.ofNat (mn j) <<< 4) := by
  interval_cases j <;> rfl

theorem byteAt_packLow (w : ℕ → Fin 4) {g i : ℕ} (hg : g < 2) (hi : i < 32) :
    byteAt (packLow (codeBytes 256 w)) (g * 32 + i) =
      UInt8.ofNat (w (128 * g + i)) ||| (UInt8.ofNat (w (128 * g + i + 32)) <<< 2) |||
        (UInt8.ofNat (w (128 * g + i + 64)) <<< 4) |||
          (UInt8.ofNat (w (128 * g + i + 96)) <<< 6) := by
  have hj : [0, 128][g] = 128 * g := by interval_cases g <;> rfl
  rw [packLow, byteAt_rows (fun x _ => by rw [List.length_map, List.length_range]) hg hi, hj,
    byteAt, Q3K.getD_range_map _ hi, packLowByte, byteAt_codeBytes w (by omega),
    byteAt_codeBytes w (by omega), byteAt_codeBytes w (by omega), byteAt_codeBytes w (by omega)]

/-- What the loops write: step `k` has the sub-blocks `2 * k` and `2 * k + 1`. -/
theorem mem_loopWrites {scales qs : List UInt8} {d dmin : F} {steps : List (ℕ × ℕ)}
    {is outOff : ℕ} {write : ℕ × F}
    (h : write ∈ loopWrites scales qs d dmin steps is outOff) :
    ∃ k step, steps[k]? = some step ∧ ∃ half < 2, ∃ l < 16,
      write = (outOff + 32 * k + 16 * half + l,
        d * ofByte (byteAt scales (is + 2 * k + half) &&& (0x0F : UInt8)) *
          ofByte ((byteAt qs (step.1 + 16 * half + l) >>> UInt8.ofNat step.2) &&& 3) -
        dmin * ofByte (byteAt scales (is + 2 * k + half) >>> 4)) := by
  induction steps generalizing is outOff with
  | nil => cases h
  | cons step steps ih =>
    rw [loopWrites, List.mem_append, List.mem_append] at h
    rcases h with (h | h) | h
    · obtain ⟨l, hl, rfl⟩ := mem_run h
      exact ⟨0, step, rfl, 0, by decide, l, hl, rfl⟩
    · obtain ⟨l, hl, rfl⟩ := mem_run h
      exact ⟨0, step, rfl, 1, by decide, l, hl, rfl⟩
    · obtain ⟨k, step, hk, half, hhalf, l, hl, rfl⟩ := ih h
      refine ⟨k + 1, step, hk, half, hhalf, l, hl, ?_⟩
      rw [show outOff + 32 * (k + 1) = outOff + 32 + 32 * k by omega,
        show is + 2 * (k + 1) = is + 2 + 2 * k by omega]

theorem length_packScales (sc mn : ℕ → Fin 16) :
    (packScales (codeBytes 16 sc) (codeBytes 16 mn)).length = 16 := by
  rw [packScales, List.length_zipWith, codeBytes, codeBytes, List.length_map, List.length_map,
    List.length_range]
  rfl

theorem length_packLow (l : List UInt8) : (packLow l).length = 64 := by
  simp only [packLow, List.length_flatMap, List.length_map, List.length_range]
  rfl

theorem of_step {k : ℕ} {step : ℕ × ℕ} (h : steps[k]? = some step) :
    k < 8 ∧ step = (32 * (k / 4), 2 * (k % 4)) := by
  have hk : k < 8 := (List.getElem?_eq_some_iff.mp h).1
  refine ⟨hk, (Option.some.inj ?_).symm⟩
  rw [← h]
  interval_cases k <;> rfl

/-- **Q2_K**: the codes of the weights with the scales and minima of their sub-blocks. -/
theorem dequantBlock_packBlock (sc mn : ℕ → Fin 16) (w : ℕ → Fin 4) (d dmin : UInt16)
    {output : List F} (hout : 256 ≤ output.length) :
    Format.q2K.dequantBlock
        (packBlock (codeBytes 16 sc) (codeBytes 16 mn) (codeBytes 256 w) d dmin) output =
      .ok ((List.range 256).map (fun p =>
        F32.ofF16 d * ofInt (sc (p / 16) : ℕ) * ofInt (w p : ℕ) -
          F32.ofF16 dmin * ofInt (mn (p / 16) : ℕ)) ++ output.drop 256) := by
  have hblock : packBlock (codeBytes 16 sc) (codeBytes 16 mn) (codeBytes 256 w) d dmin =
      packScales (codeBytes 16 sc) (codeBytes 16 mn) ++ (packLow (codeBytes 256 w) ++
        (toLe 2 d.toNat ++ toLe 2 dmin.toNat)) := by
    rw [packBlock, List.append_assoc, List.append_assoc]
  generalize packBlock (codeBytes 16 sc) (codeBytes 16 mn) (codeBytes 256 w) d dmin = block
    at hblock
  refine dequantInto_of_writes ?_ hout (Format.perm_writes .q2K block) ?_
  · rw [hblock, List.length_append, List.length_append, List.length_append, length_toLe,
      length_toLe, length_packScales, length_packLow]
  intro write hwrite
  have hd : (f16At block 80 : F) = F32.ofF16 d :=
    f16At_of_append (a := packScales (codeBytes 16 sc) (codeBytes 16 mn) ++
      packLow (codeBytes 256 w)) (by rw [hblock, List.append_assoc])
      (by rw [List.length_append, length_packScales, length_packLow])
  have hdmin : (f16At block 82 : F) = F32.ofF16 dmin :=
    f16At_of_append (a := packScales (codeBytes 16 sc) (codeBytes 16 mn) ++
      packLow (codeBytes 256 w) ++ toLe 2 d.toNat) (c := [])
      (by rw [hblock, List.append_nil, List.append_assoc, List.append_assoc])
      (by rw [List.length_append, List.length_append, length_toLe, length_packScales,
        length_packLow])
  have hscales : block.take 16 = packScales (codeBytes 16 sc) (codeBytes 16 mn) := by
    rw [hblock, List.take_left' (length_packScales sc mn)]
  rw [writes, hscales,
    slice_of_append hblock (length_packScales sc mn) (length_packLow _), hd, hdmin] at hwrite
  obtain ⟨k, step, hstep, half, hhalf, l, hl, rfl⟩ := mem_loopWrites hwrite
  obtain ⟨hk, rfl⟩ := of_step hstep
  have hsub : (0 + 32 * k + 16 * half + l) / 16 = 2 * k + half := by omega
  have hsc : byteAt (packScales (codeBytes 16 sc) (codeBytes 16 mn)) (0 + 2 * k + half) &&&
      (0x0F : UInt8) = UInt8.ofNat (sc (2 * k + half)) := by
    rw [Nat.zero_add, byteAt_packScales sc mn (by omega)]
    exact (nibbles _ _).1
  have hmn : byteAt (packScales (codeBytes 16 sc) (codeBytes 16 mn)) (0 + 2 * k + half) >>> 4 =
      UInt8.ofNat (mn (2 * k + half)) := by
    rw [Nat.zero_add, byteAt_packScales sc mn (by omega)]
    exact (nibbles _ _).2
  have hw : (byteAt (packLow (codeBytes 256 w)) (32 * (k / 4) + 16 * half + l) >>>
      UInt8.ofNat (2 * (k % 4))) &&& 3 = UInt8.ofNat (w (0 + 32 * k + 16 * half + l)) := by
    have hpairs := pairs (fun t => w (128 * (k / 4) + (16 * half + l) + 32 * t))
      ⟨k % 4, Nat.mod_lt _ (by decide)⟩
    have hpos : 128 * (k / 4) + (16 * half + l) + 32 * (k % 4) =
        0 + 32 * k + 16 * half + l := by omega
    rw [show 32 * (k / 4) + 16 * half + l = k / 4 * 32 + (16 * half + l) by omega,
      byteAt_packLow w (by omega) (by omega), ← hpos]
    exact hpairs
  show _ * ofByte _ * ofByte _ - _ * ofByte _ = _
  rw [hsc, hmn, hw, ofByte_ofNat (by omega), ofByte_ofNat (by omega), ofByte_ofNat (by omega)]
  dsimp only
  rw [hsub]

end Q2K

/-! ### Scales and minima -/

omit [F32 F] in
/-- The twelve bytes when the loop is done. -/
theorem packScalesMins_eq (ls lm : List UInt8) :
    packScalesMins ls lm =
      (List.range 4).map (fun k => byteAt ls k ||| ((byteAt ls (k + 4) >>> 4) <<< 6)) ++
        (List.range 4).map (fun k => byteAt lm k ||| ((byteAt lm (k + 4) >>> 4) <<< 6)) ++
        (List.range 4).map (fun k => (byteAt ls (k + 4) &&& (0xF : UInt8)) |||
          ((byteAt lm (k + 4) &&& (0xF : UInt8)) <<< 4)) := rfl

omit [F32 F] in
theorem byteAt_packScalesMins (ls lm : List UInt8) {k : ℕ} (hk : k < 4) :
    byteAt (packScalesMins ls lm) k = byteAt ls k ||| ((byteAt ls (k + 4) >>> 4) <<< 6) ∧
      byteAt (packScalesMins ls lm) (k + 4) =
        byteAt lm k ||| ((byteAt lm (k + 4) >>> 4) <<< 6) ∧
      byteAt (packScalesMins ls lm) (k + 8) =
        (byteAt ls (k + 4) &&& (0xF : UInt8)) ||| ((byteAt lm (k + 4) &&& (0xF : UInt8)) <<< 4) := by
  rw [packScalesMins_eq]
  interval_cases k <;> exact ⟨rfl, rfl, rfl⟩

/-- The two halves of `decode_scales_mins`. -/
theorem byteAt_decodeScalesMins (raw : List UInt8) {k : ℕ} (hk : k < 4) :
    (byteAt (decodeScalesMins raw).1 k = byteAt raw k &&& 0x3F ∧
      byteAt (decodeScalesMins raw).1 (k + 4) = (byteAt raw (k + 8) &&& (0x0F : UInt8)) |||
        (((byteAt raw k >>> 6) &&& 0x03) <<< 4)) ∧
    byteAt (decodeScalesMins raw).2 k = byteAt raw (k + 4) &&& 0x3F ∧
      byteAt (decodeScalesMins raw).2 (k + 4) =
        ((byteAt raw (k + 8) >>> 4) &&& (0x0F : UInt8)) |||
          (((byteAt raw (k + 4) >>> 6) &&& 0x03) <<< 4) := by
  interval_cases k <;> exact ⟨⟨rfl, rfl⟩, rfl, rfl⟩

/-- The fields of six bits of two codes, and the nibbles of two more. -/
theorem scale_fields (a b c : Fin 64) :
    (UInt8.ofNat a ||| ((UInt8.ofNat b >>> 4) <<< 6)) &&& 0x3F = UInt8.ofNat a ∧
      (((UInt8.ofNat b &&& (0xF : UInt8)) ||| ((UInt8.ofNat c &&& (0xF : UInt8)) <<< 4)) &&&
          (0x0F : UInt8)) |||
        ((((UInt8.ofNat a ||| ((UInt8.ofNat b >>> 4) <<< 6)) >>> 6) &&& 0x03) <<< 4) =
          UInt8.ofNat b ∧
      ((((UInt8.ofNat c &&& (0xF : UInt8)) ||| ((UInt8.ofNat b &&& (0xF : UInt8)) <<< 4)) >>> 4) &&&
          (0x0F : UInt8)) |||
        ((((UInt8.ofNat a ||| ((UInt8.ofNat b >>> 4) <<< 6)) >>> 6) &&& 0x03) <<< 4) =
          UInt8.ofNat b := by
  obtain ⟨hb, hb', hmask, hsplit⟩ := six_split b
  have hlow := nibbles ⟨b % 16, by omega⟩ ⟨c % 16, by omega⟩
  have hhigh := nibbles ⟨c % 16, by omega⟩ ⟨b % 16, by omega⟩
  refine ⟨(six_two a b).1, ?_, ?_⟩
  · rw [hb, (six_split c).1, hlow.1, (six_two a b).2, hb', hmask, hsplit]
  · rw [hb, (six_split c).1, shift_four_and, hhigh.2, (six_two a b).2, hb', hmask, hsplit]

/-- **The scales and minima of Q4_K and Q5_K** are decoded as they were packed. -/
theorem decodeScalesMins_packScalesMins (sc mn : ℕ → Fin 64) {j : ℕ} (hj : j < 8) :
    byteAt (decodeScalesMins (packScalesMins (codeBytes 8 sc) (codeBytes 8 mn))).1 j =
        UInt8.ofNat (sc j) ∧
      byteAt (decodeScalesMins (packScalesMins (codeBytes 8 sc) (codeBytes 8 mn))).2 j =
        UInt8.ofNat (mn j) := by
  rcases Nat.lt_or_ge j 4 with hk | hk
  · obtain ⟨hls, hlm, -⟩ := byteAt_packScalesMins (codeBytes 8 sc) (codeBytes 8 mn) hk
    obtain ⟨⟨hsc, -⟩, hmn, -⟩ := byteAt_decodeScalesMins _ hk
    rw [hsc, hmn, hls, hlm]
    simp only [byteAt_codeBytes _ hj, byteAt_codeBytes _ (show j + 4 < 8 by omega)]
    exact ⟨(scale_fields _ _ 0).1, (scale_fields _ _ 0).1⟩
  · obtain ⟨k, rfl⟩ := Nat.exists_eq_add_of_le' hk
    have hk : k < 4 := by omega
    obtain ⟨hls, hlm, hboth⟩ := byteAt_packScalesMins (codeBytes 8 sc) (codeBytes 8 mn) hk
    obtain ⟨⟨-, hsc⟩, -, hmn⟩ := byteAt_decodeScalesMins _ hk
    rw [hsc, hmn, hls, hlm, hboth]
    simp only [byteAt_codeBytes _ hj, byteAt_codeBytes _ (show k < 8 by omega)]
    exact ⟨(scale_fields _ _ _).2.1, (scale_fields _ _ _).2.2⟩

/-- The encoder reads what the decoder reads. -/
theorem getScaleMinK4_eq (q : List UInt8) {j : ℕ} (hj : j < 8) :
    getScaleMinK4 j q =
      (byteAt (decodeScalesMins q).1 j, byteAt (decodeScalesMins q).2 j) := by
  have hpair : ∀ b : UInt8, (b >>> 6) &&& (0x03 : UInt8) = b >>> 6 := by
    intro b
    apply UInt8.toNat_inj.mp
    have hlt := b.toNat_lt
    rw [Q3K.toNat_shift_mask (k := 6) (by decide), UInt8.toNat_shiftRight]
    show b.toNat / 64 % 4 = b.toNat >>> 6
    rw [Nat.shiftRight_eq_div_pow]
    omega
  rw [getScaleMinK4]
  rcases Nat.lt_or_ge j 4 with hk | hk
  · obtain ⟨⟨hsc, -⟩, hmn, -⟩ := byteAt_decodeScalesMins q hk
    rw [if_pos hk, hsc, hmn]
  · obtain ⟨k, rfl⟩ := Nat.exists_eq_add_of_le' hk
    obtain ⟨⟨-, hsc⟩, -, hmn⟩ := byteAt_decodeScalesMins q (k := k) (by omega)
    rw [if_neg (by omega), hsc, hmn, hpair, hpair, shift_four_and, Nat.add_sub_cancel]

omit [F32 F] in
theorem length_packScalesMins (ls lm : List UInt8) : (packScalesMins ls lm).length = 12 := by
  rw [packScalesMins_eq]
  rfl

/-! ### Q4_K -/

/-- The nibbles of a byte. -/
def nibble (half : ℕ) (b : UInt8) : UInt8 :=
  if half = 0 then b &&& (0x0F : UInt8) else (b >>> 4) &&& (0x0F : UInt8)

namespace Q4K

theorem byteAt_packLow (w : ℕ → Fin 16) {g i : ℕ} (hg : g < 4) (hi : i < 32) :
    byteAt (packLow (codeBytes 256 w)) (g * 32 + i) =
      UInt8.ofNat (w (64 * g + i)) ||| (UInt8.ofNat (w (64 * g + i + 32)) <<< 4) := by
  have hj : [0, 64, 128, 192][g] = 64 * g := by interval_cases g <;> rfl
  rw [packLow, byteAt_rows (fun x _ => by rw [List.length_map, List.length_range]) hg hi, hj,
    byteAt, Q3K.getD_range_map _ hi, byteAt_codeBytes w (by omega), byteAt_codeBytes w (by omega)]

theorem writes_eq (block : List UInt8) :
    (writes block : List (ℕ × F)) =
      loopWrites ((block.drop 16).take 128) (decodeScalesMins ((block.drop 4).take 12)).1
        (decodeScalesMins ((block.drop 4).take 12)).2 (f16At block 0) (f16At block 2) 4 0 0 0 :=
  rfl

theorem length_packLow (l : List UInt8) : (packLow l).length = 128 := by
  simp only [packLow, List.length_flatMap, List.length_map, List.length_range]
  rfl

/-- What the loop writes: group `g` has the sub-blocks `2 * g` and `2 * g + 1`. -/
theorem mem_loopWrites {qs sc mn : List UInt8} {d dmin : F} {groups is qsOffset outOffset : ℕ}
    {write : ℕ × F}
    (h : write ∈ loopWrites qs sc mn d dmin groups is qsOffset outOffset) :
    ∃ g < groups, ∃ half < 2, ∃ l < 32,
      write = (outOffset + 64 * g + 32 * half + l,
        d * ofByte (byteAt sc (is + 2 * g + half)) *
          ofByte (nibble half (byteAt qs (qsOffset + 32 * g + l))) -
        dmin * ofByte (byteAt mn (is + 2 * g + half))) := by
  induction groups generalizing is qsOffset outOffset with
  | zero => cases h
  | succ groups ih =>
    rw [loopWrites, List.mem_append, List.mem_append] at h
    rcases h with (h | h) | h
    · obtain ⟨l, hl, rfl⟩ := mem_run h
      exact ⟨0, Nat.succ_pos _, 0, by decide, l, hl, rfl⟩
    · obtain ⟨l, hl, rfl⟩ := mem_run h
      exact ⟨0, Nat.succ_pos _, 1, by decide, l, hl, rfl⟩
    · obtain ⟨g, hg, half, hhalf, l, hl, rfl⟩ := ih h
      refine ⟨g + 1, Nat.succ_lt_succ hg, half, hhalf, l, hl, ?_⟩
      rw [show outOffset + 64 * (g + 1) = outOffset + 64 + 64 * g by omega,
        show is + 2 * (g + 1) = is + 2 + 2 * g by omega,
        show qsOffset + 32 * (g + 1) = qsOffset + 32 + 32 * g by omega]

/-- **Q4_K**: the codes of the weights with the scales and minima of their sub-blocks. -/
theorem dequantBlock_packBlock (sc mn : ℕ → Fin 64) (w : ℕ → Fin 16) (d dmin : UInt16)
    {output : List F} (hout : 256 ≤ output.length) :
    Format.q4K.dequantBlock
        (packBlock (codeBytes 8 sc) (codeBytes 8 mn) (codeBytes 256 w) d dmin) output =
      .ok ((List.range 256).map (fun p =>
        F32.ofF16 d * ofInt (sc (p / 32) : ℕ) * ofInt (w p : ℕ) -
          F32.ofF16 dmin * ofInt (mn (p / 32) : ℕ)) ++ output.drop 256) := by
  have hblock : packBlock (codeBytes 8 sc) (codeBytes 8 mn) (codeBytes 256 w) d dmin =
      toLe 2 d.toNat ++ (toLe 2 dmin.toNat ++ (packScalesMins (codeBytes 8 sc) (codeBytes 8 mn) ++
        packLow (codeBytes 256 w))) := by
    rw [packBlock, List.append_assoc, List.append_assoc]
  generalize packBlock (codeBytes 8 sc) (codeBytes 8 mn) (codeBytes 256 w) d dmin = block
    at hblock
  refine dequantInto_of_writes ?_ hout (Format.perm_writes .q4K block) ?_
  · rw [hblock, List.length_append, List.length_append, List.length_append, length_toLe,
      length_toLe, length_packScalesMins, length_packLow]
  intro write hwrite
  have hd : (f16At block 0 : F) = F32.ofF16 d := f16At_of_append (a := []) hblock rfl
  have hdmin : (f16At block 2 : F) = F32.ofF16 dmin := f16At_of_append hblock (length_toLe 2 _)
  have hscales : (block.drop 4).take 12 = packScalesMins (codeBytes 8 sc) (codeBytes 8 mn) :=
    slice_of_append (a := toLe 2 d.toNat ++ toLe 2 dmin.toNat)
      (by rw [hblock, List.append_assoc])
      (by rw [List.length_append, length_toLe, length_toLe]) (length_packScalesMins _ _)
  have hqs : (block.drop 16).take 128 = packLow (codeBytes 256 w) :=
    slice_of_append (c := []) (a := toLe 2 d.toNat ++ toLe 2 dmin.toNat ++
        packScalesMins (codeBytes 8 sc) (codeBytes 8 mn))
      (by rw [hblock, List.append_nil, List.append_assoc, List.append_assoc])
      (by rw [List.length_append, List.length_append, length_toLe, length_toLe,
        length_packScalesMins]) (length_packLow _)
  rw [writes_eq, hscales, hqs, hd, hdmin] at hwrite
  obtain ⟨g, hg, half, hhalf, l, hl, rfl⟩ := mem_loopWrites hwrite
  obtain ⟨hsc, hmn⟩ := decodeScalesMins_packScalesMins sc mn (j := 0 + 2 * g + half) (by omega)
  have hsub : (0 + 64 * g + 32 * half + l) / 32 = 0 + 2 * g + half := by omega
  have hw : nibble half (byteAt (packLow (codeBytes 256 w)) (0 + 32 * g + l)) =
      UInt8.ofNat (w (0 + 64 * g + 32 * half + l)) := by
    rw [show 0 + 32 * g + l = g * 32 + l by omega, byteAt_packLow w hg hl, nibble]
    have hnibbles := nibbles (w (64 * g + l)) (w (64 * g + l + 32))
    rcases Nat.lt_or_ge half 1 with h | h
    · obtain rfl := Nat.lt_one_iff.mp h
      rw [if_pos rfl, hnibbles.1]
      congr 3
      omega
    · obtain rfl : half = 1 := by omega
      rw [if_neg (by decide), shift_four_and, hnibbles.2]
      congr 3
      omega
  show _ * ofByte _ * ofByte _ - _ * ofByte _ = _
  rw [hsc, hmn, hw, ofByte_ofNat (by omega), ofByte_ofNat (by omega), ofByte_ofNat (by omega)]
  dsimp only
  rw [hsub]

end Q4K

/-! ### Q5_K -/

namespace Q5K

/-- The low bits of a code. -/
def low (x : UInt8) : UInt8 := if x > 15 then x - 16 else x

/-- The high bit of a code, as a bit of a plane. -/
def high (m x : UInt8) : UInt8 := if x > 15 then m else 0

omit [F32 F] in
/-- One round of the loop over a group. -/
theorem packGroup_cons (l : List UInt8) (n : ℕ) (m1 m2 : UInt8) (j : ℕ) (js : List ℕ)
    (qh : List UInt8) :
    packGroup l n m1 m2 (j :: js) qh =
      ((packGroup l n m1 m2 js (qh.modify j fun b =>
          b ||| high m1 (byteAt l (n + j)) ||| high m2 (byteAt l (n + j + 32)))).1,
        (low (byteAt l (n + j)) ||| (low (byteAt l (n + j + 32)) <<< 4)) ::
          (packGroup l n m1 m2 js (qh.modify j fun b =>
            b ||| high m1 (byteAt l (n + j)) ||| high m2 (byteAt l (n + j + 32)))).2) := by
  have hid : (fun b : UInt8 => b) = id := rfl
  rw [packGroup]
  by_cases h1 : byteAt l (n + j) > 15
  · by_cases h2 : byteAt l (n + j + 32) > 15
    · simp only [low, high, if_pos h1, if_pos h2, List.modify_modify_eq]
      rfl
    · simp only [low, high, if_pos h1, if_neg h2, UInt8.or_zero]
  · by_cases h2 : byteAt l (n + j + 32) > 15
    · simp only [low, high, if_neg h1, if_pos h2, UInt8.or_zero]
    · simp only [low, high, if_neg h1, if_neg h2, UInt8.or_zero, hid, List.modify_id]

omit [F32 F] in
theorem packGroup_low (l : List UInt8) (n : ℕ) (m1 m2 : UInt8) (js : List ℕ) (qh : List UInt8) :
    (packGroup l n m1 m2 js qh).2 = js.map fun j =>
      low (byteAt l (n + j)) ||| (low (byteAt l (n + j + 32)) <<< 4) := by
  induction js generalizing qh with
  | nil => rfl
  | cons j js ih => rw [packGroup_cons, ih, List.map_cons]

omit [F32 F] in
theorem length_packGroup (l : List UInt8) (n : ℕ) (m1 m2 : UInt8) (js : List ℕ)
    (qh : List UInt8) : (packGroup l n m1 m2 js qh).1.length = qh.length := by
  induction js generalizing qh with
  | nil => rfl
  | cons j js ih => rw [packGroup_cons, ih, List.length_modify]

omit [F32 F] in
/-- A loop over a group adds its two bits to every byte that it visits. -/
theorem packGroup_high (l : List UInt8) (n : ℕ) (m1 m2 : UInt8) {js : List ℕ} {qh : List UInt8}
    {p : ℕ} (hnodup : js.Nodup) (hp : p < qh.length) :
    byteAt (packGroup l n m1 m2 js qh).1 p =
      if p ∈ js then byteAt qh p ||| high m1 (byteAt l (n + p)) |||
        high m2 (byteAt l (n + p + 32)) else byteAt qh p := by
  induction js generalizing qh with
  | nil => rfl
  | cons j js ih =>
    rw [List.nodup_cons] at hnodup
    rw [packGroup_cons, ih hnodup.2 (by rwa [List.length_modify]), byteAt, Q3K.getD_modify hp,
      ← byteAt]
    by_cases hj : j = p
    · subst hj
      rw [if_pos rfl, if_neg hnodup.1, if_pos List.mem_cons_self]
    · have hmem : p ∈ j :: js ↔ p ∈ js := by
        rw [List.mem_cons, or_iff_right (Ne.symm hj)]
      simp only [if_neg hj, hmem]

omit [F32 F] in
theorem packGroups_cons (l : List UInt8) (n : ℕ) (ns : List ℕ) (m1 m2 : UInt8)
    (qh : List UInt8) :
    packGroups l (n :: ns) m1 m2 qh =
      ((packGroups l ns (m1 <<< 2) (m2 <<< 2) (packGroup l n m1 m2 (List.range 32) qh).1).1,
        (packGroup l n m1 m2 (List.range 32) qh).2 ++
          (packGroups l ns (m1 <<< 2) (m2 <<< 2)
            (packGroup l n m1 m2 (List.range 32) qh).1).2) := rfl

omit [F32 F] in
theorem packGroups_low (l : List UInt8) (ns : List ℕ) (m1 m2 : UInt8) (qh : List UInt8) :
    (packGroups l ns m1 m2 qh).2 = ns.flatMap fun n => (List.range 32).map fun j =>
      low (byteAt l (n + j)) ||| (low (byteAt l (n + j + 32)) <<< 4) := by
  induction ns generalizing m1 m2 qh with
  | nil => rfl
  | cons n ns ih => rw [packGroups_cons, ih, packGroup_low, List.flatMap_cons]

omit [F32 F] in
theorem length_packGroups (l : List UInt8) (ns : List ℕ) (m1 m2 : UInt8) (qh : List UInt8) :
    (packGroups l ns m1 m2 qh).1.length = qh.length := by
  induction ns generalizing m1 m2 qh with
  | nil => rfl
  | cons n ns ih => rw [packGroups_cons, ih, length_packGroup]

/-- A byte of the plane of high bits with one more bit. -/
theorem testBit_or_high (b x : UInt8) {m : UInt8} {k : ℕ} (hm : m.toNat = 2 ^ k) (r : ℕ) :
    (b ||| high m x).toNat.testBit r =
      (b.toNat.testBit r || (decide (x > 15) && decide (k = r))) := by
  rw [high]
  by_cases hx : x > 15
  · rw [if_pos hx, testBit_or_two_pow hm, decide_eq_true hx, Bool.true_and]
  · rw [if_neg hx, UInt8.or_zero, decide_eq_false hx, Bool.false_and, Bool.or_false]

/-- The plane of the high bits. -/
theorem byteAt_packGroups (w : ℕ → Fin 32) {p : ℕ} (hp : p < 32) {r : ℕ} (hr : r < 8) :
    (byteAt (packGroups (codeBytes 256 w) [0, 64, 128, 192] 1 2 (List.replicate 32 0)).1 p >>>
        UInt8.ofNat r) &&& 1 =
      if UInt8.ofNat (w (32 * r + p)) > 15 then 1 else 0 := by
  have hround : ∀ (n : ℕ) (m1 m2 : UInt8) {qh : List UInt8}, qh.length = 32 →
      byteAt (packGroup (codeBytes 256 w) n m1 m2 (List.range 32) qh).1 p =
        byteAt qh p ||| high m1 (byteAt (codeBytes 256 w) (n + p)) |||
          high m2 (byteAt (codeBytes 256 w) (n + p + 32)) := by
    intro n m1 m2 qh hlen
    rw [packGroup_high _ n m1 m2 List.nodup_range (by omega), if_pos (List.mem_range.mpr hp)]
  have hlen : (List.replicate 32 (0 : UInt8)).length = 32 := List.length_replicate
  have hzero : byteAt (List.replicate 32 0) p = 0 := List.getD_replicate _ hp
  have hbyte : byteAt (packGroups (codeBytes 256 w) [0, 64, 128, 192] 1 2
      (List.replicate 32 0)).1 p = 0 ||| high 1 (byteAt (codeBytes 256 w) (0 + p)) |||
        high 2 (byteAt (codeBytes 256 w) (0 + p + 32)) |||
        high 4 (byteAt (codeBytes 256 w) (64 + p)) |||
        high 8 (byteAt (codeBytes 256 w) (64 + p + 32)) |||
        high 16 (byteAt (codeBytes 256 w) (128 + p)) |||
        high 32 (byteAt (codeBytes 256 w) (128 + p + 32)) |||
        high 64 (byteAt (codeBytes 256 w) (192 + p)) |||
        high 128 (byteAt (codeBytes 256 w) (192 + p + 32)) := by
    simp only [packGroups]
    rw [hround, hround, hround, hround, hzero]
    · rfl
    all_goals simp only [length_packGroup, hlen]
  -- the bit `r` comes from the code `32 * r + p`
  have hbit : (byteAt (packGroups (codeBytes 256 w) [0, 64, 128, 192] 1 2
      (List.replicate 32 0)).1 p).toNat.testBit r =
      decide (byteAt (codeBytes 256 w) (32 * r + p) > 15) := by
    rw [hbyte, testBit_or_high _ _ (k := 7) rfl, testBit_or_high _ _ (k := 6) rfl,
      testBit_or_high _ _ (k := 5) rfl, testBit_or_high _ _ (k := 4) rfl,
      testBit_or_high _ _ (k := 3) rfl, testBit_or_high _ _ (k := 2) rfl,
      testBit_or_high _ _ (k := 1) rfl, testBit_or_high _ _ (k := 0) rfl]
    interval_cases r <;> simp [Nat.add_comm, Nat.add_left_comm]
  rw [shift_and_one _ hr, hbit, byteAt_codeBytes w (by omega)]
  simp only [decide_eq_true_eq]

theorem byteAt_low (w : ℕ → Fin 32) (m1 m2 : UInt8) (qh : List UInt8) {g i : ℕ} (hg : g < 4)
    (hi : i < 32) :
    byteAt (packGroups (codeBytes 256 w) [0, 64, 128, 192] m1 m2 qh).2 (g * 32 + i) =
      UInt8.ofNat (w (64 * g + i) % 16 : ℕ) |||
        (UInt8.ofNat (w (64 * g + i + 32) % 16 : ℕ) <<< 4) := by
  have hj : [0, 64, 128, 192][g] = 64 * g := by interval_cases g <;> rfl
  rw [packGroups_low, byteAt_rows (fun x _ => by rw [List.length_map, List.length_range]) hg hi,
    hj, byteAt, Q3K.getD_range_map _ hi, byteAt_codeBytes w (by omega),
    byteAt_codeBytes w (by omega), low, low, (five_split _).1, (five_split _).1]

/-- What the loop writes: group `k` has the sub-blocks `2 * k` and `2 * k + 1`. -/
theorem mem_loopWrites {qh qs sc mn : List UInt8} {d dmin : F} {groups : List ℕ}
    {is qsOffset outOffset : ℕ} {write : ℕ × F}
    (h : write ∈ loopWrites qh qs sc mn d dmin groups is qsOffset outOffset) :
    ∃ k group, groups[k]? = some group ∧ ∃ half < 2, ∃ l < 32,
      write = (outOffset + 64 * k + 32 * half + l,
        d * ofByte (byteAt sc (is + 2 * k + half)) *
          ofByte (nibble half (byteAt qs (qsOffset + 32 * k + l)) |||
            (((byteAt qh l >>> UInt8.ofNat (2 * group + half)) &&& 1) <<< 4)) -
        dmin * ofByte (byteAt mn (is + 2 * k + half))) := by
  induction groups generalizing is qsOffset outOffset with
  | nil => cases h
  | cons group groups ih =>
    rw [loopWrites, List.mem_append, List.mem_append] at h
    rcases h with (h | h) | h
    · obtain ⟨l, hl, rfl⟩ := mem_run h
      exact ⟨0, group, rfl, 0, by decide, l, hl, rfl⟩
    · obtain ⟨l, hl, rfl⟩ := mem_run h
      exact ⟨0, group, rfl, 1, by decide, l, hl, rfl⟩
    · obtain ⟨k, group', hk, half, hhalf, l, hl, rfl⟩ := ih h
      refine ⟨k + 1, group', hk, half, hhalf, l, hl, ?_⟩
      rw [show outOffset + 64 * (k + 1) = outOffset + 64 + 64 * k by omega,
        show is + 2 * (k + 1) = is + 2 + 2 * k by omega,
        show qsOffset + 32 * (k + 1) = qsOffset + 32 + 32 * k by omega]

theorem map_fst_loopWrites (qh qs sc mn : List UInt8) (d dmin : F) (groups : List ℕ)
    (is qsOffset outOffset : ℕ) :
    (loopWrites qh qs sc mn d dmin groups is qsOffset outOffset).map Prod.fst =
      List.range' outOffset (64 * groups.length) := by
  induction groups generalizing is qsOffset outOffset with
  | nil => rfl
  | cons group groups ih =>
    simp only [loopWrites, List.map_append, map_fst_run, ih, List.range'_append_1]
    congr 1
    rw [List.length_cons]
    omega

theorem writes_eq (block : List UInt8) :
    (writes block : List (ℕ × F)) =
      loopWrites ((block.drop 16).take 32) ((block.drop 48).take 128)
        (decodeScalesMins ((block.drop 4).take 12)).1
        (decodeScalesMins ((block.drop 4).take 12)).2 (f16At block 0) (f16At block 2)
        [0, 1, 2, 3] 0 0 0 :=
  rfl

theorem perm_writes (block : List UInt8) :
    ((writes block : List (ℕ × F)).map Prod.fst).Perm (List.range 256) := by
  rw [writes_eq, map_fst_loopWrites, List.range_eq_range']
  exact List.Perm.refl _

/-- **Q5_K**: the codes of the weights with the scales and minima of their sub-blocks. -/
theorem dequantBlock_packBlock (sc mn : ℕ → Fin 64) (w : ℕ → Fin 32) (d dmin : UInt16)
    {output : List F} (hout : 256 ≤ output.length) :
    Q5K.dequantBlock
        (packBlock (codeBytes 8 sc) (codeBytes 8 mn) (codeBytes 256 w) d dmin) output =
      .ok ((List.range 256).map (fun p =>
        F32.ofF16 d * ofInt (sc (p / 32) : ℕ) * ofInt (w p : ℕ) -
          F32.ofF16 dmin * ofInt (mn (p / 32) : ℕ)) ++ output.drop 256) := by
  have hqhLen := length_packGroups (codeBytes 256 w) [0, 64, 128, 192] 1 2 (List.replicate 32 0)
  have hqlLen : (packGroups (codeBytes 256 w) [0, 64, 128, 192] 1 2
      (List.replicate 32 0)).2.length = 128 := by
    simp only [packGroups_low, List.length_flatMap, List.length_map, List.length_range]
    rfl
  have hbits := fun {p : ℕ} (hp : p < 32) {r : ℕ} (hr : r < 8) => byteAt_packGroups w hp hr
  have hlow := fun {g i : ℕ} (hg : g < 4) (hi : i < 32) =>
    byteAt_low w 1 2 (List.replicate 32 0) hg hi
  rw [List.length_replicate] at hqhLen
  rw [packBlock]
  generalize packGroups (codeBytes 256 w) [0, 64, 128, 192] 1 2 (List.replicate 32 0) = planes
    at hqhLen hqlLen hbits hlow
  obtain ⟨qh, ql⟩ := planes
  dsimp only at hqhLen hqlLen hbits hlow ⊢
  have hblock : toLe 2 d.toNat ++ toLe 2 dmin.toNat ++
      packScalesMins (codeBytes 8 sc) (codeBytes 8 mn) ++ qh ++ ql =
      toLe 2 d.toNat ++ (toLe 2 dmin.toNat ++ (packScalesMins (codeBytes 8 sc) (codeBytes 8 mn) ++
        (qh ++ ql))) := by
    rw [List.append_assoc, List.append_assoc, List.append_assoc]
  generalize toLe 2 d.toNat ++ toLe 2 dmin.toNat ++
    packScalesMins (codeBytes 8 sc) (codeBytes 8 mn) ++ qh ++ ql = block at hblock
  refine dequantInto_of_writes ?_ hout (perm_writes block) ?_
  · rw [hblock, List.length_append, List.length_append, List.length_append, List.length_append,
      length_toLe, length_toLe, length_packScalesMins, hqhLen, hqlLen]
  intro write hwrite
  have hd : (f16At block 0 : F) = F32.ofF16 d := f16At_of_append (a := []) hblock rfl
  have hdmin : (f16At block 2 : F) = F32.ofF16 dmin := f16At_of_append hblock (length_toLe 2 _)
  have hscales : (block.drop 4).take 12 = packScalesMins (codeBytes 8 sc) (codeBytes 8 mn) :=
    slice_of_append (a := toLe 2 d.toNat ++ toLe 2 dmin.toNat)
      (by rw [hblock, List.append_assoc])
      (by rw [List.length_append, length_toLe, length_toLe]) (length_packScalesMins _ _)
  have hqh : (block.drop 16).take 32 = qh :=
    slice_of_append (a := toLe 2 d.toNat ++ toLe 2 dmin.toNat ++
        packScalesMins (codeBytes 8 sc) (codeBytes 8 mn))
      (by rw [hblock, List.append_assoc, List.append_assoc])
      (by rw [List.length_append, List.length_append, length_toLe, length_toLe,
        length_packScalesMins]) hqhLen
  have hqs : (block.drop 48).take 128 = ql :=
    slice_of_append (c := []) (a := toLe 2 d.toNat ++ toLe 2 dmin.toNat ++
        packScalesMins (codeBytes 8 sc) (codeBytes 8 mn) ++ qh)
      (by rw [hblock, List.append_nil, List.append_assoc, List.append_assoc, List.append_assoc])
      (by rw [List.length_append, List.length_append, List.length_append, length_toLe, length_toLe,
        length_packScalesMins, hqhLen]) hqlLen
  rw [writes_eq, hscales, hqh, hqs, hd, hdmin] at hwrite
  obtain ⟨g, group, hgroup, half, hhalf, l, hl, rfl⟩ := mem_loopWrites hwrite
  have hg : g < 4 := (List.getElem?_eq_some_iff.mp hgroup).1
  obtain rfl : group = g := by
    interval_cases g <;> exact (Option.some.inj hgroup).symm
  obtain ⟨hsc, hmn⟩ := decodeScalesMins_packScalesMins sc mn (j := 0 + 2 * group + half) (by omega)
  have hsub : (0 + 64 * group + 32 * half + l) / 32 = 0 + 2 * group + half := by omega
  have hw : nibble half (byteAt ql (0 + 32 * group + l)) |||
      (((byteAt qh l >>> UInt8.ofNat (2 * group + half)) &&& 1) <<< 4) =
      UInt8.ofNat (w (0 + 64 * group + 32 * half + l)) := by
    have hpos : 32 * (2 * group + half) + l = 0 + 64 * group + 32 * half + l := by omega
    have hfirst := nibbles ⟨w (64 * group + l) % 16, by omega⟩
      ⟨w (64 * group + l + 32) % 16, by omega⟩
    rw [hbits hl (by omega), hpos, show 0 + 32 * group + l = group * 32 + l by omega, hlow hg hl,
      nibble]
    refine Eq.trans ?_ (five_split (w (0 + 64 * group + 32 * half + l))).2
    congr 1
    rcases Nat.lt_or_ge half 1 with h | h
    · obtain rfl := Nat.lt_one_iff.mp h
      rw [if_pos rfl, hfirst.1, show 0 + 64 * group + 32 * 0 + l = 64 * group + l by omega]
    · obtain rfl : half = 1 := by omega
      rw [if_neg (by decide), shift_four_and, hfirst.2,
        show 0 + 64 * group + 32 * 1 + l = 64 * group + l + 32 by omega]
  show _ * ofByte _ * ofByte _ - _ * ofByte _ = _
  rw [hsc, hmn, hw, ofByte_ofNat (by omega), ofByte_ofNat (by omega), ofByte_ofNat (by omega)]
  dsimp only
  rw [hsub]

end Q5K

/-! ### Q6_K -/

namespace Q6K

/-- The given codes as the encoder holds them. -/
def codes (w : ℕ → Fin 64) : List Int8 := (List.range 256).map fun p => Q3K.code (w p)

theorem toUInt8_codes (w : ℕ → Fin 64) {p : ℕ} (hp : p < 256) :
    ((codes w).getD p 0).toUInt8 = UInt8.ofNat (w p) := by
  rw [codes, Q3K.getD_range_map _ hp]
  rfl

/-- A byte of a plane, from the write to it. -/
theorem byteAt_applyWrites {writes : List (ℕ × UInt8)} {p n : ℕ} {b : UInt8}
    (hnodup : (writes.map Prod.fst).Nodup) (hmem : (p, b) ∈ writes) (hp : p < n) :
    byteAt (applyWrites writes (List.replicate n 0)) p = b := by
  rw [byteAt, List.getD_eq_getElem?_getD,
    getElem?_applyWrites hnodup hmem (by rwa [List.length_replicate])]
  rfl

theorem nodup_lowWrites (l : List Int8) : ((lowWrites l).map Prod.fst).Nodup := by
  simp only [lowWrites, List.map_flatMap, List.map_cons, List.map_nil]
  refine nodup_flatMap_range (fun g _ => nodup_flatMap_range (fun i _ => ?_) ?_) ?_
  · simp
  · simp only [List.mem_cons, List.not_mem_nil, or_false]
    omega
  · simp only [List.mem_flatMap, List.mem_range, List.mem_cons, List.not_mem_nil, or_false]
    omega

theorem nodup_highWrites (l : List Int8) : ((highWrites l).map Prod.fst).Nodup := by
  simp only [highWrites, List.map_flatMap, List.map_map, Function.comp_def]
  refine nodup_flatMap_range (fun g _ => ?_) ?_
  · exact List.nodup_range.map fun i j h => by simpa using h
  · simp only [List.mem_map, List.mem_range]
    omega

/-- The planes of a code: its low bits in a nibble, its high bits in a pair. -/
theorem planes (w : ℕ → Fin 64) {g i : ℕ} (hg : g < 2) (hi : i < 32) :
    byteAt (applyWrites (lowWrites (codes w)) (List.replicate 128 0)) (g * 64 + i) =
        UInt8.ofNat (w (128 * g + i) % 16 : ℕ) |||
          (UInt8.ofNat (w (128 * g + i + 64) % 16 : ℕ) <<< 4) ∧
      byteAt (applyWrites (lowWrites (codes w)) (List.replicate 128 0)) (g * 64 + i + 32) =
        UInt8.ofNat (w (128 * g + i + 32) % 16 : ℕ) |||
          (UInt8.ofNat (w (128 * g + i + 96) % 16 : ℕ) <<< 4) ∧
      byteAt (applyWrites (highWrites (codes w)) (List.replicate 64 0)) (g * 32 + i) =
        UInt8.ofNat (w (128 * g + i) / 16 : ℕ) |||
          (UInt8.ofNat (w (128 * g + i + 32) / 16 : ℕ) <<< 2) |||
          (UInt8.ofNat (w (128 * g + i + 64) / 16 : ℕ) <<< 4) |||
          (UInt8.ofNat (w (128 * g + i + 96) / 16 : ℕ) <<< 6) := by
  have hlow : ∀ {p : ℕ}, p < 256 →
      ((codes w).getD p 0).toUInt8 &&& (0xF : UInt8) = UInt8.ofNat (w p % 16 : ℕ) := by
    intro p hp
    rw [toUInt8_codes w hp, (six_split _).1]
  have hhigh : ∀ {p : ℕ}, p < 256 →
      ((codes w).getD p 0).toUInt8 >>> 4 = UInt8.ofNat (w p / 16 : ℕ) := by
    intro p hp
    rw [toUInt8_codes w hp, (six_split _).2.1]
  refine ⟨?_, ?_, ?_⟩
  · rw [← hlow (by omega), ← hlow (by omega)]
    refine byteAt_applyWrites (nodup_lowWrites _) ?_ (by omega)
    exact List.mem_flatMap.mpr ⟨g, List.mem_range.mpr hg, List.mem_flatMap.mpr
      ⟨i, List.mem_range.mpr hi, List.mem_cons_self⟩⟩
  · rw [← hlow (by omega), ← hlow (by omega)]
    refine byteAt_applyWrites (nodup_lowWrites _) ?_ (by omega)
    exact List.mem_flatMap.mpr ⟨g, List.mem_range.mpr hg, List.mem_flatMap.mpr
      ⟨i, List.mem_range.mpr hi, List.mem_cons_of_mem _ List.mem_cons_self⟩⟩
  · rw [← hhigh (by omega), ← hhigh (by omega), ← hhigh (by omega), ← hhigh (by omega)]
    refine byteAt_applyWrites (nodup_highWrites _) ?_ (by omega)
    exact List.mem_flatMap.mpr ⟨g, List.mem_range.mpr hg, List.mem_map.mpr
      ⟨i, List.mem_range.mpr hi, rfl⟩⟩

/-- The low and the high bits of a code are put together. -/
theorem toNat_code (c : Fin 64) :
    (UInt8.ofNat (c % 16 : ℕ) ||| (UInt8.ofNat (c / 16 : ℕ) <<< 4)).toNat = c := by
  rw [(six_split c).2.2.2, Q3K.toNat_ofNat_lt (by omega)]

/-- What the loops write. -/
theorem mem_writes {block : List UInt8} {write : ℕ × F} (h : write ∈ (writes block : List (ℕ × F))) :
    ∃ g < 2, ∃ l < 32, ∃ t < 4,
      write = (g * 128 + l + 32 * t,
        f16At block 208 *
          ofSigned (byteAt ((block.drop 192).take 16) (g * 8 + l / 16 + 2 * t)) *
        ofInt (((nibble (t / 2) (byteAt (block.take 128) (g * 64 + l + 32 * (t % 2))) |||
          (((byteAt ((block.drop 128).take 64) (g * 32 + l) >>> UInt8.ofNat (2 * t)) &&& 3) <<<
            4)).toNat : ℤ) - 32)) := by
  have hhigh : ∀ b, nibble 1 b = b >>> 4 := by
    intro b
    rw [nibble, if_neg (by decide), shift_four_and]
  obtain ⟨g, hg, h⟩ := List.mem_flatMap.mp h
  obtain ⟨l, hl, h⟩ := List.mem_flatMap.mp h
  refine ⟨g, List.mem_range.mp hg, l, List.mem_range.mp hl, ?_⟩
  simp only [List.mem_cons, List.not_mem_nil, or_false] at h
  rcases h with rfl | rfl | rfl | rfl
  · exact ⟨0, by decide, rfl⟩
  · exact ⟨1, by decide, rfl⟩
  · refine ⟨2, by decide, ?_⟩
    rw [show 2 / 2 = 1 from rfl, hhigh]
    rfl
  · refine ⟨3, by decide, ?_⟩
    rw [show 3 / 2 = 1 from rfl, hhigh]
    rfl

/-- **Q6_K**: the codes of the weights with the scales of their sub-blocks. -/
theorem dequantBlock_packBlock (sc : ℕ → Int8) (w : ℕ → Fin 64) (d : UInt16)
    {output : List F} (hout : 256 ≤ output.length) :
    Format.q6K.dequantBlock (packBlock ((List.range 16).map sc) (codes w) d) output =
      .ok ((List.range 256).map (fun p =>
        F32.ofF16 d * ofInt (sc (p / 16)).toInt * ofInt ((w p : ℤ) - 32)) ++ output.drop 256) := by
  have hlowLen : (applyWrites (lowWrites (codes w)) (List.replicate 128 0)).length = 128 := by
    rw [length_applyWrites, List.length_replicate]
  have hhighLen : (applyWrites (highWrites (codes w)) (List.replicate 64 0)).length = 64 := by
    rw [length_applyWrites, List.length_replicate]
  have hplanes := fun {g i : ℕ} (hg : g < 2) (hi : i < 32) => planes w hg hi
  rw [packBlock]
  generalize applyWrites (lowWrites (codes w)) (List.replicate 128 0) = ql at hlowLen hplanes ⊢
  generalize applyWrites (highWrites (codes w)) (List.replicate 64 0) = qh at hhighLen hplanes ⊢
  have hscLen : (((List.range 16).map sc).map Int8.toUInt8).length = 16 := by
    rw [List.length_map, List.length_map, List.length_range]
  have hblock : ql ++ qh ++ ((List.range 16).map sc).map Int8.toUInt8 ++ toLe 2 d.toNat =
      ql ++ (qh ++ (((List.range 16).map sc).map Int8.toUInt8 ++ toLe 2 d.toNat)) := by
    rw [List.append_assoc, List.append_assoc]
  generalize ql ++ qh ++ ((List.range 16).map sc).map Int8.toUInt8 ++ toLe 2 d.toNat = block
    at hblock
  refine dequantInto_of_writes ?_ hout (Format.perm_writes .q6K block) ?_
  · rw [hblock, List.length_append, List.length_append, List.length_append, length_toLe, hlowLen,
      hhighLen, hscLen]
  intro write hwrite
  have hd : (f16At block 208 : F) = F32.ofF16 d :=
    f16At_of_append (c := []) (a := ql ++ qh ++ ((List.range 16).map sc).map Int8.toUInt8)
      (by rw [hblock, List.append_nil, List.append_assoc, List.append_assoc])
      (by rw [List.length_append, List.length_append, hlowLen, hhighLen, hscLen])
  have hql : block.take 128 = ql := by rw [hblock, List.take_left' hlowLen]
  have hqh : (block.drop 128).take 64 = qh := slice_of_append hblock hlowLen hhighLen
  have hscales : (block.drop 192).take 16 = ((List.range 16).map sc).map Int8.toUInt8 :=
    slice_of_append (a := ql ++ qh) (by rw [hblock, List.append_assoc])
      (by rw [List.length_append, hlowLen, hhighLen]) hscLen
  obtain ⟨g, hg, l, hl, t, ht, rfl⟩ := mem_writes hwrite
  obtain ⟨hlow, hlow', hpair⟩ := hplanes hg hl
  have hsub : (g * 128 + l + 32 * t) / 16 = g * 8 + l / 16 + 2 * t := by omega
  have hpos : g * 128 + l + 32 * t = 128 * g + l + 32 * t := by omega
  have hscale : byteAt (((List.range 16).map sc).map Int8.toUInt8) (g * 8 + l / 16 + 2 * t) =
      (sc (g * 8 + l / 16 + 2 * t)).toUInt8 := by
    rw [List.map_map, byteAt, Q3K.getD_range_map _ (by omega)]
    rfl
  have hhigh : (byteAt qh (g * 32 + l) >>> UInt8.ofNat (2 * t)) &&& 3 =
      UInt8.ofNat (w (128 * g + l + 32 * t) / 16 : ℕ) := by
    rw [hpair]
    exact pairs (fun t => ⟨w (128 * g + l + 32 * t) / 16, by omega⟩) ⟨t, ht⟩
  have hnibble : nibble (t / 2) (byteAt ql (g * 64 + l + 32 * (t % 2))) =
      UInt8.ofNat (w (128 * g + l + 32 * t) % 16 : ℕ) := by
    have hfirst := nibbles ⟨w (128 * g + l) % 16, by omega⟩ ⟨w (128 * g + l + 64) % 16, by omega⟩
    have hsecond := nibbles ⟨w (128 * g + l + 32) % 16, by omega⟩
      ⟨w (128 * g + l + 96) % 16, by omega⟩
    rw [← hlow] at hfirst
    rw [← hlow'] at hsecond
    interval_cases t
    · exact hfirst.1
    · exact hsecond.1
    · exact (shift_four_and _).trans hfirst.2
    · exact (shift_four_and _).trans hsecond.2
  show _ * ofSigned _ * ofInt _ = _
  rw [hd, hql, hqh, hscales, hscale, hhigh, hnibble, toNat_code]
  dsimp only
  rw [hsub, hpos]
  rfl

end Q6K

/-! ### All formats -/

/-- **The codes of a super-block are unpacked where they were packed**, whatever they are and
whatever is computed from them. -/
theorem packed_codes_unpack (d dmin : UInt16) {output : List F} (hout : 256 ≤ output.length) :
    (∀ (sc mn : ℕ → Fin 16) (w : ℕ → Fin 4), Format.q2K.dequantBlock
        (Q2K.packBlock (codeBytes 16 sc) (codeBytes 16 mn) (codeBytes 256 w) d dmin) output =
      .ok ((List.range 256).map (fun p =>
        F32.ofF16 d * ofInt (sc (p / 16) : ℕ) * ofInt (w p : ℕ) -
          F32.ofF16 dmin * ofInt (mn (p / 16) : ℕ)) ++ output.drop 256)) ∧
    (∀ (sc mn : ℕ → Fin 64) (w : ℕ → Fin 16), Format.q4K.dequantBlock
        (Q4K.packBlock (codeBytes 8 sc) (codeBytes 8 mn) (codeBytes 256 w) d dmin) output =
      .ok ((List.range 256).map (fun p =>
        F32.ofF16 d * ofInt (sc (p / 32) : ℕ) * ofInt (w p : ℕ) -
          F32.ofF16 dmin * ofInt (mn (p / 32) : ℕ)) ++ output.drop 256)) ∧
    (∀ (sc mn : ℕ → Fin 64) (w : ℕ → Fin 32), Q5K.dequantBlock
        (Q5K.packBlock (codeBytes 8 sc) (codeBytes 8 mn) (codeBytes 256 w) d dmin) output =
      .ok ((List.range 256).map (fun p =>
        F32.ofF16 d * ofInt (sc (p / 32) : ℕ) * ofInt (w p : ℕ) -
          F32.ofF16 dmin * ofInt (mn (p / 32) : ℕ)) ++ output.drop 256)) ∧
    ∀ (sc : ℕ → Int8) (w : ℕ → Fin 64), Format.q6K.dequantBlock
        (Q6K.packBlock ((List.range 16).map sc) (Q6K.codes w) d) output =
      .ok ((List.range 256).map (fun p =>
        F32.ofF16 d * ofInt (sc (p / 16)).toInt * ofInt ((w p : ℤ) - 32)) ++ output.drop 256) :=
  ⟨fun sc mn w => Q2K.dequantBlock_packBlock sc mn w d dmin hout,
    fun sc mn w => Q4K.dequantBlock_packBlock sc mn w d dmin hout,
    fun sc mn w => Q5K.dequantBlock_packBlock sc mn w d dmin hout,
    fun sc w => Q6K.dequantBlock_packBlock sc w d hout⟩

end Values

/-- The largest scale and the largest code, in a block whose `f16`s are 1 and 0. -/
theorem packed_codes_unpack_largest :
    Format.q4K.dequantBlock (Q4K.packBlock (codeBytes 8 fun _ => (63 : Fin 64))
      (codeBytes 8 fun _ => (0 : Fin 64)) (codeBytes 256 fun _ => (15 : Fin 16)) 0x3C00 0)
      (List.replicate 256 (0 : ℚ)) = .ok (List.replicate 256 945) :=
  ((packed_codes_unpack 0x3C00 0 List.length_replicate.ge).2.1 _ _ _).trans (by decide +kernel)

end Quant

end Oxillama
