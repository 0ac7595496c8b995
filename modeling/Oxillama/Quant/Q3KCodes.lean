/-
What the decoder of Q3_K makes of the codes the encoder packs.

The two bit planes of the weights are read as they are written.  The scales are
not: the encoder spreads them over the 12 bytes in one way and the decoder
collects them in another.

* `exists_codes` — every encoded block is packed from codes in range;
* `readScale_packCodes` — the encoder itself reads its scales back;
* `weightCode_pack` — the codes of the weights;
* `dequantBlock_pack` — what is dequantised, from the scales that are decoded;
* `unpacks_iff` — **exactly the scales that survive**.
-/
import Mathlib.Tactic.IntervalCases
import Oxillama.Lib.Bytes
import Oxillama.Lib.Blocks
import Oxillama.Quant.Q3K

namespace Oxillama

namespace Quant

namespace Q3K

open F32 (lit ofInt)

/-- A code as the encoder holds it. -/
def code {n : ℕ} (c : Fin n) : Int8 := Int8.ofNat c

/-- The packed scales with the given codes. -/
def packCodes (c : ℕ → Fin 64) : List UInt8 := packScales ((List.range 16).map fun j => code (c j))

/-- The given codes of the weights. -/
def weightCodes (w : ℕ → Fin 8) : List Int8 := (List.range 256).map fun t => code (w t)

/-- The bytes of the high bits. -/
def highBits (w : ℕ → Fin 8) : List UInt8 := (packHigh (weightCodes w) 0 1 (List.replicate 32 0)).1

/-- The bytes of the low bits. -/
def lowBits (w : ℕ → Fin 8) : List UInt8 :=
  packLow (packHigh (weightCodes w) 0 1 (List.replicate 32 0)).2

/-! ### Scales -/

theorem low_code : ∀ c : Fin 64, (code c &&& 0xF).toUInt8 = UInt8.ofNat (c % 16) := by
  decide

theorem high_code : ∀ c : Fin 64, (code c >>> 4).toUInt8 = UInt8.ofNat (c / 16) := by
  decide

theorem packScales_low (lv : ℕ → Int8) {j : ℕ} (hj : j < 8) :
    (packScales ((List.range 16).map lv)).getD j 0 =
      (lv j &&& 0xF).toUInt8 ||| ((lv (j + 8) &&& 0xF).toUInt8 <<< 4) := by
  interval_cases j <;> rfl

theorem packScales_high (lv : ℕ → Int8) {k : ℕ} (hk : k < 4) :
    (packScales ((List.range 16).map lv)).getD (8 + k) 0 =
      (0 : UInt8) ||| ((lv k >>> 4).toUInt8 <<< 0) ||| ((lv (k + 4) >>> 4).toUInt8 <<< 2) |||
        ((lv (k + 8) >>> 4).toUInt8 <<< 4) ||| ((lv (k + 12) >>> 4).toUInt8 <<< 6) := by
  interval_cases k <;> rfl

theorem toNat_ofNat_lt {n : ℕ} (h : n < 256) : (UInt8.ofNat n).toNat = n :=
  UInt8.toNat_ofNat_of_lt' h

/-- Two fields of four bits. -/
theorem toNat_nibbles {a b : ℕ} (ha : a < 16) (hb : b < 16) :
    (UInt8.ofNat a ||| (UInt8.ofNat b <<< 4)).toNat = a + 16 * b := by
  have ha' := toNat_ofNat_lt (n := a) (by omega)
  have hb' := toNat_ofNat_lt (n := b) (by omega)
  have h := toNat_or_shiftLeft (a := UInt8.ofNat a) (b := UInt8.ofNat b) (k := 4) (by decide)
    (by rw [ha']; exact ha) (by rw [hb']; show b * 16 < 256; omega)
  rw [h, ha', hb']
  rfl

/-- Four fields of two bits. -/
theorem toNat_pairs {a b c d : ℕ} (ha : a < 4) (hb : b < 4) (hc : c < 4) (hd : d < 4) :
    (UInt8.ofNat a ||| (UInt8.ofNat b <<< 2) ||| (UInt8.ofNat c <<< 4) |||
      (UInt8.ofNat d <<< 6)).toNat = a + 4 * b + 16 * c + 64 * d := by
  have h : ∀ a b c d : Fin 4, (UInt8.ofNat a ||| (UInt8.ofNat b <<< 2) ||| (UInt8.ofNat c <<< 4) |||
      (UInt8.ofNat d <<< 6)).toNat = a + 4 * b + 16 * c + 64 * d := by
    decide
  exact h ⟨a, ha⟩ ⟨b, hb⟩ ⟨c, hc⟩ ⟨d, hd⟩

/-- The first eight bytes hold the low bits of the scales. -/
theorem packCodes_low (c : ℕ → Fin 64) {j : ℕ} (hj : j < 8) :
    ((packCodes c).getD j 0).toNat = c j % 16 + 16 * (c (j + 8) % 16) := by
  rw [packCodes, packScales_low _ hj, low_code, low_code]
  exact toNat_nibbles (Nat.mod_lt _ (by decide)) (Nat.mod_lt _ (by decide))

/-- The last four bytes hold the high bits of the scales. -/
theorem packCodes_high (c : ℕ → Fin 64) {k : ℕ} (hk : k < 4) :
    ((packCodes c).getD (8 + k) 0).toNat =
      c k / 16 + 4 * (c (k + 4) / 16) + 16 * (c (k + 8) / 16) + 64 * (c (k + 12) / 16) := by
  have hlt : ∀ j, (c j : ℕ) / 16 < 4 := fun j => Nat.div_lt_of_lt_mul (c j).isLt
  rw [packCodes, packScales_high _ hk, high_code, high_code, high_code, high_code,
    UInt8.zero_or, UInt8.shiftLeft_zero]
  exact toNat_pairs (hlt _) (hlt _) (hlt _) (hlt _)

/-! ### Decoded scales -/

theorem toNat_mask_six (b : UInt8) : (b &&& 0x3F).toUInt32.toNat = b.toNat % 64 := by
  rw [UInt8.toNat_toUInt32, UInt8.toNat_and]
  exact Nat.and_two_pow_sub_one_eq_mod _ 6

theorem toNat_mask_four (b : UInt8) : (b &&& 0x0F).toNat = b.toNat % 16 := by
  rw [UInt8.toNat_and]
  exact Nat.and_two_pow_sub_one_eq_mod _ 4

/-- A shift and a mask of two bits. -/
theorem toNat_shift_mask {b k : UInt8} (hk : k.toNat < 8) :
    ((b >>> k) &&& 3).toNat = b.toNat / 2 ^ k.toNat % 4 := by
  rw [UInt8.toNat_and, UInt8.toNat_shiftRight, Nat.mod_eq_of_lt hk, Nat.shiftRight_eq_div_pow]
  exact Nat.and_two_pow_sub_one_eq_mod _ 2

theorem toNat_shift_four (b : UInt8) : ((b >>> 4) &&& 0x0F).toNat = b.toNat / 16 := by
  have hlt := b.toNat_lt
  rw [toNat_mask_four, UInt8.toNat_shiftRight]
  show b.toNat >>> 4 % 16 = _
  rw [Nat.shiftRight_eq_div_pow]
  omega

/-- Six bits from a nibble and a pair. -/
theorem toNat_field {lo hi : UInt8} (hlo : lo.toNat < 16) (hhi : hi.toNat < 4) :
    (lo.toUInt32 ||| (hi.toUInt32 <<< 4)).toNat = lo.toNat + 16 * hi.toNat := by
  rw [UInt32.toNat_or, UInt32.toNat_shiftLeft, UInt8.toNat_toUInt32, UInt8.toNat_toUInt32]
  have hfits : hi.toNat <<< 4 % 2 ^ 32 = hi.toNat <<< 4 := by
    rw [Nat.shiftLeft_eq]
    omega
  show lo.toNat ||| hi.toNat <<< 4 % 2 ^ 32 = _
  rw [hfits]
  exact or_shiftLeft_of_lt hlo _

/-- The decoded scales as numbers. -/
theorem decodeScaleCodes_toNat (raw : List UInt8) :
    (decodeScaleCodes raw).map UInt32.toNat =
      (List.range 8).map (fun j => (raw.getD j 0).toNat % 64) ++
      (List.range 4).map (fun k => (raw.getD (8 + k) 0).toNat % 16 +
        16 * ((raw.getD k 0).toNat / 64)) ++
      (List.range 4).map fun k => (raw.getD (8 + k) 0).toNat / 16 +
        16 * ((raw.getD (4 + k) 0).toNat / 64) := by
  have hpair : ∀ b : UInt8, ((b >>> 6) &&& 0x03).toNat = b.toNat / 64 := by
    intro b
    have hlt := b.toNat_lt
    have h : ((b >>> 6) &&& 3).toNat = b.toNat / 64 % 4 := toNat_shift_mask (k := 6) (by decide)
    rw [h]
    omega
  have hsplit : List.range 8 = List.range 4 ++ (List.range 4).map (4 + ·) := rfl
  simp only [decodeScaleCodes, hsplit, List.map_append, List.map_map]
  refine congrArg₂ (· ++ ·) (congrArg₂ (· ++ ·) (congrArg₂ (· ++ ·) ?_ ?_) ?_) ?_
  · exact List.map_congr_left fun j _ => toNat_mask_six _
  · exact List.map_congr_left fun j _ => toNat_mask_six _
  · refine List.map_congr_left fun j _ => ?_
    have hlo := toNat_mask_four (raw.getD (8 + j) 0)
    have hhi := hpair (raw.getD j 0)
    have hlt := (raw.getD j 0).toNat_lt
    show UInt32.toNat (_ ||| _) = _
    rw [toNat_field (by omega) (by omega), hlo, hhi]
  · refine List.map_congr_left fun j _ => ?_
    have hlo := toNat_shift_four (raw.getD (8 + j) 0)
    have hhi := hpair (raw.getD (4 + j) 0)
    have hlt := (raw.getD (8 + j) 0).toNat_lt
    have hlt' := (raw.getD (4 + j) 0).toNat_lt
    show UInt32.toNat (_ ||| _) = _
    rw [toNat_field (by omega) (by omega), hlo, hhi]

theorem readScale_fields : ∀ (a : Fin 16) (b : Fin 4),
    (((UInt8.ofNat a).toInt8 ||| (UInt8.ofNat b <<< 4).toInt8) - 32).toInt =
      (a + 16 * b : ℤ) - 32 := by
  decide

/-- **The encoder reads its scales back.** -/
theorem readScale_packCodes (c : ℕ → Fin 64) {j : ℕ} (hj : j < 16) :
    (readScale (packCodes c) j).toInt = (c j : ℤ) - 32 := by
  have hlow :
      (if j < 8 then (packCodes c).getD j 0 &&& 0xF else (packCodes c).getD (j - 8) 0 >>> 4) =
      UInt8.ofNat (c j % 16) := by
    rw [← UInt8.toNat_inj, toNat_ofNat_lt (by omega)]
    split
    · rename_i hfirst
      rw [toNat_mask_four, packCodes_low c hfirst]
      omega
    · rename_i hsecond
      obtain ⟨k, rfl⟩ := Nat.exists_eq_add_of_le' (not_lt.mp hsecond)
      rw [Nat.add_sub_cancel, UInt8.toNat_shiftRight, packCodes_low c (by omega)]
      show _ >>> 4 = _
      rw [Nat.shiftRight_eq_div_pow]
      omega
  have hhigh : ((packCodes c).getD (8 + j % 4) 0 >>> UInt8.ofNat (2 * (j / 4))) &&& 3 =
      UInt8.ofNat (c j / 16) := by
    have hc := (c j).isLt
    have hshift : (UInt8.ofNat (2 * (j / 4))).toNat = 2 * (j / 4) := toNat_ofNat_lt (by omega)
    rw [← UInt8.toNat_inj, toNat_ofNat_lt (by omega), toNat_shift_mask (by omega), hshift,
      packCodes_high c (by omega)]
    have hlt : ∀ i, (c i : ℕ) / 16 < 4 := fun i => Nat.div_lt_of_lt_mul (c i).isLt
    have h := hlt (j % 4)
    have h' := hlt (j % 4 + 4)
    have h'' := hlt (j % 4 + 8)
    rcases (by omega : j / 4 = 0 ∨ j / 4 = 1 ∨ j / 4 = 2 ∨ j / 4 = 3) with hq | hq | hq | hq
    · rw [hq, congrArg c (show j = j % 4 by omega)]
      omega
    · rw [hq, congrArg c (show j = j % 4 + 4 by omega)]
      omega
    · rw [hq, congrArg c (show j = j % 4 + 8 by omega)]
      omega
    · rw [hq, congrArg c (show j = j % 4 + 12 by omega)]
      omega
  have hfields := readScale_fields ⟨c j % 16, Nat.mod_lt _ (by decide)⟩
    ⟨c j / 16, Nat.div_lt_of_lt_mul (c j).isLt⟩
  have hread : readScale (packCodes c) j =
      ((if j < 8 then (packCodes c).getD j 0 &&& 0xF
          else (packCodes c).getD (j - 8) 0 >>> 4).toInt8 |||
        ((((packCodes c).getD (8 + j % 4) 0 >>> UInt8.ofNat (2 * (j / 4))) &&& 3) <<< 4).toInt8) -
          32 := by
    rw [readScale]
    split <;> rfl
  rw [hread, hlow, hhigh, hfields]
  show ((c j % 16 : ℕ) : ℤ) + 16 * ((c j / 16 : ℕ) : ℤ) - 32 = _
  omega

/-- The four scales that share their high bits, decoded. -/
theorem decoded_iff {a b e f : ℕ} (ha : a < 64) (hb : b < 64) (he : e < 64) :
    ((a % 16 + 16 * (e % 16)) % 64 = a ∧ (b % 16 + 16 * (f % 16)) % 64 = b ∧
      (a / 16 + 4 * (b / 16) + 16 * (e / 16) + 64 * (f / 16)) % 16 +
        16 * ((a % 16 + 16 * (e % 16)) / 64) = e ∧
      (a / 16 + 4 * (b / 16) + 16 * (e / 16) + 64 * (f / 16)) / 16 +
        16 * ((b % 16 + 16 * (f % 16)) / 64) = f) ↔
      e = a / 16 + 20 * (b / 16) ∧ f = b / 16 + 20 * (f / 16) := by
  constructor
  · omega
  · omega

/-- **The scales that the decoder gets right.** -/
theorem scales_iff (c : ℕ → Fin 64) :
    decodeScaleCodes (packCodes c) = (List.range 16).map (fun j => UInt32.ofNat (c j)) ↔
      ∀ k < 4, (c (k + 8) : ℕ) = c k / 16 + 20 * (c (k + 4) / 16) ∧
        (c (k + 12) : ℕ) = c (k + 4) / 16 + 20 * (c (k + 12) / 16) := by
  have htoNat : ((List.range 16).map fun j => UInt32.ofNat (c j)).map UInt32.toNat =
      (List.range 8).map (fun j => (c j : ℕ)) ++ (List.range 4).map (fun k => (c (k + 8) : ℕ)) ++
        (List.range 4).map fun k => (c (k + 12) : ℕ) := by
    have hc : ∀ j, (UInt32.ofNat (c j)).toNat = c j := fun j =>
      UInt32.toNat_ofNat_of_lt' ((c j).isLt.trans (by decide))
    rw [List.map_map]
    show (List.range 16).map (fun j => (UInt32.ofNat (c j)).toNat) = _
    simp only [hc]
    rfl
  rw [← (List.map_injective_iff.mpr fun _ _ => UInt32.toNat_inj.mp).eq_iff, htoNat,
    decodeScaleCodes_toNat, List.append_assoc, List.append_assoc, map_range_append_eq_iff,
    map_range_append_eq_iff, map_range_eq_iff]
  -- four scales at a time: those with the same high byte
  have hgroup : ∀ k < 4, _ := fun k hk =>
    decoded_iff (f := c (k + 12)) (c k).isLt (c (k + 4)).isLt (c (k + 8)).isLt
  have hlow : ∀ k < 4, ((packCodes c).getD k 0).toNat = _ := fun k hk =>
    packCodes_low c (Nat.lt_of_lt_of_le hk (by decide))
  have hlow' : ∀ k < 4, ((packCodes c).getD (k + 4) 0).toNat =
      c (k + 4) % 16 + 16 * (c (k + 12) % 16) := fun k hk => packCodes_low c (by omega)
  constructor
  · rintro ⟨hfirst, hsecond, hthird⟩ k hk
    refine (hgroup k hk).mp ⟨?_, ?_, ?_, ?_⟩
    · rw [← hlow k hk]
      exact hfirst k (by omega)
    · rw [← hlow' k hk]
      exact hfirst (k + 4) (by omega)
    · rw [← hlow k hk, ← packCodes_high c hk]
      exact hsecond k hk
    · rw [← hlow' k hk, ← packCodes_high c hk, Nat.add_comm k 4]
      exact hthird k hk
  · intro h
    have hgroup := fun k hk => (hgroup k hk).mpr (h k hk)
    refine ⟨fun j hj => ?_, fun k hk => ?_, fun k hk => ?_⟩
    · rcases Nat.lt_or_ge j 4 with hj | hj
      · rw [hlow j hj]
        exact (hgroup j hj).1
      · obtain ⟨k, rfl⟩ := Nat.exists_eq_add_of_le' hj
        rw [hlow' k (by omega)]
        exact (hgroup k (by omega)).2.1
    · rw [packCodes_high c hk, hlow k hk]
      exact (hgroup k hk).2.2.1
    · rw [packCodes_high c hk, Nat.add_comm 4 k, hlow' k hk]
      exact (hgroup k hk).2.2.2

/-! ### The bit planes of the weights -/

/-- A code without its high bit. -/
def lowPart (code : Int8) : Int8 := if code > 3 then code - 4 else code

theorem packHigh_codes (codes : List Int8) (m : ℕ) (hm : UInt8) (hmask : List UInt8) :
    (packHigh codes m hm hmask).2 = codes.map lowPart := by
  induction codes generalizing m hm hmask with
  | nil => rfl
  | cons code codes ih =>
    rw [packHigh, List.map_cons]
    dsimp only
    rw [ih]
    congr 1
    unfold lowPart
    split <;> rfl

theorem getD_modify {xs : List UInt8} {i p : ℕ} (hp : p < xs.length) (f : UInt8 → UInt8) :
    (xs.modify i f).getD p 0 = if i = p then f (xs.getD p 0) else xs.getD p 0 := by
  rw [List.getD_eq_getElem _ _ (by rwa [List.length_modify]), List.getElem_modify,
    List.getD_eq_getElem _ _ hp]

/-- The byte and the bit behind the weight `t`. -/
theorem next_position {t : ℕ} {hm : UInt8} (hhm : hm.toNat = 2 ^ (t / 32)) :
    ∃ hm', (if t % 32 + 1 = qkK / 8 then (0, hm <<< 1) else (t % 32 + 1, hm)) =
      ((t + 1) % 32, hm') ∧ (t + 1 < 256 → hm'.toNat = 2 ^ ((t + 1) / 32)) := by
  show ∃ hm', (if t % 32 + 1 = 32 then (0, hm <<< 1) else (t % 32 + 1, hm)) = _ ∧ _
  by_cases hwrap : t % 32 + 1 = 32
  · refine ⟨hm <<< 1, ?_, fun hlt => ?_⟩
    · rw [if_pos hwrap, show (t + 1) % 32 = 0 by omega]
    · have hfits : 2 ^ (t / 32 + 1) < 2 ^ 8 := Nat.pow_lt_pow_right (by decide) (by omega)
      rw [UInt8.toNat_shiftLeft, hhm, show (t + 1) / 32 = t / 32 + 1 by omega]
      show 2 ^ (t / 32) <<< 1 % 2 ^ 8 = _
      rw [Nat.shiftLeft_eq, pow_one, ← pow_succ, Nat.mod_eq_of_lt hfits]
  · refine ⟨hm, ?_, fun hlt => ?_⟩
    · rw [if_neg hwrap, show (t + 1) % 32 = t % 32 + 1 by omega]
    · rw [hhm, show (t + 1) / 32 = t / 32 by omega]

/-- One round of the loop over the high bits sets one bit at most. -/
theorem testBit_step {t : ℕ} {hm : UInt8} {hmask : List UInt8} (hhm : hm.toNat = 2 ^ (t / 32))
    (code : Int8) (hlen : hmask.length = 32) {p b : ℕ} (hp : p < 32) :
    ((if code > 3 then hmask.modify (t % 32) (· ||| hm) else hmask).getD p 0).toNat.testBit b =
      ((hmask.getD p 0).toNat.testBit b || decide (t = 32 * b + p ∧ code > 3)) := by
  by_cases hcode : code > 3
  · rw [if_pos hcode, getD_modify (by omega)]
    by_cases hpos : t % 32 = p
    · rw [if_pos hpos, testBit_or_two_pow hhm]
      congr 1
      exact decide_eq_decide.mpr ⟨fun h => ⟨by omega, hcode⟩, fun h => by omega⟩
    · have hno : ¬ (t = 32 * b + p ∧ code > 3) := fun h => by omega
      rw [if_neg hpos, decide_eq_false hno, Bool.or_false]
  · have hno : ¬ (t = 32 * b + p ∧ code > 3) := fun h => hcode h.2
    rw [if_neg hcode, decide_eq_false hno, Bool.or_false]

/-- **The high bits**, from the weight `t` on: bit `b` of byte `p` is that of the weight
`32 * b + p`. -/
theorem testBit_packHigh {codes : List Int8} {t : ℕ} {hm : UInt8} {hmask : List UInt8}
    (ht : t + codes.length ≤ 256) (hhm : t < 256 → hm.toNat = 2 ^ (t / 32))
    (hlen : hmask.length = 32) {p b : ℕ} (hp : p < 32) :
    (((packHigh codes (t % 32) hm hmask).1).getD p 0).toNat.testBit b =
      ((hmask.getD p 0).toNat.testBit b ||
        decide (t ≤ 32 * b + p ∧ codes.getD (32 * b + p - t) 0 > 3)) := by
  induction codes generalizing t hm hmask with
  | nil =>
    have hno : ¬ (t ≤ 32 * b + p ∧ (0 : Int8) > 3) := fun h => absurd h.2 (by decide)
    rw [List.getD_nil, decide_eq_false hno, Bool.or_false]
    rfl
  | cons code codes ih =>
    rw [List.length_cons] at ht
    have hhm := hhm (by omega)
    obtain ⟨hm', hnext, hhm'⟩ := next_position hhm
    have hstep := testBit_step hhm code hlen (b := b) hp
    generalize hmask' : (if code > 3 then hmask.modify (t % 32) (· ||| hm) else hmask) =
      mask at hstep
    have hlen' : mask.length = 32 := by
      rw [← hmask']
      split
      · rw [List.length_modify, hlen]
      · exact hlen
    have hunfold : (packHigh (code :: codes) (t % 32) hm hmask).1 =
        (packHigh codes ((t + 1) % 32) hm' mask).1 := by
      rw [packHigh, hnext, ← hmask']
      dsimp only
      split <;> rfl
    rw [hunfold, ih (by omega) hhm' hlen', hstep, Bool.or_assoc, ← Bool.decide_or]
    congr 1
    refine decide_eq_decide.mpr ?_
    -- the weight is this one, or one further on, or none that is left
    rcases Nat.lt_trichotomy t (32 * b + p) with hlt | rfl | hgt
    · rw [show 32 * b + p - t = (32 * b + p - (t + 1)) + 1 by omega, List.getD_cons_succ]
      constructor
      · rintro (h | h)
        · omega
        · exact ⟨hlt.le, h.2⟩
      · intro h
        exact .inr ⟨hlt, h.2⟩
    · rw [Nat.sub_self, List.getD_cons_zero]
      constructor
      · rintro (h | h)
        · exact ⟨le_rfl, h.2⟩
        · omega
      · intro h
        exact .inl ⟨rfl, h.2⟩
    · omega

/-- The low parts of the codes of the weights. -/
def lowParts (w : ℕ → Fin 8) : List Int8 := (weightCodes w).map lowPart

theorem lowBits_eq (w : ℕ → Fin 8) : lowBits w = packLow (lowParts w) := by
  rw [lowBits, packHigh_codes]
  rfl

theorem code_gt_three : ∀ c : Fin 8, code c > 3 ↔ 3 < (c : ℕ) := by
  decide

theorem lowPart_code : ∀ c : Fin 8, (lowPart (code c)).toUInt8 = UInt8.ofNat (c % 4) := by
  decide

theorem getD_range_map {α : Type} (f : ℕ → α) {n i : ℕ} (h : i < n) (a : α) :
    ((List.range n).map f).getD i a = f i := by
  rw [List.getD_eq_getElem _ _ (by rwa [List.length_map, List.length_range]), List.getElem_map,
    List.getElem_range]

theorem lowParts_getD (w : ℕ → Fin 8) {t : ℕ} (h : t < 256) :
    ((lowParts w).getD t 0).toUInt8 = UInt8.ofNat (w t % 4) := by
  rw [lowParts, weightCodes, List.map_map, getD_range_map _ h]
  exact lowPart_code (w t)

/-- The low bits of four weights in a byte. -/
theorem lowBits_getD (w : ℕ → Fin 8) {group i : ℕ} (hgroup : group < 2) (hi : i < 32) :
    ((lowBits w).getD (32 * group + i) 0).toNat =
      w (128 * group + i) % 4 + 4 * (w (128 * group + i + 32) % 4) +
        16 * (w (128 * group + i + 64) % 4) + 64 * (w (128 * group + i + 96) % 4) := by
  have hbyte : (lowBits w).getD (32 * group + i) 0 =
      packLowByte (lowParts w) (128 * group + i) := by
    have hlow : packLow (lowParts w) =
        (List.range 32).map (fun i => packLowByte (lowParts w) (0 + i)) ++
          (List.range 32).map fun i => packLowByte (lowParts w) (128 + i) := by
      rw [packLow, List.flatMap_cons, List.flatMap_cons, List.flatMap_nil, List.append_nil]
    have hlen : ((List.range 32).map fun i => packLowByte (lowParts w) (0 + i)).length = 32 := by
      rw [List.length_map, List.length_range]
    rw [lowBits_eq, hlow]
    rcases (by omega : group = 0 ∨ group = 1) with rfl | rfl
    · rw [List.getD_append _ _ _ _ (by omega), Nat.mul_zero, Nat.zero_add, getD_range_map _ hi,
        Nat.zero_add]
    · rw [List.getD_append_right _ _ _ _ (by omega), hlen, Nat.mul_one,
        Nat.add_sub_cancel_left, getD_range_map _ hi]
  have hlt : ∀ t, (w t : ℕ) % 4 < 4 := fun t => Nat.mod_lt _ (by decide)
  rw [hbyte, packLowByte, lowParts_getD w (by omega), lowParts_getD w (by omega),
    lowParts_getD w (by omega),
    lowParts_getD w (by omega)]
  exact toNat_pairs (hlt _) (hlt _) (hlt _) (hlt _)

/-- The high bit of a weight. -/
theorem highBits_testBit (w : ℕ → Fin 8) {p b : ℕ} (hp : p < 32) (hb : b < 8) :
    ((highBits w).getD p 0).toNat.testBit b = decide (3 < (w (32 * b + p) : ℕ)) := by
  have hlen : (weightCodes w).length = 256 := by
    rw [weightCodes, List.length_map, List.length_range]
  have h : ((packHigh (weightCodes w) (0 % 32) 1 (List.replicate 32 0)).1.getD p 0).toNat.testBit
      b = _ := testBit_packHigh (by omega) (fun _ => rfl) List.length_replicate hp
  have hzero : ((List.replicate 32 (0 : UInt8)).getD p 0).toNat.testBit b = false := by
    rw [List.getD_replicate _ hp]
    exact Nat.zero_testBit b
  rw [highBits, show (0 : ℕ) = 0 % 32 by rfl, h, hzero, Bool.false_or, weightCodes,
    getD_range_map _ (by omega)]
  refine decide_eq_decide.mpr ?_
  rw [code_gt_three, Nat.sub_zero]
  exact and_iff_right (Nat.zero_le _)

/-- **The code of a weight is read as it was written**, four less. -/
theorem weightCode_pack (w : ℕ → Fin 8) {group s n l : ℕ} (hgroup : group < 2) (hs : s < 4)
    (hn : n < 2) (hl : l < 16) {m : UInt8} (hm : m.toNat = 2 ^ (4 * group + s)) :
    weightCode (highBits w) (lowBits w) group (2 * s) n l m =
      w (128 * group + 32 * s + 16 * n + l) - 4 := by
  have hlow : (((lowBits w).getD (group * 32 + n * 16 + l) 0 >>> UInt8.ofNat (2 * s)) &&& 3).toNat =
      w (128 * group + 32 * s + 16 * n + l) % 4 := by
    have hbyte := lowBits_getD w hgroup (i := 16 * n + l) (by omega)
    have hshift : (UInt8.ofNat (2 * s)).toNat = 2 * s := toNat_ofNat_lt (by omega)
    rw [toNat_shift_mask (by omega), hshift, show group * 32 + n * 16 + l =
      32 * group + (16 * n + l) by omega, hbyte]
    rcases (by omega : s = 0 ∨ s = 1 ∨ s = 2 ∨ s = 3) with rfl | rfl | rfl | rfl
    · rw [show 128 * group + 32 * 0 + 16 * n + l = 128 * group + (16 * n + l) by omega]
      omega
    · rw [show 128 * group + 32 * 1 + 16 * n + l = 128 * group + (16 * n + l) + 32 by omega]
      omega
    · rw [show 128 * group + 32 * 2 + 16 * n + l = 128 * group + (16 * n + l) + 64 by omega]
      omega
    · rw [show 128 * group + 32 * 3 + 16 * n + l = 128 * group + (16 * n + l) + 96 by omega]
      omega
  have hhigh : (highBits w).getD (n * 16 + l) 0 &&& m ≠ 0 ↔
      3 < (w (128 * group + 32 * s + 16 * n + l) : ℕ) := by
    rw [and_ne_zero_iff hm, highBits_testBit w (by omega) (by omega), decide_eq_true_iff,
      show 32 * (4 * group + s) + (n * 16 + l) = 128 * group + 32 * s + 16 * n + l by omega]
  have hlt := (w (128 * group + 32 * s + 16 * n + l)).isLt
  rw [weightCode, hlow]
  by_cases hcode : 3 < (w (128 * group + 32 * s + 16 * n + l) : ℕ)
  · rw [if_pos (hhigh.mpr hcode)]
    omega
  · rw [if_neg fun h => hcode (hhigh.mp h)]
    omega

/-! ### Blocks -/

section Blocks

variable {F : Type} [F32 F]

/-- Two sub-blocks. -/
theorem dequantPair_pack (w : ℕ → Fin 8) (d : F) (sc : List F) {r : ℕ} (hr : r < 8) :
    dequantPair (highBits w) (lowBits w) d sc (r / 4) (2 * (r % 4)) (2 * r)
      (1 <<< UInt8.ofNat r) = (List.range 32).map fun i =>
        d * sc.getD ((r * 32 + i) / 16) (lit 0) * ofInt ((w (r * 32 + i) : ℤ) - 4) := by
  have hm : ((1 : UInt8) <<< UInt8.ofNat r).toNat = 2 ^ (4 * (r / 4) + r % 4) := by
    interval_cases r <;> rfl
  have hpair := flatMap_range_map (fun i =>
    d * sc.getD ((r * 32 + i) / 16) (lit 0) * ofInt ((w (r * 32 + i) : ℤ) - 4)) 2 16
  rw [← hpair]
  refine List.flatMap_congr fun n hn => List.map_congr_left fun l hl => ?_
  have hn := List.mem_range.mp hn
  have hl := List.mem_range.mp hl
  rw [weightCode_pack w (by omega) (by omega) hn hl hm,
    show 128 * (r / 4) + 32 * (r % 4) + 16 * n + l = r * 32 + (n * 16 + l) by omega,
    show (r * 32 + (n * 16 + l)) / 16 = 2 * r + n by omega]

/-- The loops of the decoder, over the bits of given codes. -/
theorem dequantLoop_pack (w : ℕ → Fin 8) (d : F) (sc : List F) :
    dequantLoop (highBits w) (lowBits w) d sc
      ((List.range 2).flatMap fun group => [0, 2, 4, 6].map fun shift => (group, shift)) 0 1 =
      (List.range 256).map fun t =>
        d * sc.getD (t / 16) (lit 0) * ofInt ((w t : ℤ) - 4) := by
  have hrounds : dequantLoop (highBits w) (lowBits w) d sc
      ((List.range 2).flatMap fun group => [0, 2, 4, 6].map fun shift => (group, shift)) 0 1 =
      (List.range 8).flatMap fun r => dequantPair (highBits w) (lowBits w) d sc (r / 4)
        (2 * (r % 4)) (2 * r) (1 <<< UInt8.ofNat r) := rfl
  rw [hrounds, List.flatMap_congr fun r hr => dequantPair_pack w d sc (List.mem_range.mp hr)]
  exact flatMap_range_map (fun t =>
    d * sc.getD (t / 16) (lit 0) * ofInt ((w t : ℤ) - 4)) 8 32

theorem length_packHigh (codes : List Int8) (m : ℕ) (hm : UInt8) (hmask : List UInt8) :
    (packHigh codes m hm hmask).1.length = hmask.length := by
  induction codes generalizing m hm hmask with
  | nil => rfl
  | cons code codes ih =>
    rw [packHigh]
    dsimp only
    rw [ih]
    split
    · exact List.length_modify _ _ _
    · rfl

theorem length_packLow (l : List Int8) : (packLow l).length = 64 := rfl

theorem packBlock_eq (l : List Int8) (packed : List UInt8) (d : UInt16) :
    packBlock l packed d = (packHigh l 0 1 (List.replicate (qkK / 8) 0)).1 ++
      packLow (packHigh l 0 1 (List.replicate (qkK / 8) 0)).2 ++ packed ++ toLe 2 d.toNat := rfl

theorem length_packScales (lvs : List Int8) : (packScales lvs).length = 12 := by
  have hfold : ∀ (items : List (Int8 × ℕ)) (packed : List UInt8), packed.length = 12 →
      (items.foldl packScale packed).length = 12 := by
    intro items
    induction items with
    | nil => exact fun _ h => h
    | cons item items ih =>
      intro packed h
      refine ih _ ?_
      rw [packScale, List.length_modify]
      split
      · rw [List.length_set, h]
      · rw [List.length_modify, h]
  exact hfold _ _ List.length_replicate

/-- **What is dequantised**: the codes of the weights, with the scales that are decoded. -/
theorem dequantBlock_pack (w : ℕ → Fin 8) {packed : List UInt8} (hpacked : packed.length = 12)
    (d : UInt16) {outputLen : ℕ} (hlen : 256 ≤ outputLen) :
    dequantBlock (F := F) (packBlock (weightCodes w) packed d) outputLen =
      .ok ((List.range 256).map fun t =>
        F32.ofF16 d * (decodeScales packed).getD (t / 16) (lit 0) * ofInt ((w t : ℤ) - 4)) := by
  have hblock : packBlock (weightCodes w) packed d =
      highBits w ++ (lowBits w ++ (packed ++ toLe 2 d.toNat)) := by
    rw [packBlock_eq, List.append_assoc, List.append_assoc, highBits, lowBits]
    rfl
  have hhigh : (highBits w).length = 32 := by
    rw [highBits, length_packHigh, List.length_replicate]
  have hlow : (lowBits w).length = 64 := length_packLow _
  have hfirst : (packBlock (weightCodes w) packed d).take 32 = highBits w := by
    rw [hblock, List.take_left' hhigh]
  have hrest : (packBlock (weightCodes w) packed d).drop 32 =
      lowBits w ++ (packed ++ toLe 2 d.toNat) := by
    rw [hblock, List.drop_left' hhigh]
  have hthird : (packBlock (weightCodes w) packed d).drop 96 = packed ++ toLe 2 d.toNat := by
    rw [show 96 = 32 + 64 by rfl, ← List.drop_drop, hrest, List.drop_left' hlow]
  have hlast : (packBlock (weightCodes w) packed d).drop 108 = toLe 2 d.toNat := by
    rw [show 108 = 96 + 12 by rfl, ← List.drop_drop, hthird, List.drop_left' hpacked]
  have htotal : (packBlock (weightCodes w) packed d).length = 110 := by
    rw [hblock, List.length_append, List.length_append, List.length_append, hhigh, hlow, hpacked,
      length_toLe]
  have hd : UInt16.ofNat (fromLe (toLe 2 d.toNat)) = d := by
    rw [fromLe_toLe_of_lt d.toNat_lt, UInt16.ofNat_toNat]
  have hblockLen : ¬ (packBlock (weightCodes w) packed d).length < blockBytes :=
    not_lt.mpr htotal.ge
  have houtput : ¬ outputLen < qkK := not_lt.mpr hlen
  rw [dequantBlock, if_neg hblockLen, if_neg houtput, hfirst, hrest, hthird, hlast,
    List.take_left' hlow, List.take_left' hpacked, List.take_of_length_le (length_toLe 2 _).le, hd]
  exact congrArg Except.ok (dequantLoop_pack w _ _)

end Blocks

/-! ### The codes that the encoder chooses -/

section Encoder

variable {F : Type} [F32 F]

/-- A code of a weight before it is made positive. -/
def Signed (l : Int8) : Prop := ∃ z : ℤ, -4 ≤ z ∧ z ≤ 3 ∧ l = Int8.ofInt z

theorem clamp_bounds (n : ℤ) {lo hi : ℤ} (h : lo ≤ hi) :
    lo ≤ clamp n lo hi ∧ clamp n lo hi ≤ hi := by
  unfold clamp
  split
  · omega
  · split <;> omega

theorem signed_clamp (n : ℤ) : Signed (Int8.ofInt (clamp n (-4) 3)) := by
  have hbounds : -4 ≤ clamp n (-4) 3 ∧ clamp n (-4) 3 ≤ 3 := clamp_bounds n (by decide)
  exact ⟨_, hbounds.1, hbounds.2, rfl⟩

theorem code_of_range {z : ℤ} (hlo : -4 ≤ z) (hhi : z ≤ 3) :
    ∃ k : Fin 8, Int8.ofInt (z + 4) = code k := by
  obtain ⟨n, hn⟩ := Int.eq_ofNat_of_zero_le (show 0 ≤ z + 4 by omega)
  refine ⟨⟨n, by omega⟩, ?_⟩
  rw [hn]
  exact Int8.ofInt_eq_ofNat

theorem code_of_signed {l : Int8} (h : Signed l) : ∃ k : Fin 8, l + Int8.ofInt 4 = code k := by
  obtain ⟨z, hlo, hhi, rfl⟩ := h
  rw [← Int8.ofInt_add]
  exact code_of_range hlo hhi

theorem signed_improveCode {x sumlx suml2 : F} {l : Int8} {r : Int8 × F × F}
    (h : improveCode 4 x l sumlx suml2 = some r) : Signed r.1 := by
  unfold improveCode at h
  dsimp only at h
  split at h
  · split at h
    · split at h
      · obtain rfl := Option.some.inj h
        exact signed_clamp _
      · cases h
    · cases h
  · cases h

/-- A pass that improves codes keeps their range. -/
theorem signed_improvePass {xs : List (F × Int8)} {sumlx suml2 : F} (h : ∀ p ∈ xs, Signed p.2) :
    (improvePass 4 xs sumlx suml2).1.length = xs.length ∧
      ∀ l ∈ (improvePass 4 xs sumlx suml2).1, Signed l := by
  induction xs generalizing sumlx suml2 with
  | nil => exact ⟨rfl, fun l hl => absurd hl List.not_mem_nil⟩
  | cons p xs ih =>
    obtain ⟨x, l⟩ := p
    have hl := h (x, l) List.mem_cons_self
    have hxs := fun p hp => h p (List.mem_cons_of_mem _ hp)
    have hcons : ∀ {l' : Int8} {s s' : F}, Signed l' →
        (l' :: (improvePass 4 xs s s').1).length = ((x, l) :: xs).length ∧
          ∀ i ∈ l' :: (improvePass 4 xs s s').1, Signed i := by
      intro l' s s' hl'
      have hrest : (improvePass 4 xs s s').1.length = xs.length ∧ _ := ih hxs
      exact ⟨congrArg (· + 1) hrest.1, List.forall_mem_cons.mpr ⟨hl', hrest.2⟩⟩
    rw [improvePass]
    cases hone : improveCode 4 x l sumlx suml2 with
    | none => exact hcons hl
    | some r => exact hcons (signed_improveCode hone)

theorem signed_improve {x : List F} {n : ℕ} {l : List Int8} {sumlx suml2 : F}
    (hlen : l.length = x.length) (h : ∀ i ∈ l, Signed i) :
    (improve 4 x n l sumlx suml2).1.length = x.length ∧
      ∀ i ∈ (improve 4 x n l sumlx suml2).1, Signed i := by
  induction n generalizing l sumlx suml2 with
  | zero => exact ⟨hlen, h⟩
  | succ n ih =>
    have hpass : (improvePass 4 (x.zip l) sumlx suml2).1.length = (x.zip l).length ∧ _ :=
      signed_improvePass fun p hp => h p.2 (List.of_mem_zip hp).2
    rw [List.length_zip, hlen, Nat.min_self] at hpass
    rw [improve]
    dsimp only
    split
    · exact ih hpass.1 hpass.2
    · exact hpass

/-- A code in range, as one of the codes of a weight. -/
def InRange (l : Int8) : Prop := ∃ k : Fin 8, l = code k

theorem inRange_makeQ3Quants (x : List F) :
    (makeQ3Quants 4 x true).2.length = x.length ∧
      ∀ l ∈ (makeQ3Quants 4 x true).2, InRange l := by
  have hshift : ∀ {ls : List Int8}, (ls.length = x.length ∧ ∀ i ∈ ls, Signed i) →
      (ls.map (· + Int8.ofInt 4)).length = x.length ∧
        ∀ l ∈ ls.map (· + Int8.ofInt 4), InRange l := by
    rintro ls ⟨hlen, hall⟩
    refine ⟨(List.length_map _).trans hlen, fun l hl => ?_⟩
    obtain ⟨i, hi, rfl⟩ := List.mem_map.mp hl
    exact code_of_signed (hall i hi)
  rw [makeQ3Quants]
  split
  dsimp only
  split
  · refine ⟨List.length_map _, fun l hl => ?_⟩
    obtain ⟨_, -, rfl⟩ := List.mem_map.mp hl
    exact ⟨0, rfl⟩
  · rw [if_pos rfl]
    refine hshift (signed_improve (List.length_map _) fun i hi => ?_)
    obtain ⟨v, -, rfl⟩ := List.mem_map.mp hi
    exact signed_clamp _

theorem inRange_requantize {d : F} {packed : List UInt8} {sub : List F} {codes : List Int8} {j : ℕ}
    (hlen : codes.length = sub.length) (h : ∀ l ∈ codes, InRange l) :
    (requantize d packed sub codes j).length = sub.length ∧
      ∀ l ∈ requantize d packed sub codes j, InRange l := by
  rw [requantize]
  split
  · exact ⟨hlen, h⟩
  · refine ⟨List.length_map _, fun l hl => ?_⟩
    obtain ⟨v, -, rfl⟩ := List.mem_map.mp hl
    obtain ⟨hlo, hhi⟩ := clamp_bounds (nearestInt (v / (d * ofInt (readScale packed j).toInt)))
      (show (-4 : ℤ) ≤ 3 by decide)
    exact code_of_range hlo hhi

/-- The scale of a sub-block is a code of 6 bits. -/
theorem exists_scaleCode (iscale scale : F) : ∃ k : Fin 64, scaleCode iscale scale = code k := by
  obtain ⟨hlo, hhi⟩ := clamp_bounds (Int8.ofInt (nearestInt (iscale * scale))).toInt
    (show (-32 : ℤ) ≤ 31 by decide)
  obtain ⟨n, hn⟩ := Int.eq_ofNat_of_zero_le (Int.sub_nonneg_of_le hlo)
  refine ⟨⟨n, by omega⟩, ?_⟩
  rw [scaleCode, show (32 : Int8) = Int8.ofInt 32 by rfl, ← Int8.ofInt_add, code,
    ← Int8.ofInt_eq_ofNat]
  exact congrArg Int8.ofInt (show _ = (n : ℤ) by omega)

theorem exists_packCodes (iscale : F) (scale : ℕ → F) :
    ∃ c, packScales (((List.range 16).map scale).map (scaleCode iscale)) = packCodes c := by
  choose c hc using fun j => exists_scaleCode iscale (scale j)
  refine ⟨c, ?_⟩
  rw [List.map_map]
  exact congrArg packScales (List.map_congr_left fun j _ => hc j)

/-- Codes in range are the codes of the weights of a block. -/
theorem exists_weightCodes {l : List Int8} (hlen : l.length = 256) (h : ∀ i ∈ l, InRange i) :
    ∃ w, l = weightCodes w := by
  have hcode : ∀ t, ∃ k : Fin 8, l.getD t 0 = code k := by
    intro t
    by_cases ht : t < l.length
    · rw [List.getD_eq_getElem _ _ ht]
      exact h _ (List.getElem_mem ht)
    · rw [List.getD_eq_default _ _ (not_lt.mp ht)]
      exact ⟨0, rfl⟩
  choose w hw using hcode
  refine ⟨w, ?_⟩
  rw [weightCodes]
  refine List.ext_getElem ?_ fun t ht _ => ?_
  · rw [List.length_map, List.length_range, hlen]
  · rw [List.getElem_map, List.getElem_range, ← hw t, List.getD_eq_getElem _ _ ht]

/-- **Every encoded block is packed from codes in range.** -/
theorem exists_codes {x : List F} (hx : x.length = 256) :
    ∃ c w d, encodeQ3KBlock x = packBlock (weightCodes w) (packCodes c) d := by
  have hsub : ∀ sub ∈ subBlocks x, sub.length = 16 := by
    intro sub hmem
    obtain ⟨j, hj, rfl⟩ := List.mem_map.mp hmem
    have hj := List.mem_range.mp hj
    rw [List.length_take, List.length_drop]
    omega
  have hcodes : ∀ item ∈ ((subBlocks x).zip (((subBlocks x).map fun sub =>
      makeQ3Quants 4 sub true).map Prod.snd)).zipIdx, item.1.1.length = 16 ∧
        item.1.2.length = item.1.1.length ∧ ∀ l ∈ item.1.2, InRange l := by
    rintro ⟨⟨sub, codes⟩, j⟩ hmem
    obtain ⟨hmem, hmem'⟩ := List.of_mem_zip (List.fst_mem_of_mem_zipIdx hmem)
    rw [List.map_map] at hmem'
    obtain ⟨sub', hsub', rfl⟩ := List.mem_map.mp hmem'
    obtain ⟨hlen, hall⟩ := inRange_makeQ3Quants sub'
    refine ⟨hsub sub hmem, ?_, hall⟩
    rw [hsub sub hmem, ← hsub sub' hsub']
    exact hlen
  have hweights : ∀ (d : F) (packed : List UInt8), ∃ w,
      ((subBlocks x).zip (((subBlocks x).map fun sub => makeQ3Quants 4 sub true).map
        Prod.snd)).zipIdx.flatMap (fun item => requantize d packed item.1.1 item.1.2 item.2) =
          weightCodes w := by
    intro d packed
    refine exists_weightCodes ?_ fun l hl => ?_
    · rw [List.length_flatMap, List.map_congr_left fun item hitem =>
        (inRange_requantize (hcodes item hitem).2.1 (hcodes item hitem).2.2).1.trans
          (hcodes item hitem).1]
      rw [List.map_const', List.sum_replicate_nat, List.length_zipIdx, List.length_zip,
        List.length_map, List.length_map, Nat.min_self, subBlocks, List.length_map,
        List.length_range]
    · obtain ⟨item, hitem, hl⟩ := List.mem_flatMap.mp hl
      exact (inRange_requantize (hcodes item hitem).2.1 (hcodes item hitem).2.2).2 l hl
  have hscales : ((subBlocks x).map fun sub => makeQ3Quants 4 sub true).map Prod.fst =
      (List.range 16).map fun j => (makeQ3Quants 4 ((x.drop (16 * j)).take 16) true).1 := by
    rw [subBlocks, List.map_map, List.map_map]
    rfl
  rw [encodeQ3KBlock]
  dsimp only
  rw [hscales]
  by_cases hmax : (maxScale ((List.range 16).map fun j =>
      (makeQ3Quants 4 ((x.drop (16 * j)).take 16) true).1) != (lit 0 : F)) = true
  · rw [if_pos hmax]
    generalize (lit (-32) : F) / maxScale _ = iscale
    generalize F32.toF16 ((lit 1 : F) / iscale) = d
    obtain ⟨c, hc⟩ := exists_packCodes iscale fun j =>
      (makeQ3Quants 4 ((x.drop (16 * j)).take 16) true).1
    obtain ⟨w, hw⟩ := hweights (F32.ofF16 d) (packCodes c)
    refine ⟨c, w, d, ?_⟩
    rw [hc]
    exact congrArg (packBlock · (packCodes c) d) hw
  · rw [if_neg hmax]
    generalize F32.toF16 (lit 0 : F) = d
    obtain ⟨w, hw⟩ := hweights (F32.ofF16 d) (packCodes fun _ => 0)
    exact ⟨fun _ => 0, w, d, congrArg (packBlock · (packCodes fun _ => 0) d) hw⟩

end Encoder

/-! ### What survives -/

/-- The codes of a block are unpacked as they were packed: the scales, the codes of the
weights, and what is dequantised from them. -/
structure Unpacks (c : ℕ → Fin 64) (w : ℕ → Fin 8) : Prop where
  scales : decodeScaleCodes (packCodes c) = (List.range 16).map fun j => UInt32.ofNat (c j)
  weights : ∀ t < 256, weightCode (highBits w) (lowBits w) (t / 128) (2 * (t / 32 % 4))
    (t / 16 % 2) (t % 16) (1 <<< UInt8.ofNat (t / 32)) = w t - 4
  values : ∀ (F : Type) [F32 F] (d : UInt16), dequantBlock (F := F)
    (packBlock (weightCodes w) (packCodes c) d) 256 = .ok ((List.range 256).map fun t =>
      F32.ofF16 d * ofInt ((c (t / 16) : ℤ) - 32) * ofInt ((w t : ℤ) - 4))

/-- **Exactly the scales that survive.**  The codes of a block are unpacked as they were
packed if and only if the scales of its second half repeat the high bits of the scales, in
the way the decoder reads them. -/
theorem unpacks_iff (c : ℕ → Fin 64) (w : ℕ → Fin 8) :
    Unpacks c w ↔ ∀ k < 4, (c (k + 8) : ℕ) = c k / 16 + 20 * (c (k + 4) / 16) ∧
      (c (k + 12) : ℕ) = c (k + 4) / 16 + 20 * (c (k + 12) / 16) := by
  refine ⟨fun h => (scales_iff c).mp h.scales, fun h => ?_⟩
  have hscales := (scales_iff c).mpr h
  refine ⟨hscales, fun t ht => ?_, fun F _ d => ?_⟩
  · have hm : ((1 : UInt8) <<< UInt8.ofNat (t / 32)).toNat = 2 ^ (4 * (t / 128) + t / 32 % 4) := by
      have hround : ∀ r < 8, ((1 : UInt8) <<< UInt8.ofNat r).toNat = 2 ^ r := by
        decide
      rw [hround _ (by omega), show 4 * (t / 128) + t / 32 % 4 = t / 32 by omega]
    rw [weightCode_pack w (by omega) (by omega) (by omega) (by omega) hm,
      show 128 * (t / 128) + 32 * (t / 32 % 4) + 16 * (t / 16 % 2) + t % 16 = t by omega]
  · have hpacked : (packCodes c).length = 12 := length_packScales _
    rw [dequantBlock_pack w hpacked d le_rfl]
    refine congrArg Except.ok (List.map_congr_left fun t ht => ?_)
    have ht := List.mem_range.mp ht
    have hc : (UInt32.ofNat (c (t / 16))).toNat = c (t / 16) :=
      UInt32.toNat_ofNat_of_lt' ((c (t / 16)).isLt.trans (by decide))
    rw [decodeScales, hscales, List.map_map, getD_range_map _ (by omega)]
    show _ * ofInt (((UInt32.ofNat (c (t / 16))).toNat : ℤ) - 32) * _ = _
    rw [hc]

/-- One scale is 0 and the others are 32, which stands for zero: a block in which only the
first sub-block is not zero. -/
def firstOnly (j : ℕ) : Fin 64 := if j = 0 then 0 else 32

theorem not_unpacks_firstOnly : ¬ Unpacks firstOnly fun _ => 0 := by
  intro h
  have hscales := h.scales
  revert hscales
  decide

end Q3K

end Quant

end Oxillama
