/-
Chunks of a convolution.

`conv1d_depthwise_stateful` reads what came before a chunk from a ring, which it
then pushes the chunk through.  A ring *holds* a position of a sequence if its
slots are what came before that position, and zeros before the sequence.

* `holds_pushWindow` — pushing a chunk moves the position, whether the chunk is
  longer than the ring or shorter;
* `stateful_of_holds` — a call computes the outputs of its positions;
* `conv_chunks` — **the chunks have the outputs and leave the ring of a single
  call**, which are those of `conv1d_depthwise` if weights times zero do not change
  the biases;
* `stateful_ne_depthwise` — an infinite weight, and a kernel of width zero.
-/
import Oxillama.Arch.Mamba2
import Oxillama.Lib.Extended

namespace Oxillama

namespace Arch

variable {α : Type}

theorem getElem?_fillRows {rows channels r ch : ℕ} (value : ℕ → ℕ → α) (hr : r < rows)
    (hch : ch < channels) : (fillRows rows channels value)[r * channels + ch]? = some (value r ch) := by
  have hrow : row channels (fillRows rows channels value) r = (List.range channels).map (value r) :=
    row_flatMap_range (fun r _ => by rw [List.length_map, List.length_range]) hr
  have hget := getElem?_row channels (fillRows rows channels value) r ch
  rw [if_pos hch, hrow] at hget
  rw [← hget, List.getElem?_map, List.getElem?_range hch]
  rfl

theorem getD_fillRows {rows channels r ch : ℕ} (value : ℕ → ℕ → α) (d : α) (hr : r < rows)
    (hch : ch < channels) : (fillRows rows channels value).getD (r * channels + ch) d = value r ch := by
  rw [List.getD_eq_getElem?_getD, getElem?_fillRows value hr hch]
  rfl

theorem fillRows_congr {rows channels : ℕ} {f g : ℕ → ℕ → α}
    (h : ∀ r < rows, ∀ ch < channels, f r ch = g r ch) :
    fillRows rows channels f = fillRows rows channels g :=
  List.flatMap_congr fun r hr => List.map_congr_left fun ch hch =>
    h r (List.mem_range.mp hr) ch (List.mem_range.mp hch)

theorem fillRows_add (m n channels : ℕ) (value : ℕ → ℕ → α) :
    fillRows (m + n) channels value =
      fillRows m channels value ++ fillRows n channels fun r => value (m + r) := by
  rw [fillRows, List.range_add, List.flatMap_append, List.flatMap_map]
  rfl

variable [ConvF32 α]

/-! ### What a ring holds -/

section Holds

variable {x chunk weight bias : List α} {ring ring' : ConvRing α}
  {n m channels dConv seqLen : ℕ}

/-- The value of a channel at a time of a sequence, and zero before it. -/
def sample (x : List α) (channels : ℕ) (time : ℤ) (ch : ℕ) : α :=
  if time ≥ 0 then x.getD (time.toNat * channels + ch) 0 else 0

/-- The slots of a ring are what came before position `n` of a sequence. -/
def Holds (x : List α) (n : ℕ) (ring : ConvRing α) : Prop :=
  ∀ slot < ring.width, ∀ ch < ring.convDim,
    ring.get slot ch = sample x ring.convDim (n - ring.width + slot) ch

/-- A chunk stands at position `n` of a sequence. -/
structure StandsAt (x : List α) (n : ℕ) (chunk : List α) (channels seqLen : ℕ) : Prop where
  length : chunk.length = seqLen * channels
  getD : ∀ i < seqLen * channels, chunk.getD i 0 = x.getD (n * channels + i) 0

theorem StandsAt.sample_eq (h : StandsAt x n chunk channels seqLen) {t ch : ℕ} (ht : t < seqLen)
    (hch : ch < channels) : chunk.getD (t * channels + ch) 0 = sample x channels (n + t) ch := by
  have hlt : t * channels + ch < seqLen * channels := by
    calc t * channels + ch < (t + 1) * channels := by
          rw [Nat.add_one_mul]
          exact Nat.add_lt_add_left hch _
      _ ≤ seqLen * channels := Nat.mul_le_mul_right _ ht
  rw [h.getD _ hlt, sample, if_pos (by omega), show ((n : ℤ) + t).toNat = n + t by omega,
    Nat.add_mul, Nat.add_assoc]

theorem get_eq_getD {slot ch : ℕ} (hslot : slot < ring.width) (hch : ch < ring.convDim) :
    ring.get slot ch = ring.buf.getD (slot * ring.convDim + ch) 0 := by
  rw [ConvRing.get, if_neg (by omega)]

/-- A fresh ring holds the beginning. -/
theorem holds_new (x : List α) (channels dConv : ℕ) : Holds x 0 (.new channels dConv) := by
  intro slot hslot ch hch
  change slot < dConv - 1 at hslot
  rw [get_eq_getD hslot hch, sample, if_neg (by
    show ¬ (((0 : ℕ) : ℤ) - ((dConv - 1 : ℕ) : ℤ) + slot ≥ 0)
    omega)]
  show (List.replicate _ (0 : α)).getD _ 0 = 0
  rw [List.getD_eq_getElem?_getD, List.getElem?_replicate]
  split <;> rfl

/-- Rings that hold the same position are equal. -/
theorem Holds.eq (h : Holds x n ring) (h' : Holds x n ring') (hdim : ring'.convDim = ring.convDim)
    (hwidth : ring'.width = ring.width) : ring' = ring := by
  obtain ⟨buf, dim, width, hlen⟩ := ring
  obtain ⟨buf', dim', width', hlen'⟩ := ring'
  obtain rfl : dim' = dim := hdim
  obtain rfl : width' = width := hwidth
  congr 1
  refine List.ext_getElem (hlen'.trans hlen.symm) fun i hi hi' => ?_
  have hbound : i < width' * dim' := hlen ▸ hi'
  have hdim : 0 < dim' := Nat.pos_of_ne_zero fun hzero => by
    rw [hzero, Nat.mul_zero] at hbound
    exact Nat.not_lt_zero i hbound
  -- the index is that of a slot and a channel
  have hslot : i / dim' < width' := Nat.div_lt_of_lt_mul (Nat.mul_comm width' dim' ▸ hbound)
  have hch : i % dim' < dim' := Nat.mod_lt i hdim
  have hget := (h' _ hslot _ hch).trans (h _ hslot _ hch).symm
  rw [get_eq_getD hslot hch, get_eq_getD hslot hch] at hget
  dsimp only at hget
  rw [Nat.mul_comm, Nat.div_add_mod, List.getD_eq_getElem?_getD, List.getD_eq_getElem?_getD,
    List.getElem?_eq_getElem hi, List.getElem?_eq_getElem hi'] at hget
  exact hget

/-- **Pushing a chunk moves the position behind it.** -/
theorem holds_pushWindow (hholds : Holds x n ring)
    (hchunk : StandsAt x n chunk ring.convDim seqLen) (hsize : chunk.length < 2 ^ 64) :
    ∃ ring', ring.pushWindow chunk seqLen = .ok ring' ∧ ring'.convDim = ring.convDim ∧
      ring'.width = ring.width ∧ Holds x (n + seqLen) ring' := by
  have hmul : checkedMul seqLen ring.convDim = some (seqLen * ring.convDim) :=
    checkedMul_eq_some.mpr ⟨hchunk.length ▸ hsize, rfl⟩
  rw [ConvRing.pushWindow, hmul]
  dsimp only
  rw [if_neg (not_not.mpr hchunk.length)]
  split
  · rename_i hwidth
    refine ⟨ring, rfl, rfl, rfl, fun slot hslot => ?_⟩
    rw [hwidth] at hslot
    exact absurd hslot (Nat.not_lt_zero slot)
  · refine ⟨_, rfl, rfl, rfl, fun slot hslot ch hch => ?_⟩
    rw [get_eq_getD hslot hch]
    dsimp only at hslot hch ⊢
    rw [getD_fillRows _ _ hslot hch]
    split
    · -- what the ring keeps
      rename_i hkept
      rw [← get_eq_getD hkept hch, hholds _ hkept ch hch]
      congr 1
      push_cast
      ring
    · -- what comes from the chunk
      rename_i hnew
      rw [hchunk.sample_eq (by omega) hch]
      congr 1
      omega

/-- The output of a position of a sequence. -/
def convAt (x weight bias : List α) (channels dConv t ch : ℕ) : α :=
  let acc := (List.range dConv).foldl (fun acc (k : ℕ) =>
    acc + weight.getD (ch * dConv + k) 0 * sample x channels (t - (dConv - 1) + k) ch)
      (bias.getD ch 0)
  acc * sigmoid acc

/-- **A call computes the outputs of its positions**, and leaves the ring behind them. -/
theorem stateful_of_holds (hconv : 0 < dConv) (hweight : weight.length = channels * dConv)
    (hbias : bias.length = channels) (hdim : ring.convDim = channels)
    (hwidth : ring.width = dConv - 1) (hholds : Holds x n ring)
    (hchunk : StandsAt x n chunk channels seqLen) (hsize : chunk.length < 2 ^ 64) :
    ∃ ring', conv1dDepthwiseStateful chunk weight bias ring seqLen channels dConv =
        .ok (fillRows seqLen channels fun t => convAt x weight bias channels dConv (n + t), ring') ∧
      ring'.convDim = channels ∧ ring'.width = dConv - 1 ∧ Holds x (n + seqLen) ring' := by
  subst hdim
  obtain ⟨ring', hpush, hdim', hwidth', hholds'⟩ := holds_pushWindow hholds hchunk hsize
  refine ⟨ring', ?_, hdim', hwidth'.trans hwidth, hholds'⟩
  rw [conv1dDepthwiseStateful, if_neg hconv.ne', if_neg (not_not.mpr hchunk.length),
    if_neg (not_not.mpr hweight), if_neg (not_not.mpr hbias),
    if_neg (not_or.mpr ⟨not_not.mpr rfl, not_not.mpr hwidth⟩), hpush]
  refine congrArg (fun out => Except.ok (out, ring')) (fillRows_congr fun t ht ch hch => ?_)
  -- a tap reads the sequence, from the chunk or from the ring
  have htap : ∀ k < dConv, tapSample chunk ring ring.convDim ch (t - (dConv - 1) + k) =
      sample x ring.convDim ((n + t : ℕ) - (dConv - 1) + k) ch := by
    intro k hk
    rw [tapSample]
    split
    · rename_i htime
      rw [hchunk.sample_eq (by omega) hch]
      congr 1
      omega
    · rename_i htime
      rw [hholds _ (by omega) ch hch]
      congr 1
      omega
  have hacc : ∀ acc, (List.range dConv).foldl (fun acc (k : ℕ) =>
      acc + weight.getD (ch * dConv + k) 0 *
        tapSample chunk ring ring.convDim ch (t - (dConv - 1) + k)) acc =
      (List.range dConv).foldl (fun acc (k : ℕ) => acc + weight.getD (ch * dConv + k) 0 *
        sample x ring.convDim ((n + t : ℕ) - (dConv - 1) + k) ch) acc := fun acc =>
    List.foldl_ext _ _ acc fun acc k hk => by rw [htap k (List.mem_range.mp hk)]
  dsimp only [convAt]
  rw [hacc]

end Holds

/-! ### Chunks -/

section Chunks

variable {x weight bias : List α} {ring : ConvRing α} {n channels dConv : ℕ}
  {chunks : List (List α × ℕ)}

/-- The chunks of a sequence, fed one behind the other. -/
def feedChunks (weight bias : List α) (channels dConv : ℕ) :
    List (List α × ℕ) → ConvRing α → Except ConvError (List α × ConvRing α)
  | [], ring => .ok ([], ring)
  | (x, seqLen) :: chunks, ring => do
    let (out, ring) ← conv1dDepthwiseStateful x weight bias ring seqLen channels dConv
    let (outs, ring) ← feedChunks weight bias channels dConv chunks ring
    return (out ++ outs, ring)

/-- The inputs of chunks, and how many positions they are. -/
def joined (chunks : List (List α × ℕ)) : List α × ℕ :=
  ((chunks.map Prod.fst).flatten, (chunks.map Prod.snd).sum)

omit [ConvF32 α] in
theorem length_joined (h : ∀ c ∈ chunks, c.1.length = c.2 * channels) :
    (joined chunks).1.length = (joined chunks).2 * channels := by
  rw [joined, List.length_flatten, List.map_map, ← List.sum_map_mul_right]
  exact congrArg List.sum (List.map_congr_left h)

theorem getD_drop (x : List α) (k i : ℕ) : (x.drop k).getD i 0 = x.getD (k + i) 0 := by
  rw [List.getD_eq_getElem?_getD, List.getElem?_drop, List.getD_eq_getElem?_getD]

/-- **Chunks that make up the rest of a sequence compute its outputs.** -/
theorem feedChunks_of_holds (hconv : 0 < dConv) (hweight : weight.length = channels * dConv)
    (hbias : bias.length = channels) (hchunks : ∀ c ∈ chunks, c.1.length = c.2 * channels)
    (hsize : x.length < 2 ^ 64) (hdim : ring.convDim = channels) (hwidth : ring.width = dConv - 1)
    (hholds : Holds x n ring) (hrest : x.drop (n * channels) = (joined chunks).1) :
    ∃ ring', feedChunks weight bias channels dConv chunks ring =
        .ok (fillRows (joined chunks).2 channels fun t =>
          convAt x weight bias channels dConv (n + t), ring') ∧
      ring'.convDim = channels ∧ ring'.width = dConv - 1 ∧
      Holds x (n + (joined chunks).2) ring' := by
  induction chunks generalizing n ring with
  | nil => exact ⟨ring, rfl, hdim, hwidth, hholds⟩
  | cons c chunks ih =>
    obtain ⟨chunk, seqLen⟩ := c
    have hlen : chunk.length = seqLen * channels := hchunks _ List.mem_cons_self
    have hsplit : x.drop (n * channels) = chunk ++ (joined chunks).1 := hrest
    have hstands : StandsAt x n chunk channels seqLen := by
      refine ⟨hlen, fun i hi => ?_⟩
      rw [← getD_drop, hsplit, List.getD_eq_getElem?_getD, List.getD_eq_getElem?_getD,
        List.getElem?_append_left (hlen ▸ hi)]
    have hshort : chunk.length < 2 ^ 64 := by
      have htotal := congrArg List.length hsplit
      rw [List.length_drop, List.length_append] at htotal
      omega
    obtain ⟨next, hcall, hdim', hwidth', hholds'⟩ :=
      stateful_of_holds hconv hweight hbias hdim hwidth hholds hstands hshort
    have hrest' : x.drop ((n + seqLen) * channels) = (joined chunks).1 := by
      rw [Nat.add_mul, ← List.drop_drop, hsplit, ← hlen, List.drop_left]
    obtain ⟨last, hfeed, hdim'', hwidth'', hholds''⟩ :=
      ih (fun c hc => hchunks c (List.mem_cons_of_mem _ hc)) hdim' hwidth' hholds' hrest'
    have hcount : (joined ((chunk, seqLen) :: chunks)).2 = seqLen + (joined chunks).2 :=
      List.sum_cons
    refine ⟨last, ?_, hdim'', hwidth'', ?_⟩
    · rw [feedChunks, hcall]
      show (feedChunks weight bias channels dConv chunks next >>= _) = _
      rw [hfeed, hcount, fillRows_add]
      simp only [Nat.add_assoc]
      rfl
    · rw [hcount, ← Nat.add_assoc]
      exact hholds''

omit [ConvF32 α] in
/-- Loops that leave a value alone up to some round, and do the same from there on. -/
theorem foldl_range_of_pad (pad : ℕ) {f g : α → ℕ → α} {a : α} {n : ℕ} (hf : ∀ k < pad, f a k = a)
    (hg : ∀ k < pad, g a k = a) (hsame : ∀ k ≥ pad, ∀ acc, f acc k = g acc k) :
    (List.range n).foldl f a = (List.range n).foldl g a := by
  suffices h : (List.range n).foldl f a = (List.range n).foldl g a ∧
      (n ≤ pad → (List.range n).foldl g a = a) from h.1
  induction n with
  | zero => exact ⟨rfl, fun _ => rfl⟩
  | succ n ih =>
    rw [List.range_succ, List.foldl_append, List.foldl_append, ih.1]
    show f _ n = g _ n ∧ (n + 1 ≤ pad → g _ n = a)
    by_cases hn : n < pad
    · rw [ih.2 hn.le, hf n hn, hg n hn]
      exact ⟨rfl, fun _ => rfl⟩
    · exact ⟨hsame n (not_lt.mp hn) _, fun hle => absurd hle hn⟩

/-- **`conv1d_depthwise` computes the same outputs**, if the zeros before the sequence do not
change the biases. -/
theorem conv1dDepthwise_eq {seqLen : ℕ} (hpadding : ∀ ch < channels, ∀ k < dConv - 1,
    bias.getD ch 0 + weight.getD (ch * dConv + k) 0 * 0 = bias.getD ch 0) :
    conv1dDepthwise x weight bias seqLen channels dConv =
      fillRows seqLen channels (convAt x weight bias channels dConv) := by
  refine fillRows_congr fun t _ ch hch => ?_
  have hacc : (List.range dConv).foldl (fun acc (k : ℕ) =>
      if (t : ℤ) - (dConv - 1) + k ≥ 0 then acc + weight.getD (ch * dConv + k) 0 *
        x.getD (((t : ℤ) - (dConv - 1) + k).toNat * channels + ch) 0 else acc) (bias.getD ch 0) =
      (List.range dConv).foldl (fun acc (k : ℕ) => acc + weight.getD (ch * dConv + k) 0 *
        sample x channels (t - (dConv - 1) + k) ch) (bias.getD ch 0) := by
    -- the taps before the sequence come first
    refine foldl_range_of_pad (dConv - 1 - t) (fun k hk => ?_) (fun k hk => ?_)
      fun k hk acc => ?_
    · exact if_neg (by omega)
    · rw [sample, if_neg (by omega)]
      exact hpadding ch hch k (by omega)
    · rw [if_pos (by omega), sample, if_pos (by omega)]
  dsimp only [convAt]
  rw [hacc]

variable (x weight bias chunks channels dConv)

/-- **Chunks do what a single call does.** -/
theorem conv_chunks (hconv : 0 < dConv) (hweight : weight.length = channels * dConv)
    (hbias : bias.length = channels) (hchunks : ∀ c ∈ chunks, c.1.length = c.2 * channels)
    (hsize : (joined chunks).1.length < 2 ^ 64) :
    ∃ outs ring, feedChunks weight bias channels dConv chunks (.new channels dConv) =
        .ok (outs, ring) ∧
      conv1dDepthwiseStateful (joined chunks).1 weight bias (.new channels dConv)
        (joined chunks).2 channels dConv = .ok (outs, ring) ∧
      ((∀ ch < channels, ∀ k < dConv - 1,
        bias.getD ch 0 + weight.getD (ch * dConv + k) 0 * 0 = bias.getD ch 0) →
        outs = conv1dDepthwise (joined chunks).1 weight bias (joined chunks).2 channels dConv) := by
  have hfresh := holds_new (joined chunks).1 channels dConv
  obtain ⟨ring, hfeed, hdim, hwidth, hholds⟩ := feedChunks_of_holds hconv hweight hbias hchunks
    hsize rfl rfl hfresh (by rw [Nat.zero_mul, List.drop_zero])
  obtain ⟨ring', hcall, hdim', hwidth', hholds'⟩ := stateful_of_holds hconv hweight hbias rfl rfl
    hfresh ⟨length_joined hchunks, fun i _ => by rw [Nat.zero_mul, Nat.zero_add]⟩ hsize
  obtain rfl := hholds.eq hholds' (hdim'.trans hdim.symm) (hwidth'.trans hwidth.symm)
  simp only [Nat.zero_add] at hfeed hcall
  exact ⟨_, ring', hfeed, hcall, fun hpadding => (conv1dDepthwise_eq hpadding).symm⟩

end Chunks

/-! ### Chunks of numbers -/

/-- An exponential that is right at zero and at the infinities. -/
instance : ConvF32 (Extended ℚ) where
  add := Extended.add
  mul := Extended.mul
  div := Extended.div
  neg := Extended.neg
  zero := .num 0
  one := .num 1
  exp
    | .nan => .nan
    | .negInf => .num 0
    | .num a => if a = 0 then .num 1 else .num 2
    | .posInf => .posInf

open Extended in
/-- One position, none, and two. -/
theorem conv_chunks_three : ∃ outs ring,
    feedChunks [num 1, num 2] [num 0] 1 2 [([num 1], 1), ([], 0), ([num 2, num 3], 2)]
      (.new 1 2) = .ok (outs, ring) ∧
    conv1dDepthwiseStateful [num 1, num 2, num 3] [num 1, num 2] [num 0] (.new 1 2) 3 1 2 =
      .ok (outs, ring) ∧
    outs = conv1dDepthwise ([num 1, num 2, num 3] : List (Extended ℚ)) [num 1, num 2] [num 0]
      3 1 2 := by
  obtain ⟨outs, ring, hfeed, hcall, hsame⟩ := conv_chunks ([num 1, num 2] : List (Extended ℚ))
    [num 0] 1 2 [([num 1], 1), ([], 0), ([num 2, num 3], 2)] Nat.two_pos rfl rfl (by simp)
    (by simp [joined])
  refine ⟨outs, ring, hfeed, hcall, hsame fun ch hch k hk => ?_⟩
  obtain rfl : ch = 0 := by omega
  obtain rfl : k = 0 := by omega
  exact congrArg num (by norm_num : (0 : ℚ) + 1 * 0 = 0)

open Extended in
theorem silu_zero : (num 0 : Extended ℚ) * sigmoid (num 0) = num 0 := by
  have hexp : ConvF32.exp (-(num 0 : Extended ℚ)) = num 1 := if_pos neg_zero
  have hsigmoid : sigmoid (num 0 : Extended ℚ) = num (1 / (1 + 1)) := by
    rw [sigmoid, hexp]
    exact if_neg (by norm_num)
  rw [hsigmoid]
  exact congrArg num (zero_mul _)

open Extended in
/-- **An infinite weight makes the zeros of a ring felt**, and the stateful form has no kernel of
width zero. -/
theorem stateful_ne_depthwise :
    (∃ ring, feedChunks [posInf, num (0 : ℚ)] [num 0] 1 2 [([num 0], 1)] (.new 1 2) =
      .ok ([nan], ring)) ∧
    conv1dDepthwise [num 0] [posInf, num 0] [num 0] 1 1 2 = [(num 0 : Extended ℚ)] ∧
    feedChunks [] [num 0] 1 0 [([num (0 : ℚ)], 1)] (.new 1 0) =
      .error (.invalidConfig "mamba2.conv1d: d_conv must be >= 1") ∧
    conv1dDepthwise [num 0] [] [num 0] 1 1 0 = [(num 0 : Extended ℚ)] := by
  refine ⟨⟨_, rfl⟩, ?_, rfl, congrArg (fun a => [a]) silu_zero⟩
  show [num (0 + 0 * 0) * sigmoid (num (0 + 0 * 0))] = [(num 0 : Extended ℚ)]
  rw [zero_mul, add_zero, silu_zero]

end Arch

end Oxillama
