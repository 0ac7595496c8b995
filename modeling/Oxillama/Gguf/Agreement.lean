/-
The three parsers agree.

The streaming parser skips over the tensor infos to find the data section, and
reads them in a second pass when it is asked for the whole file.

* `skipTensorInfos_of_parse` — skipping over the tensor infos ends where
  reading them ends;
* `insertAll_eq` — the second pass builds the store the one-pass parser builds;
* `parsers_agree` — all three parsers fail, or all three succeed and say the
  same about the file.
-/
import Oxillama.Gguf.Lockstep
import Oxillama.Gguf.Streaming

namespace Oxillama

namespace Gguf

/-! ### Skipping -/

theorem skip_eq (n : ℕ) (r : BinaryReader) :
    BinaryReader.skip n r =
      if n > r.data.length - r.pos then .error (.unexpectedEof r.pos)
      else .ok ((), { r with pos := r.pos + n }) := by
  show (BinaryReader.check n r >>= _) = _
  rw [BinaryReader.check, get_bind_apply]
  split <;> rfl

theorem skip_eq_ok {n : ℕ} {r r' : BinaryReader} :
    BinaryReader.skip n r = .ok ((), r') ↔
      n ≤ r.data.length - r.pos ∧ { r with pos := r.pos + n } = r' := by
  rw [skip_eq]
  split
  · next h => exact iff_of_false (by simp) (by omega)
  · next h =>
    constructor
    · intro heq
      exact ⟨by omega, (Prod.mk.inj (Except.ok.inj heq)).2⟩
    · rintro ⟨-, rfl⟩
      rfl

theorem skip_add {m n : ℕ} {r r₁ r₂ : BinaryReader} (hm : BinaryReader.skip m r = .ok ((), r₁))
    (hn : BinaryReader.skip n r₁ = .ok ((), r₂)) : BinaryReader.skip (m + n) r = .ok ((), r₂) := by
  obtain ⟨hm', rfl⟩ := skip_eq_ok.mp hm
  obtain ⟨hn', rfl⟩ := skip_eq_ok.mp hn
  have hle : n ≤ r.data.length - (r.pos + m) := hn'
  exact skip_eq_ok.mpr ⟨by omega, by simp only [Nat.add_assoc]⟩

/-- `p` succeeds only where `n` bytes can be skipped, and stops behind them. -/
def Takes {α : Type} (n : ℕ) (p : ReadM α) : Prop :=
  ∀ r a r', p r = .ok (a, r') → BinaryReader.skip n r = .ok ((), r')

theorem Takes.map {α β : Type} {n : ℕ} {p : ReadM α} (h : Takes n p) (f : α → β) :
    Takes n (p >>= fun a => pure (f a)) := by
  intro r b r' hb
  obtain ⟨a, r₁, ha, hb⟩ := bind_eq_ok.mp hb
  obtain ⟨-, rfl⟩ := Prod.mk.inj (Except.ok.inj hb)
  exact h r a r₁ ha

theorem Takes.iterM {α : Type} {k : ℕ} {f : α → ReadM α} (h : ∀ a, Takes k (f a)) (n : ℕ)
    (a : α) : Takes (n * k) (iterM f n a) := by
  induction n generalizing a with
  | zero =>
    intro r b r' hb
    obtain ⟨-, rfl⟩ := Prod.mk.inj (Except.ok.inj hb)
    exact skip_eq_ok.mpr ⟨by omega, by simp⟩
  | succ n ih =>
    intro r b r' hb
    obtain ⟨a₁, r₁, ha, hrest⟩ := bind_eq_ok.mp hb
    rw [Nat.succ_mul, Nat.add_comm]
    exact skip_add (h a r a₁ r₁ ha) (ih a₁ r₁ b r' hrest)

theorem takes_readLe (n : ℕ) : Takes n (BinaryReader.readLe n) := by
  refine Takes.map (p := BinaryReader.readBytes n) ?_ fromLe
  intro r bytes r' h
  rw [BinaryReader.readBytes_eq] at h
  split at h
  · cases h
  · obtain ⟨-, rfl⟩ := Prod.mk.inj (Except.ok.inj h)
    exact skip_eq_ok.mpr ⟨by omega, rfl⟩

theorem takes_readU32 : Takes 4 BinaryReader.readU32 := (takes_readLe 4).map _

theorem takes_readCountVersioned (version : UInt32) :
    Takes (if version ≥ 3 then 8 else 4) (BinaryReader.readCountVersioned version) := by
  rw [BinaryReader.readCountVersioned]
  split
  · exact (takes_readLe 8).map _
  · exact takes_readU32.map _

theorem takes_readOffsetVersioned (version : UInt32) :
    Takes (if version ≥ 2 then 8 else 4) (BinaryReader.readOffsetVersioned version) := by
  rw [BinaryReader.readOffsetVersioned]
  split
  · exact (takes_readLe 8).map _
  · exact takes_readU32.map _

theorem readLe_eq_ok {n v : ℕ} {r r' : BinaryReader}
    (h : BinaryReader.readLe n r = .ok (v, r')) : v < 256 ^ n := by
  obtain ⟨bytes, r₁, hbytes, h⟩ := bind_eq_ok.mp h
  obtain ⟨rfl, -⟩ := Prod.mk.inj (Except.ok.inj h)
  rw [BinaryReader.readBytes_eq] at hbytes
  split at hbytes
  · cases hbytes
  · next hle =>
    obtain ⟨rfl, -⟩ := Prod.mk.inj (Except.ok.inj hbytes)
    have hlt := fromLe_lt ((r.data.drop r.pos).take n)
    rwa [List.length_take, List.length_drop, Nat.min_eq_left (by omega)] at hlt

/-- Where a string is read, its length is read first and the text behind it can
be skipped. -/
theorem skip_of_readString {version : UInt32} {r r' : BinaryReader} {s : String}
    (h : BinaryReader.readStringVersioned version r = .ok (s, r')) :
    ∃ len r₁, BinaryReader.readCountVersioned version r = .ok (len, r₁) ∧
      len.toNat ≤ r₁.data.length - r₁.pos ∧ BinaryReader.skip len.toNat r₁ = .ok ((), r') := by
  have htake : ∀ {len r₁}, BinaryReader.takeString len r₁ = .ok (s, r') →
      BinaryReader.skip len r₁ = .ok ((), r') := by
    intro len r₁ ht
    rw [BinaryReader.takeString_eq] at ht
    split at ht
    · cases ht
    · split at ht
      · obtain ⟨-, rfl⟩ := Prod.mk.inj (Except.ok.inj ht)
        exact skip_eq_ok.mpr ⟨by omega, rfl⟩
      · cases ht
  rw [BinaryReader.readStringVersioned] at h
  rw [BinaryReader.readCountVersioned]
  -- the length takes 8 bytes or 4, as a count does
  split at h
  · next hv =>
    obtain ⟨len, r₁, hlen, ht⟩ := bind_eq_ok.mp h
    have hlt : len < 2 ^ 64 := readLe_eq_ok hlen
    have hof : (UInt64.ofNat len).toNat = len := UInt64.toNat_ofNat_of_lt' hlt
    refine ⟨.ofNat len, r₁, ?_, ?_⟩
    · rw [if_pos hv, BinaryReader.readU64, bind_apply_ok hlen]
      rfl
    · rw [hof]
      exact ⟨(skip_eq_ok.mp (htake ht)).1, htake ht⟩
  · next hv =>
    obtain ⟨len, r₁, hlen, ht⟩ := bind_eq_ok.mp h
    have hlt : len < 2 ^ 32 := readLe_eq_ok hlen
    have hof : (UInt32.ofNat len).toUInt64.toNat = len := by
      rw [UInt32.toNat_toUInt64, UInt32.toNat_ofNat_of_lt' hlt]
    refine ⟨(UInt32.ofNat len).toUInt64, r₁, ?_, ?_⟩
    · have hu32 : BinaryReader.readU32 r = .ok (.ofNat len, r₁) := by
        rw [BinaryReader.readU32, bind_apply_ok hlen]
        rfl
      rw [if_neg hv, bind_apply_ok hu32]
      rfl
    · rw [hof]
      exact ⟨(skip_eq_ok.mp (htake ht)).1, htake ht⟩

/-- **Skipping ends where reading ends.** -/
theorem skipTensorInfo_of_read {version : UInt32} {r r' : BinaryReader} {info : TensorInfo}
    (h : BinaryReader.readTensorInfo Parser.maxTensorDims version r = .ok (info, r')) :
    Streaming.skipTensorInfo version r = .ok ((), r') := by
  rw [BinaryReader.readTensorInfo] at h
  obtain ⟨name, r₁, hname, h⟩ := bind_eq_ok.mp h
  obtain ⟨len, r₀, hlen, hle, hskip⟩ := skip_of_readString hname
  obtain ⟨nDims, r₂, hdims, h⟩ := bind_eq_ok.mp h
  split at h
  · cases h
  next hvalid =>
  have hvalid' : ¬ (nDims = 0 ∨ nDims.toNat > Streaming.maxTensorDims) := hvalid
  obtain ⟨dimensions, r₃, hdimensions, h⟩ := bind_eq_ok.mp h
  obtain ⟨typeId, r₄, htype, h⟩ := bind_eq_ok.mp h
  obtain ⟨tensorType, r₅, hty, h⟩ := bind_eq_ok.mp h
  obtain ⟨offset, r₆, hoffset, h⟩ := bind_eq_ok.mp h
  obtain ⟨-, rfl⟩ := Prod.mk.inj (Except.ok.inj h)
  -- looking the type up reads nothing
  obtain rfl : r₄ = r₅ := by
    cases ht : GgufTensorType.fromU32 typeId with
    | none => rw [ht] at hty; cases hty
    | some t =>
      rw [ht] at hty
      exact (Prod.mk.inj (Except.ok.inj hty)).2
  have hdimSkip := (Takes.iterM (fun dims => (takes_readCountVersioned version).map
    fun d => dims ++ [d]) nDims.toNat []) r₂ dimensions r₃ hdimensions
  rw [Streaming.skipTensorInfo, bind_apply_ok hlen]
  show (if len.toNat > r₀.data.length - r₀.pos then _ else _ : ReadM Unit) r₀ = _
  rw [if_neg (by omega), bind_apply_ok hskip, bind_apply_ok hdims]
  rw [if_neg hvalid', bind_apply_ok hdimSkip, bind_apply_ok (takes_readU32 _ _ _ htype)]
  exact takes_readOffsetVersioned version _ _ _ hoffset

/-- Skipping all tensor infos ends where reading them ends. -/
theorem skipTensorInfos_of_parse {version : UInt32} {n : ℕ} {store store' : TensorStore}
    {r r' : BinaryReader}
    (h : iterM (Parser.parseTensorInfo version) n store r = .ok (store', r')) :
    iterM (fun _ => Streaming.skipTensorInfo version) n () r = .ok ((), r') := by
  induction n generalizing store r with
  | zero =>
    obtain ⟨-, rfl⟩ := Prod.mk.inj (Except.ok.inj h)
    rfl
  | succ n ih =>
    obtain ⟨store₁, r₁, hone, hrest⟩ := bind_eq_ok.mp h
    obtain ⟨info, r₂, hread, hinsert⟩ := bind_eq_ok.mp hone
    obtain rfl : r₂ = r₁ := by
      cases hi : store.tryInsert info with
      | error e => rw [hi] at hinsert; cases hinsert
      | ok s =>
        rw [hi] at hinsert
        exact (Prod.mk.inj (Except.ok.inj hinsert)).2
    rw [iterM, bind_apply_ok (skipTensorInfo_of_read hread)]
    exact ih hrest

/-! ### The second pass -/

theorem tryInsert_setDataOffset (store : TensorStore) (info : TensorInfo) (offset : ℕ) :
    (store.setDataOffset offset).tryInsert info =
      (store.tryInsert info).map (·.setDataOffset offset) := by
  unfold TensorStore.tryInsert
  by_cases h : info.name ∈ store.infos
  · rw [if_pos h, if_pos (show info.name ∈ (store.setDataOffset offset).infos from h)]
    rfl
  · rw [if_neg h, if_neg (show info.name ∉ (store.setDataOffset offset).infos from h)]
    rfl

/-- **The second pass builds the store the one-pass parser builds**: the entries
the iterator still has are read and inserted as `parse_tensor_infos` does it. -/
theorem insertAll_eq (it : TensorInfoIter) (store : TensorStore) (offset : ℕ) :
    StreamingGgufParser.insertAll it.remaining it (store.setDataOffset offset) =
      (iterM (Parser.parseTensorInfo it.version) it.remaining store it.reader).map
        fun r => r.1.setDataOffset offset := by
  obtain ⟨reader, n, version, dataOffset⟩ := it
  dsimp only
  induction n generalizing store reader with
  | zero => rfl
  | succ n ih =>
    rw [StreamingGgufParser.insertAll, TensorInfoIter.next, if_neg (Nat.succ_ne_zero n), iterM]
    show ((BinaryReader.readTensorInfo Parser.maxTensorDims version reader >>= fun r => _) >>=
      fun r => _) = ((BinaryReader.readTensorInfo Parser.maxTensorDims version reader >>=
        fun r => _) >>= fun r => _).map _
    cases BinaryReader.readTensorInfo Parser.maxTensorDims version reader with
    | error e => rfl
    | ok r =>
      obtain ⟨info, r₁⟩ := r
      show ((store.setDataOffset offset).tryInsert info >>= fun tensors => _) =
        (((liftM (store.tryInsert info) : ReadM TensorStore) r₁) >>= fun r => _).map _
      rw [tryInsert_setDataOffset]
      cases store.tryInsert info with
      | error e => rfl
      | ok store₁ => exact ih store₁ r₁

/-- `intoFull` in one pass: the tensor infos from where the first pass found
them. -/
theorem intoFull_eq (p : StreamingGgufParser) :
    p.intoFull = (iterM (Parser.parseTensorInfo p.header.version) p.header.tensorCount.toNat .new
      ⟨p.data, p.tensorInfoOffset⟩ >>= fun r =>
        if r.1.len ≠ p.header.tensorCount.toNat then
          .error (wrongTensorCount p.header.tensorCount.toNat r.1.len)
        else .ok ⟨p.header, p.metadata, r.1.setDataOffset p.dataSectionOffset, p.alignment⟩) := by
  rw [StreamingGgufParser.intoFull]
  show (StreamingGgufParser.insertAll p.tensorInfos.remaining p.tensorInfos
    (TensorStore.new.setDataOffset p.dataSectionOffset) >>= fun tensors => _) = _
  rw [insertAll_eq]
  show ((iterM (Parser.parseTensorInfo p.header.version) p.header.tensorCount.toNat .new
    ⟨p.data, p.tensorInfoOffset⟩).map _ >>= _) = _
  cases iterM (Parser.parseTensorInfo p.header.version) p.header.tensorCount.toNat .new
    ⟨p.data, p.tensorInfoOffset⟩ <;> rfl

/-! ### Whole files -/

/-- What the streaming parser does behind the header, in both passes. -/
theorem newBody_intoFull {data : List UInt8} (header : GgufHeader) {offset : ℕ}
    (hoffset : offset ≤ data.length) :
    (StreamingGgufParser.newBody data header ⟨data, offset⟩ >>= fun r =>
      r.1.intoFull).toOption =
        (GgufFile.parseBody header ⟨data, offset⟩ >>= fun r => .ok r.1).toOption := by
  show (Except.toOption ((Parser.parseMetadata header ⟨data, offset⟩ >>= fun r => _) >>= _)) =
    (Except.toOption ((Parser.parseMetadata header ⟨data, offset⟩ >>= fun r => _) >>= _))
  -- reading the metadata stays in the buffer
  rcases lockstep_parseMetadata header ⟨data, offset⟩ ⟨data, offset⟩
    ⟨offset, hoffset, rfl, rfl⟩ with
    ⟨e, _, hmeta, -⟩ | ⟨metadata, _, _, _, hmeta, -, -, start, -, rfl, -⟩
  · rw [hmeta]
    rfl
  rw [hmeta]
  show (Except.toOption ((((liftM (validateAlignment Parser.maxGgufAlignment
    (alignmentOf metadata)) : ReadM Unit) _) >>= fun r => _) >>= _)) =
      (Except.toOption ((((liftM (validateAlignment Parser.maxGgufAlignment
        (alignmentOf metadata)) : ReadM Unit) _) >>= fun r => _) >>= _))
  cases halign : validateAlignment Parser.maxGgufAlignment (alignmentOf metadata) with
  | error e => rfl
  | ok _ =>
    show (Except.toOption ((iterM (fun _ => Streaming.skipTensorInfo header.version)
      header.tensorCount.toNat () ⟨data, start⟩ >>= fun r => _) >>=
        fun r : StreamingGgufParser × BinaryReader => r.1.intoFull)) =
      (Except.toOption (((iterM (Parser.parseTensorInfo header.version)
        header.tensorCount.toNat .new ⟨data, start⟩ >>= fun r => _) >>= fun r => _) >>= _))
    cases hread : iterM (Parser.parseTensorInfo header.version) header.tensorCount.toNat .new
      ⟨data, start⟩ with
    | error e =>
      -- the first pass may succeed, the second fails
      cases iterM (fun _ => Streaming.skipTensorInfo header.version) header.tensorCount.toNat ()
        ⟨data, start⟩ with
      | error e' => rfl
      | ok r =>
        show Except.toOption (StreamingGgufParser.intoFull _) = _
        rw [intoFull_eq, hread]
        rfl
    | ok r =>
      rw [skipTensorInfos_of_parse hread]
      show Except.toOption (StreamingGgufParser.intoFull _) = _
      rw [intoFull_eq, hread]
      show Except.toOption (if r.1.len ≠ header.tensorCount.toNat then _ else _) =
        Except.toOption ((((if r.1.len ≠ header.tensorCount.toNat then _ else _ :
          ReadM TensorStore) r.2) >>= _) >>= _)
      split <;> rfl

/-- **The three parsers agree** on every byte string: all fail, or all succeed
and give the same version, tensor count, metadata, tensors, alignment and data
offset. -/
theorem parsers_agree (data : List UInt8) :
    ((ReaderCore.parseGguf.run (SliceSource.new data)).toOption.map fun r => r.1.summary) =
        (GgufFile.parse data).toOption.map GgufFile.summary ∧
      ((StreamingGgufParser.new data >>= StreamingGgufParser.intoFull).toOption.map
        GgufFile.summary) = (GgufFile.parse data).toOption.map GgufFile.summary := by
  refine ⟨parseGguf_agrees data, ?_⟩
  show (Except.toOption ((GgufHeader.parse data 0 >>= fun r =>
    StreamingGgufParser.newBody data r.1 ⟨data, r.2⟩ >>= fun r => .ok r.1) >>= _)).map _ =
      (Except.toOption (GgufHeader.parse data 0 >>= fun r =>
        GgufFile.parseBody r.1 ⟨data, r.2⟩ >>= fun r => .ok r.1)).map _
  rcases lockstep_header data 0 (SliceSource.new data) ⟨rfl, rfl, Nat.zero_le _⟩ with
    ⟨e, _, hheader, -⟩ | ⟨header, offset, _, _, hheader, -, -, -, -, hoffset⟩
  · rw [hheader]
    rfl
  · rw [hheader]
    show _ = Option.map _ (Except.toOption
      (GgufFile.parseBody header ⟨data, offset⟩ >>= fun r => .ok r.1))
    rw [← newBody_intoFull header hoffset]
    show Option.map _ (Except.toOption ((StreamingGgufParser.newBody data header
      ⟨data, offset⟩ >>= fun r => .ok r.1) >>= _)) = _
    cases StreamingGgufParser.newBody data header ⟨data, offset⟩ <;> rfl

end Gguf

end Oxillama
