/-
The streaming parser on a file that is still arriving.

Over a buffer that holds only the first bytes of a file, the parser either says what it
will say about the whole file, or fails for lack of data.  It does so with one of two
errors (`Awaits`): the end of the buffer, or an array with a count that what is left of the
buffer is too short for.

* `new_append` — **a parser that was built stays as it is when more bytes arrive**;
* `new_error_append` — so does an error that does not ask for more data;
* `collect_grow` — the tensor infos are read alike, and those of a parser that was built are
  all there (`final_of_new`).
-/
import Oxillama.Gguf.Access

namespace Oxillama

namespace Gguf

/-- The errors that a buffer may raise because it is too short. -/
inductive Awaits : GgufError → Prop
  | eof (offset : ℕ) : Awaits (.unexpectedEof offset)
  | count (count rem minElemSize : ℕ) : Awaits (countExceeded count rem minElemSize)

/-- A read that takes nothing back when more bytes arrive. -/
abbrev Growing {α : Type} (p : ReadM α) : Prop := Grows BinaryReader.mk Awaits fun _ => p

/-! ### The reader -/

theorem take_drop_append {data : List UInt8} {n pos : ℕ} (h : n ≤ data.length - pos)
    (more : List UInt8) : ((data ++ more).drop pos).take n = (data.drop pos).take n := by
  rw [List.drop_append, List.take_append_of_le_length]
  rwa [List.length_drop]

theorem growing_readBytes (n : ℕ) : Growing (BinaryReader.readBytes n) := by
  intro data pos
  by_cases h : n > data.length - pos
  · exact .inr (.inr ⟨_, (BinaryReader.readBytes_eq n _).trans (if_pos h), .eof pos⟩)
  · refine .inl ⟨(data.drop pos).take n, pos + n, fun more => ?_⟩
    have hfits : ¬ n > (data ++ more).length - pos := by
      rw [List.length_append]
      omega
    refine ((BinaryReader.readBytes_eq n _).trans (if_neg hfits)).trans ?_
    show Except.ok (((data ++ more).drop pos).take n, _) = _
    rw [take_drop_append (Nat.le_of_not_lt h)]

theorem growing_readLe (n : ℕ) : Growing (BinaryReader.readLe n) := (growing_readBytes n).map _

theorem growing_readU32 : Growing BinaryReader.readU32 := (growing_readLe 4).map _

theorem growing_takeString (len : ℕ) : Growing (BinaryReader.takeString len) := by
  intro data pos
  by_cases h : len > data.length - pos
  · exact .inr (.inr ⟨_, (BinaryReader.takeString_eq len _).trans (if_pos h), .eof pos⟩)
  · have hfits : ∀ more : List UInt8, ¬ len > (data ++ more).length - pos := by
      intro more
      rw [List.length_append]
      omega
    cases hs : decodeUtf8 ((data.drop pos).take len) with
    | some s =>
      refine .inl ⟨s, pos + len, fun more => (BinaryReader.takeString_eq len _).trans ?_⟩
      rw [if_neg (hfits more)]
      dsimp only
      rw [take_drop_append (Nat.le_of_not_lt h), hs]
    | none =>
      refine .inr (.inl ⟨.invalidString pos ((data.drop pos).take len), fun more =>
        (BinaryReader.takeString_eq len _).trans ?_⟩)
      rw [if_neg (hfits more)]
      dsimp only
      rw [take_drop_append (Nat.le_of_not_lt h), hs]

theorem growing_readStringVersioned (version : UInt32) :
    Growing (BinaryReader.readStringVersioned version) := by
  refine .ite (fun _ => ?_) fun _ => ?_
  · exact (growing_readLe 8).bind fun len => growing_takeString len
  · exact (growing_readLe 4).bind fun len => growing_takeString len

theorem growing_readCountVersioned (version : UInt32) :
    Growing (BinaryReader.readCountVersioned version) :=
  .ite (fun _ => (growing_readLe 8).map _) fun _ => growing_readU32.map _

theorem growing_readOffsetVersioned (version : UInt32) :
    Growing (BinaryReader.readOffsetVersioned version) :=
  .ite (fun _ => (growing_readLe 8).map _) fun _ => growing_readU32.map _

theorem growing_position : Growing BinaryReader.position :=
  fun _ pos => .inl ⟨pos, pos, fun _ => rfl⟩

/-- A check of what remains, with an error that asks for more. -/
theorem growing_check {α : Type} {p q : ReadM α} {c : ℕ → Prop} [DecidablePred c]
    (err : ℕ → ℕ → GgufError)
    (heq : ∀ data pos, p ⟨data, pos⟩ =
      if c (data.length - pos) then .error (err (data.length - pos) pos) else q ⟨data, pos⟩)
    (hpass : ∀ {m n}, m ≤ n → ¬ c m → ¬ c n) (hretry : ∀ rem pos, Awaits (err rem pos))
    (hq : Growing q) : Growing p := by
  refine .guard (c := fun data pos => c (data.length - pos)) (q := fun _ => q) heq
    (fun data pos more hc => hpass ?_ hc) (fun data pos _ => hretry _ _) hq
  rw [List.length_append]
  omega

theorem growing_skip (n : ℕ) : Growing (BinaryReader.skip n) := by
  intro data pos
  by_cases h : n > data.length - pos
  · exact .inr (.inr ⟨_, (skip_eq n _).trans (if_pos h), .eof pos⟩)
  · refine .inl ⟨(), pos + n, fun more => ?_⟩
    have hfits : ¬ n > (data ++ more).length - pos := by
      rw [List.length_append]
      omega
    exact (skip_eq n _).trans (if_neg hfits)

/-! ### Metadata -/

/-- **One value**, by induction on the levels of nesting that are left. -/
theorem growing_readMetadataValue (maxDepth : ℕ) (version : UInt32) (levels : ℕ)
    (t : GgufValueType) :
    Growing (BinaryReader.readMetadataValue maxDepth version levels t) := by
  induction levels generalizing t with
  | zero => exact .fail _
  | succ levels ih =>
    cases t with
    | uint8 => exact ((growing_readLe 1).map _).map _
    | int8 => exact ((growing_readLe 1).map _).map _
    | uint16 => exact ((growing_readLe 2).map _).map _
    | int16 => exact ((growing_readLe 2).map _).map _
    | uint32 => exact ((growing_readLe 4).map _).map _
    | int32 => exact ((growing_readLe 4).map _).map _
    | float32 => exact ((growing_readLe 4).map _).map _
    | bool => exact (((growing_readLe 1).map _).map _).map _
    | string => exact (growing_readStringVersioned version).map _
    | uint64 => exact ((growing_readLe 8).map _).map _
    | int64 => exact ((growing_readLe 8).map _).map _
    | float64 => exact ((growing_readLe 8).map _).map _
    | array =>
      refine growing_readU32.bind fun elemTypeId => .bind (.okOr _ _) fun elemType =>
        (growing_readCountVersioned version).bind fun count => ?_
      refine growing_check
        (fun rem _ => countExceeded count.toNat rem (minEncodedValueSize elemType version))
        (c := fun rem => count.toNat > rem / minEncodedValueSize elemType version)
        (q := iterM (fun elements => do
          return elements ++ [← BinaryReader.readMetadataValue maxDepth version levels elemType])
          count.toNat [] >>= fun elements => pure (.array elements))
        (fun data pos => ?_) (fun hle hc => ?_) (fun _ _ => .count _ _ _) ?_
      · show (if count.toNat > (data.length - pos) / _ then throw _ else _ : ReadM _) _ = _
        split <;> rfl
      · have := Nat.div_le_div_right (c := minEncodedValueSize elemType version) hle
        omega
      · exact Grows.map (.iterM (fun elements => (ih elemType).map _) count.toNat []) _

theorem growing_parseMetadataStreaming (header : GgufHeader) :
    Growing (Streaming.parseMetadataStreaming header) := by
  refine .iterM (fun store => ?_) _ _
  refine (growing_readStringVersioned _).bind fun key => growing_readU32.bind fun typeId =>
    .bind (.okOr _ _) fun valueType => ?_
  exact (growing_readMetadataValue _ _ _ valueType).map _

/-! ### Tensor infos -/

theorem growing_skipTensorInfo (version : UInt32) :
    Growing (Streaming.skipTensorInfo version) := by
  refine (growing_readCountVersioned version).bind fun nameLen => ?_
  refine growing_check (fun _ pos => .unexpectedEof pos) (c := fun rem => nameLen.toNat > rem)
    (q := BinaryReader.skip nameLen.toNat >>= fun _ => BinaryReader.readU32 >>= fun nDims =>
      if nDims = 0 ∨ nDims.toNat > Streaming.maxTensorDims then
        throw (badDims "<tensor_infos>" nDims Streaming.maxTensorDims)
      else BinaryReader.skip (nDims.toNat * if version ≥ 3 then 8 else 4) >>= fun _ =>
        BinaryReader.skip 4 >>= fun _ => BinaryReader.skip (if version ≥ 2 then 8 else 4))
    (fun data pos => ?_) (fun hle hc => by omega) (fun _ pos => .eof pos) ?_
  · show (if nameLen.toNat > data.length - pos then throw _ else _ : ReadM _) _ = _
    split <;> rfl
  · refine (growing_skip _).bind fun _ => growing_readU32.bind fun nDims => ?_
    refine .ite (fun _ => .fail _) fun _ => ?_
    exact (growing_skip _).bind fun _ => (growing_skip _).bind fun _ => growing_skip _

theorem growing_skipTensorInfos (header : GgufHeader) :
    Growing (Streaming.skipTensorInfos header) :=
  .iterM (fun _ => growing_skipTensorInfo header.version) _ _

theorem growing_readTensorInfo (maxDims : ℕ) (version : UInt32) :
    Growing (BinaryReader.readTensorInfo maxDims version) := by
  refine (growing_readStringVersioned version).bind fun name =>
    growing_readU32.bind fun nDims => ?_
  refine .ite (fun _ => .fail _) fun _ => ?_
  refine .bind (.iterM (fun dims => (growing_readCountVersioned version).map _) _ _) fun dims => ?_
  refine growing_readU32.bind fun typeId => .bind (.okOr _ _) fun tensorType => ?_
  exact (growing_readOffsetVersioned version).map _

/-! ### The header and the parser -/

theorem grows_readField (n : ℕ) :
    Grows (fun _ pos => pos) Awaits fun data => GgufHeader.readField data n := by
  intro data pos
  have heq : ∀ data : List UInt8, GgufHeader.readField data n pos =
      if data.length < pos + n then .error (.unexpectedEof pos)
      else .ok (fromLe ((data.drop pos).take n), pos + n) := by
    intro data
    rw [GgufHeader.readField, get_bind_apply]
    split <;> rfl
  by_cases h : data.length < pos + n
  · exact .inr (.inr ⟨_, (heq data).trans (if_pos h), .eof pos⟩)
  · refine .inl ⟨fromLe ((data.drop pos).take n), pos + n, fun more => ?_⟩
    have hfits : ¬ (data ++ more).length < pos + n := by
      rw [List.length_append]
      omega
    refine ((heq _).trans (if_neg hfits)).trans ?_
    rw [take_drop_append (show n ≤ data.length - pos by omega)]

theorem grows_readCount (version : UInt32) :
    Grows (fun _ pos => pos) Awaits fun data => GgufHeader.readCount data version :=
  .ite (fun _ => (grows_readField 8).map _) fun _ => ((grows_readField 4).map _).map _

theorem grows_header : Grows (fun _ pos => pos) Awaits GgufHeader.parse := by
  refine ((grows_readField 4).map _).bind fun magic => .ite (fun _ => .fail _) fun _ => ?_
  refine ((grows_readField 4).map _).bind fun version => .ite (fun _ => .fail _) fun _ => ?_
  exact (grows_readCount version).bind fun tensorCount => (grows_readCount version).map _

namespace StreamingGgufParser

/-- The parser over a buffer with more bytes. -/
def grow (p : StreamingGgufParser) (more : List UInt8) : StreamingGgufParser :=
  { p with data := p.data ++ more }

/-- The buffer apart, the parser is read off the first bytes. -/
theorem grows_newBody (header : GgufHeader) :
    Grows BinaryReader.mk Awaits fun data =>
      newBody data header >>= fun p => pure { p with data := [] } := by
  simp only [newBody, bind_assoc, pure_bind]
  refine (growing_parseMetadataStreaming header).bind fun metadata => .bind (.lift _) fun _ => ?_
  refine growing_position.bind fun start => (growing_skipTensorInfos header).bind fun _ => ?_
  exact growing_position.map _

variable {data : List UInt8} {p : StreamingGgufParser}

/-- **A parser that was built stays as it is.** -/
theorem new_append (h : new data = .ok p) (more : List UInt8) :
    new (data ++ more) = .ok (p.grow more) := by
  have hdata := data_of_new h
  obtain ⟨⟨header, offset⟩, hheader, hnew⟩ := except_bind_eq_ok.mp h
  obtain ⟨⟨p₁, r⟩, hbody, hp⟩ := except_bind_eq_ok.mp hnew
  obtain rfl := Except.ok.inj hp
  obtain ⟨_, rfl, hheader'⟩ := grows_header.ok_append hheader
  have herased : (newBody data header >>= fun p => pure { p with data := [] }) ⟨data, offset⟩ =
      .ok ({ p₁ with data := [] }, r) := bind_apply_ok hbody
  obtain ⟨_, -, hall⟩ := (grows_newBody header).ok_append herased
  obtain ⟨p₂, r₂, hbody₂, hp₂⟩ := bind_eq_ok.mp (hall more)
  obtain ⟨hsame, -⟩ := Prod.mk.inj (Except.ok.inj hp₂)
  have hnew₂ : new (data ++ more) = .ok p₂ :=
    except_bind_eq_ok.mpr ⟨_, hheader' more, except_bind_eq_ok.mpr ⟨_, hbody₂, rfl⟩⟩
  have hdata₂ := data_of_new hnew₂
  rw [hnew₂]
  obtain ⟨_, _, _, _, _, _⟩ := p₁
  obtain ⟨_, _, _, _, _, _⟩ := p₂
  injection hsame with _ hheader hmetadata halignment hstart hstop
  dsimp only at hdata hdata₂
  subst hdata hdata₂ hheader hmetadata halignment hstart hstop
  rfl

/-- So does an error that does not ask for more data. -/
theorem new_error_append {e : GgufError} (h : new data = .error e) (he : ¬ Awaits e)
    (more : List UInt8) : new (data ++ more) = .error e := by
  cases hheader : GgufHeader.parse data 0 with
  | error e' =>
    have hnew : new data = .error e' := by
      rw [new, hheader]
      rfl
    rw [h] at hnew
    obtain rfl := Except.error.inj hnew
    rw [new, grows_header.error_append hheader he more]
    rfl
  | ok header =>
    obtain ⟨header, offset⟩ := header
    obtain ⟨_, rfl, hheader'⟩ := grows_header.ok_append hheader
    cases hbody : newBody data header ⟨data, offset⟩ with
    | ok p =>
      have hnew : new data = .ok p.1 := by
        rw [new, hheader]
        show (newBody data header ⟨data, offset⟩ >>= fun r => _) = _
        rw [hbody]
        rfl
      rw [h] at hnew
      cases hnew
    | error e' =>
      have hnew : new data = .error e' := by
        rw [new, hheader]
        show (newBody data header ⟨data, offset⟩ >>= fun r => _) = _
        rw [hbody]
        rfl
      rw [h] at hnew
      obtain rfl := Except.error.inj hnew
      have herased : (newBody data header >>= fun p => pure { p with data := [] })
          ⟨data, offset⟩ = .error e := by
        show (newBody data header ⟨data, offset⟩ >>= fun r => _) = _
        rw [hbody]
        rfl
      have hall := (grows_newBody header).error_append herased he more
      rw [new, hheader' more]
      show (newBody (data ++ more) header ⟨data ++ more, offset⟩ >>= fun r => _) = _
      cases hbody₂ : newBody (data ++ more) header ⟨data ++ more, offset⟩ with
      | error e₂ =>
        have hsame : (newBody (data ++ more) header >>= fun p => pure { p with data := [] })
            ⟨data ++ more, offset⟩ = .error e₂ := by
          show (newBody (data ++ more) header ⟨data ++ more, offset⟩ >>= fun r => _) = _
          rw [hbody₂]
          rfl
        rw [hall] at hsame
        obtain rfl := Except.error.inj hsame
        rfl
      | ok p₂ =>
        have hsame := bind_apply_ok (f := fun p => pure { p with data := [] }) hbody₂
        rw [hall] at hsame
        cases hsame

end StreamingGgufParser

/-! ### What was skipped can be read -/

/-- Where `n` bytes can be skipped, `p` reads them, or fails with an error that does not ask
for more. -/
def Covers {α : Type} (n : ℕ) (p : ReadM α) : Prop :=
  ∀ r r', BinaryReader.skip n r = .ok ((), r') →
    (∃ a, p r = .ok (a, r')) ∨ ∃ e, p r = .error e ∧ ¬ Awaits e

namespace Covers

variable {α β : Type} {m n : ℕ} {p : ReadM α}

theorem pure (a : α) : Covers 0 (Pure.pure a : ReadM α) := by
  intro r r' h
  obtain ⟨-, rfl⟩ := skip_eq_ok.mp h
  exact .inl ⟨a, rfl⟩

theorem bind {f : α → ReadM β} (hp : Covers m p) (hf : ∀ a, Covers n (f a)) :
    Covers (m + n) (p >>= f) := by
  intro r r' h
  obtain ⟨hle, rfl⟩ := skip_eq_ok.mp h
  have hfirst : BinaryReader.skip m r = .ok ((), { r with pos := r.pos + m }) :=
    skip_eq_ok.mpr ⟨by omega, rfl⟩
  have hrest : BinaryReader.skip n { r with pos := r.pos + m } =
      .ok ((), { r with pos := r.pos + (m + n) }) :=
    skip_eq_ok.mpr ⟨by dsimp only; omega, by rw [← Nat.add_assoc]⟩
  rcases hp _ _ hfirst with ⟨a, ha⟩ | ⟨e, he, hfinal⟩
  · rw [bind_apply_ok ha]
    exact hf a _ _ hrest
  · refine .inr ⟨e, ?_, hfinal⟩
    show (p r >>= fun r => f r.1 r.2) = _
    rw [he]
    rfl

theorem map (hp : Covers n p) (f : α → β) : Covers n (p >>= fun a => Pure.pure (f a)) :=
  hp.bind fun a => pure (f a)

theorem iterM {f : α → ReadM α} (hf : ∀ a, Covers n (f a)) (k : ℕ) (a : α) :
    Covers (k * n) (Oxillama.iterM f k a) := by
  induction k generalizing a with
  | zero =>
    rw [Nat.zero_mul]
    exact pure a
  | succ k ih =>
    rw [Nat.succ_mul, Nat.add_comm]
    exact (hf a).bind ih

theorem okOr {e : GgufError} (he : ¬ Awaits e) (o : Option α) :
    Covers 0 (Oxillama.okOr e o : ReadM α) := by
  cases o with
  | none => exact fun _ _ _ => .inr ⟨e, rfl, he⟩
  | some a => exact pure a

end Covers

theorem covers_readLe (n : ℕ) : Covers n (BinaryReader.readLe n) := by
  refine Covers.map (p := BinaryReader.readBytes n) ?_ fromLe
  intro r r' h
  obtain ⟨hle, rfl⟩ := skip_eq_ok.mp h
  exact .inl ⟨_, (BinaryReader.readBytes_eq n r).trans (if_neg (by omega))⟩

theorem covers_readU32 : Covers 4 BinaryReader.readU32 := (covers_readLe 4).map _

theorem covers_readCountVersioned (version : UInt32) :
    Covers (if version ≥ 3 then 8 else 4) (BinaryReader.readCountVersioned version) := by
  rw [BinaryReader.readCountVersioned]
  split
  · exact (covers_readLe 8).map _
  · exact covers_readU32.map _

theorem covers_readOffsetVersioned (version : UInt32) :
    Covers (if version ≥ 2 then 8 else 4) (BinaryReader.readOffsetVersioned version) := by
  rw [BinaryReader.readOffsetVersioned]
  split
  · exact (covers_readLe 8).map _
  · exact covers_readU32.map _

theorem covers_takeString (len : ℕ) : Covers len (BinaryReader.takeString len) := by
  intro r r' h
  obtain ⟨hle, rfl⟩ := skip_eq_ok.mp h
  rw [BinaryReader.takeString_eq, if_neg (by omega)]
  cases decodeUtf8 ((r.data.drop r.pos).take len) with
  | some s => exact .inl ⟨s, rfl⟩
  | none => exact .inr ⟨_, rfl, by rintro ⟨⟩⟩

/-- A string, of which the length was read and the text skipped. -/
theorem readString_of_skip {version : UInt32} {len : UInt64} {r r₁ r₂ : BinaryReader}
    (hlen : BinaryReader.readCountVersioned version r = .ok (len, r₁))
    (hskip : BinaryReader.skip len.toNat r₁ = .ok ((), r₂)) :
    (∃ s, BinaryReader.readStringVersioned version r = .ok (s, r₂)) ∨
      ∃ e, BinaryReader.readStringVersioned version r = .error e ∧ ¬ Awaits e := by
  rw [BinaryReader.readCountVersioned] at hlen
  rw [BinaryReader.readStringVersioned]
  split at hlen
  · next hv =>
    obtain ⟨v, r', hv', hret⟩ := bind_eq_ok.mp hlen
    obtain ⟨rfl, rfl⟩ := Prod.mk.inj (Except.ok.inj hret)
    have hlt : v < 2 ^ 64 := readLe_eq_ok hv'
    rw [UInt64.toNat_ofNat_of_lt' hlt] at hskip
    have hread : BinaryReader.readString r = BinaryReader.takeString v r' := bind_apply_ok hv'
    rw [if_pos hv, hread]
    exact covers_takeString v _ _ hskip
  · next hv =>
    obtain ⟨v32, r', hv32, hret⟩ := bind_eq_ok.mp hlen
    obtain ⟨rfl, rfl⟩ := Prod.mk.inj (Except.ok.inj hret)
    obtain ⟨v, r'', hv', hret⟩ := bind_eq_ok.mp hv32
    obtain ⟨rfl, rfl⟩ := Prod.mk.inj (Except.ok.inj hret)
    have hlt : v < 2 ^ 32 := readLe_eq_ok hv'
    rw [UInt32.toNat_toUInt64, UInt32.toNat_ofNat_of_lt' hlt] at hskip
    have hread : BinaryReader.readStringV2 r = BinaryReader.takeString v r'' := bind_apply_ok hv'
    rw [if_neg hv, hread]
    exact covers_takeString v _ _ hskip

/-- **A tensor info that was skipped is read to its end**, or is not well-formed. -/
theorem readTensorInfo_of_skip {version : UInt32} {r r' : BinaryReader}
    (h : Streaming.skipTensorInfo version r = .ok ((), r')) :
    (∃ info, TensorInfoIter.parseOne version r = .ok (info, r')) ∨
      ∃ e, TensorInfoIter.parseOne version r = .error e ∧ ¬ Awaits e := by
  obtain ⟨len, r₁, hlen, h⟩ := bind_eq_ok.mp h
  have h : (if len.toNat > r₁.data.length - r₁.pos then throw (.unexpectedEof r₁.pos)
    else _ : ReadM Unit) r₁ = .ok ((), r') := h
  split at h
  · cases h
  obtain ⟨_, r₂, hskip, h⟩ := bind_eq_ok.mp h
  obtain ⟨nDims, r₃, hdims, h⟩ := bind_eq_ok.mp h
  split at h
  · cases h
  next hvalid =>
  obtain ⟨_, r₄, hskipDims, h⟩ := bind_eq_ok.mp h
  obtain ⟨_, r₅, hskipType, hskipOffset⟩ := bind_eq_ok.mp h
  have hskipRest := skip_add hskipDims (skip_add hskipType hskipOffset)
  rcases readString_of_skip hlen hskip with ⟨name, hname⟩ | ⟨e, he, hfinal⟩
  · rw [TensorInfoIter.parseOne, BinaryReader.readTensorInfo, bind_apply_ok hname,
      bind_apply_ok hdims, if_neg hvalid]
    -- the rest has a fixed length
    refine Covers.bind (.iterM (fun dims => (covers_readCountVersioned version).map _) _ [])
      (fun dims => covers_readU32.bind fun typeId => ?_) _ _ hskipRest
    rw [← Nat.zero_add (if version ≥ 2 then 8 else 4)]
    exact (Covers.okOr (by rintro ⟨⟩) _).bind fun tensorType =>
      (covers_readOffsetVersioned version).map _
  · refine .inr ⟨e, ?_, hfinal⟩
    show (BinaryReader.readStringVersioned version r >>= fun _ => _) = _
    rw [he]
    rfl

/-! ### The tensor infos -/

namespace TensorInfoIter

/-- The iterator over a buffer with more bytes. -/
def grow (it : TensorInfoIter) (more : List UInt8) : TensorInfoIter :=
  { it with reader := ⟨it.reader.data ++ more, it.reader.pos⟩ }

variable {it it' : TensorInfoIter} {info : TensorInfo}

theorem next_grow (h : it.next = some (.ok (info, it'))) (more : List UInt8) :
    (it.grow more).next = some (.ok (info, it'.grow more)) := by
  obtain ⟨⟨data, pos⟩, remaining, version, dataOffset⟩ := it
  rw [next] at h ⊢
  by_cases hzero : remaining = 0
  · rw [if_pos hzero] at h
    cases h
  · rw [if_neg hzero] at h
    obtain ⟨⟨info', r⟩, hread, h⟩ := except_bind_eq_ok.mp (Option.some.inj h)
    obtain ⟨rfl, rfl⟩ := Prod.mk.inj (Except.ok.inj h)
    obtain ⟨pos', rfl, hall⟩ := (growing_readTensorInfo _ _).ok_append hread
    have hread' : parseOne version ⟨data ++ more, pos⟩ = .ok (info', ⟨data ++ more, pos'⟩) :=
      hall more
    show (if remaining = 0 then none
      else some (parseOne version ⟨data ++ more, pos⟩ >>= fun r => _)) = _
    rw [if_neg hzero]
    rw [hread']
    rfl

theorem next_grow_error {e : GgufError} (h : it.next = some (.error e)) (he : ¬ Awaits e)
    (more : List UInt8) : (it.grow more).next = some (.error e) := by
  obtain ⟨⟨data, pos⟩, remaining, version, dataOffset⟩ := it
  rw [next] at h ⊢
  by_cases hzero : remaining = 0
  · rw [if_pos hzero] at h
    cases h
  · rw [if_neg hzero] at h
    have herr : parseOne version ⟨data, pos⟩ = .error e := by
      have hread := Option.some.inj h
      dsimp only at hread
      cases hone : parseOne version ⟨data, pos⟩ with
      | error e' =>
        rw [hone] at hread
        exact congrArg _ (Except.error.inj hread)
      | ok r =>
        rw [hone] at hread
        cases hread
    have herr' : parseOne version ⟨data ++ more, pos⟩ = .error e :=
      (growing_readTensorInfo _ _).error_append herr he more
    show (if remaining = 0 then none
      else some (parseOne version ⟨data ++ more, pos⟩ >>= fun r => _)) = _
    rw [if_neg hzero]
    rw [herr']
    rfl

theorem next_grow_none (h : it.next = none) (more : List UInt8) : (it.grow more).next = none := by
  rw [next] at h ⊢
  by_cases hzero : it.remaining = 0
  · exact if_pos hzero
  · rw [if_neg hzero] at h
    cases h

/-- What an iterator yields, up to its first error. -/
def collect : ℕ → TensorInfoIter → List TensorInfo × Option GgufError
  | 0, _ => ([], none)
  | n + 1, it =>
    match it.next with
    | none => ([], none)
    | some (.error e) => ([], some e)
    | some (.ok (info, it')) => (info :: (collect n it').1, (collect n it').2)

/-- What it yielded it yields again, and then perhaps more. -/
theorem collect_grow_prefix (n : ℕ) (it : TensorInfoIter) (more : List UInt8) :
    (collect n it).1 <+: (collect n (it.grow more)).1 := by
  induction n generalizing it with
  | zero => exact List.prefix_refl _
  | succ n ih =>
    cases hnext : it.next with
    | none =>
      rw [collect, hnext]
      exact List.nil_prefix
    | some result =>
      cases result with
      | error e =>
        rw [collect, hnext]
        exact List.nil_prefix
      | ok r =>
        rw [collect, collect, hnext, next_grow hnext more]
        exact (List.prefix_cons_inj _).mpr (ih r.2)

/-- **Where it ran to its end, or into an error that stays, it does so again.** -/
theorem collect_grow (n : ℕ) (it : TensorInfoIter) (more : List UInt8)
    (h : ∀ e, (collect n it).2 = some e → ¬ Awaits e) :
    collect n (it.grow more) = collect n it := by
  induction n generalizing it with
  | zero => rfl
  | succ n ih =>
    cases hnext : it.next with
    | none => rw [collect, collect, hnext, next_grow_none hnext more]
    | some result =>
      cases result with
      | error e =>
        have he := h e (by rw [collect, hnext])
        rw [collect, collect, hnext, next_grow_error hnext he more]
      | ok r =>
        rw [collect, collect, hnext, next_grow hnext more]
        have hrest := ih r.2 fun e he => h e (by rw [collect, hnext]; exact he)
        dsimp only
        rw [hrest]

/-- Over tensor infos that were skipped, the iterator does not run out of data. -/
theorem collect_of_skip {version : UInt32} {n dataOffset : ℕ} {r r' : BinaryReader}
    (h : iterM (fun _ => Streaming.skipTensorInfo version) n () r = .ok ((), r')) {e : GgufError}
    (he : (collect n ⟨r, n, version, dataOffset⟩).2 = some e) : ¬ Awaits e := by
  induction n generalizing r with
  | zero => cases he
  | succ n ih =>
    obtain ⟨_, r₁, hone, hrest⟩ := bind_eq_ok.mp h
    rcases readTensorInfo_of_skip hone with ⟨info, hread⟩ | ⟨e', hread, hfinal⟩
    · have hnext : (⟨r, n + 1, version, dataOffset⟩ : TensorInfoIter).next =
          some (.ok (info, ⟨r₁, n, version, dataOffset⟩)) := by
        rw [next, if_neg (Nat.succ_ne_zero n), hread]
        rfl
      rw [collect, hnext] at he
      exact ih hrest he
    · have hnext : (⟨r, n + 1, version, dataOffset⟩ : TensorInfoIter).next = some (.error e') := by
        rw [next, if_neg (Nat.succ_ne_zero n), hread]
        rfl
      rw [collect, hnext] at he
      obtain rfl := Option.some.inj he
      exact hfinal

end TensorInfoIter

/-- The tensor infos of a parser that was built are all there. -/
theorem StreamingGgufParser.final_of_new {data : List UInt8} {p : StreamingGgufParser}
    (h : StreamingGgufParser.new data = .ok p) {e : GgufError}
    (he : (p.tensorInfos.collect p.tensorInfos.remaining).2 = some e) : ¬ Awaits e := by
  obtain ⟨⟨header, offset⟩, -, hnew⟩ := except_bind_eq_ok.mp h
  obtain ⟨⟨p', r⟩, hbody, hp⟩ := except_bind_eq_ok.mp hnew
  obtain rfl := Except.ok.inj hp
  obtain ⟨metadata, r₁, hmetadata, hbody⟩ := bind_eq_ok.mp hbody
  obtain ⟨start, rfl, -⟩ := (growing_parseMetadataStreaming header).ok_append hmetadata
  obtain ⟨_, r₂, hlift, hbody⟩ := bind_eq_ok.mp hbody
  obtain rfl : r₂ = ⟨data, start⟩ := by
    cases halign : validateAlignment Streaming.maxGgufAlignment (alignmentOf metadata) with
    | error e =>
      rw [halign] at hlift
      cases hlift
    | ok _ =>
      rw [halign] at hlift
      exact (Prod.mk.inj (Except.ok.inj hlift)).2.symm
  obtain ⟨_, r₃, hstart, hbody⟩ := bind_eq_ok.mp hbody
  obtain ⟨rfl, rfl⟩ := Prod.mk.inj (Except.ok.inj hstart)
  obtain ⟨_, r₄, hskip, hbody⟩ := bind_eq_ok.mp hbody
  obtain ⟨_, r₅, -, hbody⟩ := bind_eq_ok.mp hbody
  obtain ⟨rfl, -⟩ := Prod.mk.inj (Except.ok.inj hbody)
  exact TensorInfoIter.collect_of_skip hskip he

end Gguf

end Oxillama
