/-
The data writer, call by call.

Each method of `GgufTensorDataWriter` has one lemma that says what it answers and
what state it leaves, on a sink that keeps every byte.

* `Delivering` — the invariant: the tensors delivered so far are written as the
  format has them, and the rest of the data section can follow;
* `Delivering.deliver` — a call that succeeds delivers one more;
* `Delivering.writer_eq` — at the end the sink holds the whole file.
-/
import Oxillama.Gguf.Layout

namespace Oxillama

namespace Gguf

namespace GgufTensorDataWriter

/-! ### What the methods do -/

/-- The state behind a tensor of `written` bytes. -/
def advanced (s : GgufTensorDataWriter (List UInt8)) (written : ℕ) :
    GgufTensorDataWriter (List UInt8) :=
  if s.nextIndex + 1 < s.metas.length then
    { s with
      writer := s.writer ++
        zeroPad (alignmentPadding (s.cumulativeOffset + written) ggufDefaultAlignment)
      nextIndex := s.nextIndex + 1
      cumulativeOffset := nextOffset s.cumulativeOffset written }
  else
    { s with
      nextIndex := s.nextIndex + 1
      cumulativeOffset := s.cumulativeOffset + written }

/-- The state with more bytes in the sink. -/
def appended (s : GgufTensorDataWriter (List UInt8)) (bytes : List UInt8) :
    GgufTensorDataWriter (List UInt8) := { s with writer := s.writer ++ bytes }

/-- The state behind the delivery of a tensor. -/
def delivered (s : GgufTensorDataWriter (List UInt8)) (data : List UInt8) :
    GgufTensorDataWriter (List UInt8) := (s.appended data).advanced data.length

/-- In front of another tensor the sink is padded. -/
theorem delivered_of_lt {s : GgufTensorDataWriter (List UInt8)}
    (h : s.nextIndex + 1 < s.metas.length) (data : List UInt8) :
    s.delivered data = {
      writer := s.writer ++ (data ++
        zeroPad (alignmentPadding (s.cumulativeOffset + data.length) ggufDefaultAlignment))
      metas := s.metas
      nextIndex := s.nextIndex + 1
      cumulativeOffset := nextOffset s.cumulativeOffset data.length } := by
  rw [← List.append_assoc]
  exact if_pos h

theorem delivered_of_not_lt {s : GgufTensorDataWriter (List UInt8)}
    (h : ¬ s.nextIndex + 1 < s.metas.length) (data : List UInt8) :
    s.delivered data = {
      writer := s.writer ++ data
      metas := s.metas
      nextIndex := s.nextIndex + 1
      cumulativeOffset := s.cumulativeOffset + data.length } := if_neg h

theorem onWriter_writeAll (bytes : List UInt8) (s : GgufTensorDataWriter (List UInt8)) :
    (onWriter (writeAll bytes) : DataM (List UInt8) Unit) s = (.ok (), s.appended bytes) := rfl

@[simp] theorem appended_nil (s : GgufTensorDataWriter (List UInt8)) : s.appended [] = s := by
  rw [appended, List.append_nil]

theorem appended_appended (s : GgufTensorDataWriter (List UInt8)) (u v : List UInt8) :
    (s.appended u).appended v = s.appended (u ++ v) := by
  rw [appended, appended, appended, List.append_assoc]

theorem advanceAfterTensor_eq {s : GgufTensorDataWriter (List UInt8)} {written : ℕ}
    (h : s.cumulativeOffset + written < 2 ^ 64) :
    advanceAfterTensor written s = (.ok (), s.advanced written) := by
  have hadd : checkedAdd s.cumulativeOffset written = some (s.cumulativeOffset + written) :=
    checkedAdd_eq_some.mpr ⟨h, rfl⟩
  show ((okOr _ (checkedAdd s.cumulativeOffset written) : DataM (List UInt8) ℕ) >>= _) s = _
  rw [hadd, advanced]
  show (if s.nextIndex + 1 < s.metas.length then _ else _ : DataM (List UInt8) Unit)
    { s with
      cumulativeOffset := s.cumulativeOffset + written
      nextIndex := s.nextIndex + 1 } = _
  by_cases hmore : s.nextIndex + 1 < s.metas.length
  · rw [if_pos hmore, if_pos hmore]
    by_cases hpad : alignmentPadding (s.cumulativeOffset + written) ggufDefaultAlignment > 0
    · simp only [if_pos hpad]
      rfl
    · have hzero : alignmentPadding (s.cumulativeOffset + written) ggufDefaultAlignment = 0 := by
        omega
      have hnil : s.writer ++ zeroPad 0 = s.writer := List.append_nil _
      simp only [nextOffset, hzero, hnil]
      rfl
  · rw [if_neg hmore, if_neg hmore]
    rfl

theorem validateNext_eq_ok_iff {s : GgufTensorDataWriter (List UInt8)} {name : String}
    {size : ℕ} :
    s.validateNext name = .ok size ↔
      ∃ tensor, s.metas[s.nextIndex]? = some tensor ∧ tensor.name = name ∧
        tensor.dataSize = size := by
  unfold validateNext
  cases s.metas[s.nextIndex]? with
  | none => exact iff_of_false (by rintro ⟨⟩) (by rintro ⟨_, ⟨⟩, _⟩)
  | some tensor =>
    dsimp only
    by_cases h : tensor.name = name
    · rw [if_neg (not_not.mpr h)]
      constructor
      · intro heq
        exact ⟨tensor, rfl, h, Except.ok.inj heq⟩
      · rintro ⟨_, heq, -, rfl⟩
        obtain rfl := Option.some.inj heq
        rfl
    · rw [if_pos h]
      refine iff_of_false (by rintro ⟨⟩) ?_
      rintro ⟨_, heq, hname, -⟩
      obtain rfl := Option.some.inj heq
      exact h hname

theorem writeTensor_of_error {s : GgufTensorDataWriter (List UInt8)} {name : String}
    {e : GgufError} (h : s.validateNext name = .error e) (data : List UInt8) :
    writeTensor name data s = (.error e, s) := by
  have hnext := exceptT_lift (s.validateNext name) s
  rw [h] at hnext
  rw [writeTensor, exceptT_get_bind, h, exceptT_bind_error hnext]

/-- A single write is all or nothing. -/
theorem writeTensor_of_ok {s : GgufTensorDataWriter (List UInt8)} {name : String} {size : ℕ}
    (h : s.validateNext name = .ok size) (hfit : s.cumulativeOffset + size < 2 ^ 64)
    (data : List UInt8) :
    (data.length = size ∧ writeTensor name data s = (.ok (), s.delivered data)) ∨
      ∃ e, data.length ≠ size ∧ writeTensor name data s = (.error e, s) := by
  have hnext := exceptT_lift (s.validateNext name) s
  rw [h] at hnext
  rw [writeTensor, exceptT_get_bind, h]
  by_cases hlen : data.length = size
  · left
    refine ⟨hlen, ?_⟩
    rw [exceptT_bind_ok hnext, if_neg (not_not.mpr hlen),
      exceptT_bind_ok (onWriter_writeAll data s), advanceAfterTensor_eq]
    · rfl
    · rw [hlen]
      exact hfit
  · right
    rw [exceptT_bind_ok hnext, if_pos hlen]
    exact ⟨_, hlen, rfl⟩

/-- Chunks that fit are all written. -/
theorem writeChunks_of_le (name : String) {size : ℕ} (hsize : size < 2 ^ 64)
    {chunks : List (List UInt8)} {written : ℕ} (h : written + chunks.flatten.length ≤ size)
    (s : GgufTensorDataWriter (List UInt8)) :
    writeChunks name size chunks written s =
      (.ok (written + chunks.flatten.length), s.appended chunks.flatten) := by
  induction chunks generalizing written s with
  | nil =>
    show _ = (Except.ok written, s.appended [])
    rw [appended_nil]
    rfl
  | cons bytes chunks ih =>
    rw [List.flatten_cons, List.length_append] at h
    have hadd : checkedAdd written bytes.length = some (written + bytes.length) :=
      checkedAdd_eq_some.mpr ⟨by omega, rfl⟩
    rw [writeChunks, hadd]
    show (if written + bytes.length > size then _ else _ : DataM (List UInt8) ℕ) s = _
    rw [if_neg (by omega), exceptT_bind_ok (onWriter_writeAll bytes s), ih (by omega),
      appended_appended, List.flatten_cons, List.length_append, Nat.add_assoc]

/-- Chunks of which the first with any bytes is too long leave no trace. -/
theorem writeChunks_of_find (name : String) {size : ℕ} {chunks : List (List UInt8)}
    (h : ∀ bytes, chunks.find? (!·.isEmpty) = some bytes → size < bytes.length)
    (s : GgufTensorDataWriter (List UInt8)) :
    (∃ e, writeChunks name size chunks 0 s = (.error e, s)) ∨
      chunks.flatten = [] ∧ writeChunks name size chunks 0 s = (.ok 0, s) := by
  induction chunks with
  | nil => exact .inr ⟨rfl, rfl⟩
  | cons bytes chunks ih =>
    cases bytes with
    | nil =>
      -- an empty chunk is written, and nothing changes
      have hrun : writeChunks name size ([] :: chunks) 0 s = writeChunks name size chunks 0 s := by
        show (onWriter (writeAll []) >>= fun _ => writeChunks name size chunks 0) s = _
        rw [exceptT_bind_ok (onWriter_writeAll [] s), appended_nil]
      rw [hrun, List.flatten_cons, List.nil_append]
      exact ih h
    | cons b bytes =>
      left
      have hlong : size < (b :: bytes).length := h _ rfl
      by_cases hadd : 0 + (b :: bytes).length < 2 ^ 64
      · rw [writeChunks, checkedAdd_eq_some.mpr ⟨hadd, rfl⟩]
        show ∃ e, (if 0 + (b :: bytes).length > size then _ else _ : DataM (List UInt8) ℕ) s = _
        rw [if_pos (by omega)]
        exact ⟨_, rfl⟩
      · have hnone : checkedAdd 0 (b :: bytes).length = none := if_neg hadd
        rw [writeChunks, hnone]
        exact ⟨_, rfl⟩

theorem finish_eq_ok {s s' : GgufTensorDataWriter (List UInt8)} {out : List UInt8}
    (h : finish s = (.ok out, s')) : s.nextIndex = s.metas.length ∧ out = s.writer := by
  rw [finish, exceptT_get_bind] at h
  by_cases hindex : s.nextIndex = s.metas.length
  · rw [if_neg (not_not.mpr hindex)] at h
    exact ⟨hindex, (Except.ok.inj (Prod.mk.inj h).1).symm⟩
  · rw [if_pos hindex] at h
    cases (Prod.mk.inj h).1

theorem finish_of_eq {s : GgufTensorDataWriter (List UInt8)}
    (h : s.nextIndex = s.metas.length) : finish s = (.ok s.writer, s) := by
  rw [finish, exceptT_get_bind, if_neg (not_not.mpr h)]
  rfl

end GgufTensorDataWriter

open GgufTensorDataWriter

/-! ### Calls -/

/-- A call that delivers a tensor, in one piece or in chunks. -/
inductive Call
  | tensor (name : String) (data : List UInt8)
  | fromChunks (name : String) (chunks : List (List UInt8))

namespace Call

/-- The name the call is made with. -/
def name : Call → String
  | tensor name _ => name
  | fromChunks name _ => name

/-- The bytes passed to the call. -/
def bytes : Call → List UInt8
  | tensor _ data => data
  | fromChunks _ chunks => chunks.flatten

/-- The method that is called. -/
def run : Call → DataM (List UInt8) Unit
  | tensor name data => writeTensor name data
  | fromChunks name chunks => writeTensorFromChunks name chunks

/-- A call that can only fail before it has written any bytes: chunks for the
next tensor add up to its size, or the first chunk with any bytes is too long
already. -/
def Clean (s : GgufTensorDataWriter (List UInt8)) : Call → Prop
  | tensor _ _ => True
  | fromChunks name chunks => ∀ size, s.validateNext name = .ok size →
    chunks.flatten.length = size ∨
      ∀ bytes, chunks.find? (!·.isEmpty) = some bytes → size < bytes.length

/-- **A clean call is all or nothing.** -/
theorem run_of_clean {s : GgufTensorDataWriter (List UInt8)} {call : Call} (hclean : call.Clean s)
    (hfit : ∀ size, s.validateNext call.name = .ok size → s.cumulativeOffset + size < 2 ^ 64) :
    (∃ e, call.run s = (.error e, s)) ∨
      (s.validateNext call.name = .ok call.bytes.length ∧
        call.run s = (.ok (), s.delivered call.bytes)) := by
  cases call with
  | tensor name data =>
    cases hnext : s.validateNext name with
    | error e => exact .inl ⟨e, writeTensor_of_error hnext data⟩
    | ok size =>
      rcases writeTensor_of_ok hnext (hfit size hnext) data with ⟨rfl, hrun⟩ | ⟨e, -, hrun⟩
      · exact .inr ⟨hnext, hrun⟩
      · exact .inl ⟨e, hrun⟩
  | fromChunks name chunks =>
    show (∃ e, writeTensorFromChunks name chunks s = (.error e, s)) ∨
      (_ ∧ writeTensorFromChunks name chunks s = (.ok (), s.delivered chunks.flatten))
    have hvalidate := exceptT_lift (s.validateNext name) s
    rw [writeTensorFromChunks, exceptT_get_bind]
    cases hnext : s.validateNext name with
    | error e =>
      rw [hnext] at hvalidate
      exact .inl ⟨e, by rw [exceptT_bind_error hvalidate]⟩
    | ok size =>
      rw [hnext] at hvalidate
      have hsum := hfit size hnext
      rw [exceptT_bind_ok hvalidate]
      by_cases hlen : chunks.flatten.length = size
      · -- the chunks add up, and all of them are written
        right
        subst hlen
        have hle : 0 + chunks.flatten.length ≤ chunks.flatten.length := by omega
        have hchunks := writeChunks_of_le name (by omega) hle s
        have hadvance : advanceAfterTensor chunks.flatten.length (s.appended chunks.flatten) =
            (.ok (), s.delivered chunks.flatten) :=
          advanceAfterTensor_eq hsum
        rw [Nat.zero_add] at hchunks
        rw [exceptT_bind_ok hchunks, if_neg (not_not.mpr rfl), hadvance]
        exact ⟨hnext, rfl⟩
      · left
        rcases writeChunks_of_find name ((hclean size hnext).resolve_left hlen) s with
          ⟨e, hchunks⟩ | ⟨hnil, hchunks⟩
        · exact ⟨e, by rw [exceptT_bind_error hchunks]⟩
        · rw [hnil] at hlen
          have hne : 0 ≠ size := hlen
          rw [exceptT_bind_ok hchunks, if_pos hne]
          exact ⟨_, rfl⟩

end Call

/-! ### The invariant -/

/-- The tensors `done` are delivered: the sink holds them as the format has them,
and continues to the whole file when the data of the others follows. -/
structure Delivering (start : List UInt8) (metas : List TensorMeta)
    (done : List (String × List UInt8)) (s : GgufTensorDataWriter (List UInt8)) : Prop where
  metas_eq : s.metas = metas
  next : s.nextIndex = done.length
  names : done.map Prod.fst = (metas.take done.length).map TensorMeta.name
  sizes : done.map (·.2.length) = (metas.take done.length).map TensorMeta.dataSize
  fit : OffsetsFit s.cumulativeOffset ((metas.drop done.length).map TensorMeta.dataSize)
  continues : ∀ rest, done.length + rest.length = metas.length →
    s.writer ++ encodeData s.cumulativeOffset rest =
      start ++ encodeData 0 (done.map Prod.snd ++ rest)

namespace Delivering

variable {start : List UInt8} {metas : List TensorMeta} {done : List (String × List UInt8)}
  {s : GgufTensorDataWriter (List UInt8)}

theorem init (start : List UInt8) (h : OffsetsFit 0 (metas.map TensorMeta.dataSize)) :
    Delivering start metas [] ⟨start, metas, 0, 0⟩ where
  metas_eq := rfl
  next := rfl
  names := rfl
  sizes := rfl
  fit := h
  continues _ _ := rfl

/-- The tensor a call may deliver next. -/
theorem next_tensor (h : Delivering start metas done s) {name : String} {size : ℕ}
    (hnext : s.validateNext name = .ok size) :
    ∃ tensor rest, metas.drop done.length = tensor :: rest ∧ tensor.name = name ∧
      tensor.dataSize = size ∧ rest = metas.drop (done.length + 1) := by
  obtain ⟨tensor, hget, hname, hsize⟩ := validateNext_eq_ok_iff.mp hnext
  rw [h.metas_eq, h.next] at hget
  obtain ⟨hlt, rfl⟩ := List.getElem?_eq_some_iff.mp hget
  exact ⟨_, _, List.drop_eq_getElem_cons hlt, hname, hsize, rfl⟩

theorem offset_fits (h : Delivering start metas done s) {name : String} {size : ℕ}
    (hnext : s.validateNext name = .ok size) : s.cumulativeOffset + size < 2 ^ 64 := by
  obtain ⟨tensor, rest, hdrop, -, rfl, -⟩ := h.next_tensor hnext
  have hfit := h.fit
  rw [hdrop] at hfit
  exact hfit.1

/-- **A delivery continues the file.** -/
theorem deliver (h : Delivering start metas done s) {name : String} {data : List UInt8}
    (hnext : s.validateNext name = .ok data.length) :
    Delivering start metas (done ++ [(name, data)]) (s.delivered data) := by
  obtain ⟨tensor, rest, hdrop, hname, hsize, hrest⟩ := h.next_tensor hnext
  have hlength : (done ++ [(name, data)]).length = done.length + 1 := by
    rw [List.length_append, List.length_singleton]
  have htake : metas.take (done ++ [(name, data)]).length = metas.take done.length ++ [tensor] := by
    rw [hlength, List.take_add, hdrop]
    rfl
  have hnames : (done ++ [(name, data)]).map Prod.fst =
      (metas.take (done ++ [(name, data)]).length).map TensorMeta.name := by
    rw [htake, List.map_append, List.map_append, h.names, ← hname]
    rfl
  have hsizes : (done ++ [(name, data)]).map (·.2.length) =
      (metas.take (done ++ [(name, data)]).length).map TensorMeta.dataSize := by
    rw [htake, List.map_append, List.map_append, h.sizes, List.map_singleton, ← hsize]
    rfl
  have hcontinues : ∀ others, done.length + 1 + others.length = metas.length →
      s.writer ++ encodeData s.cumulativeOffset (data :: others) =
        start ++ encodeData 0 ((done ++ [(name, data)]).map Prod.snd ++ others) := by
    intro others hothers
    rw [h.continues (data :: others) (by rw [List.length_cons]; omega), List.map_append,
      List.append_assoc]
    rfl
  have hfit := h.fit
  rw [hdrop, List.map_cons, OffsetsFit, hsize] at hfit
  by_cases hmore : s.nextIndex + 1 < s.metas.length
  · rw [delivered_of_lt hmore]
    rw [h.metas_eq, h.next] at hmore
    refine ⟨h.metas_eq, by rw [hlength, ← h.next], hnames, hsizes, ?_, ?_⟩
    · rw [hlength, ← hrest]
      exact hfit.2
    · intro others hothers
      rw [hlength] at hothers
      rw [← hcontinues others hothers]
      cases others with
      | nil =>
        rw [List.length_nil] at hothers
        omega
      | cons next others =>
        rw [encodeData]
        simp only [List.append_assoc]
  · rw [delivered_of_not_lt hmore]
    rw [h.metas_eq, h.next] at hmore
    refine ⟨h.metas_eq, by rw [hlength, ← h.next], hnames, hsizes, ?_, ?_⟩
    · rw [List.drop_of_length_le (by omega)]
      trivial
    · intro others hothers
      rw [hlength] at hothers
      rw [← hcontinues others hothers]
      -- the last tensor is not padded
      obtain rfl : others = [] := by
        rw [← List.length_eq_zero_iff]
        omega
      rw [encodeData, encodeData, List.append_nil]

/-- At the end the sink holds the whole file. -/
theorem writer_eq (h : Delivering start metas done s) (hend : s.nextIndex = s.metas.length) :
    s.writer = start ++ encodeData 0 (done.map Prod.snd) := by
  rw [h.next, h.metas_eq] at hend
  have hcontinues := h.continues [] (by rw [hend]; rfl)
  rwa [encodeData, List.append_nil, List.append_nil] at hcontinues

/-- At the end every tensor is delivered, under its name and in its size. -/
theorem delivered_eq (h : Delivering start metas done s) (hend : s.nextIndex = s.metas.length) :
    done.map Prod.fst = metas.map TensorMeta.name ∧
      done.map (·.2.length) = metas.map TensorMeta.dataSize := by
  rw [h.next, h.metas_eq] at hend
  have htake : metas.take done.length = metas := by rw [hend, List.take_length]
  have hnames := h.names
  have hsizes := h.sizes
  rw [htake] at hnames hsizes
  exact ⟨hnames, hsizes⟩

end Delivering

end Gguf

end Oxillama
