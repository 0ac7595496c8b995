/-
The streaming loader of the browser build (`oxillama-wasm/src/streaming_loader.rs`,
`LoaderInner` and `StreamingGgufLoader::push_chunk`).

`pushChunk` appends to a buffer and tries to parse the header and the tensor infos from
what is there.  An attempt that fails may leave tensors in the index.  Sums and products of
sizes answer `none` where they overflow, and `usize` has 64 bits.

* `run_iff_push` — **it does not matter how the bytes are cut into chunks**: the state and
  the answer after the last of them are those of a push of everything at once;
* `error_stays` — an error that a push reports is final, with one exception: the check of
  an array's count takes a buffer that ends in the array for a damaged file.
-/
import Mathlib
import Oxillama.Gguf.Growth
import Oxillama.Lib.Maps
import Oxillama.Wasm.TensorCache

namespace Oxillama

namespace Gguf

/-- The `Debug` name of a tensor type. -/
def GgufTensorType.debugName : GgufTensorType → String
  | .f32 => "F32"
  | .f16 => "F16"
  | .q4_0 => "Q4_0"
  | .q4_1 => "Q4_1"
  | .q5_0 => "Q5_0"
  | .q5_1 => "Q5_1"
  | .q8_0 => "Q8_0"
  | .q8_1 => "Q8_1"
  | .q2K => "Q2K"
  | .q3K => "Q3K"
  | .q4K => "Q4K"
  | .q5K => "Q5K"
  | .q6K => "Q6K"
  | .q8K => "Q8K"
  | .iq2Xxs => "Iq2Xxs"
  | .iq2Xs => "Iq2Xs"
  | .iq3Xxs => "Iq3Xxs"
  | .iq1S => "Iq1S"
  | .iq4Nl => "Iq4Nl"
  | .iq3S => "Iq3S"
  | .iq2S => "Iq2S"
  | .iq4Xs => "Iq4Xs"
  | .i8 => "I8"
  | .i16 => "I16"
  | .i32 => "I32"
  | .i64 => "I64"
  | .f64 => "F64"
  | .iq1M => "Iq1M"
  | .bf16 => "Bf16"
  | .q4_0_4_4 => "Q4_0_4_4"
  | .q4_0_4_8 => "Q4_0_4_8"
  | .q4_0_8_8 => "Q4_0_8_8"
  | .tq1_0 => "Tq1_0"
  | .tq2_0 => "Tq2_0"
  | .iq4Nl4x4 => "Iq4Nl4x4"
  | .iq4Nl4x8 => "Iq4Nl4x8"
  | .iq4Nl8x8 => "Iq4Nl8x8"
  | .q1_0G128 => "Q1_0G128"

namespace TensorInfo

/-- `TensorInfo::n_elements`, with overflow checks as the crate is built with them. -/
def nElementsChecked (info : TensorInfo) : Option ℕ :=
  if info.dimensions.isEmpty then some 0
  else info.dimensions.foldlM (fun acc d => checkedMul acc d.toNat) 1

/-- `TensorInfo::data_size`, with overflow checks. -/
def dataSizeChecked (info : TensorInfo) : Option ℕ := do
  let nElements ← info.nElementsChecked
  let blockSize := info.tensorType.blockSize
  if blockSize = 0 then none
  else checkedMul ((nElements + blockSize - 1) / blockSize) info.tensorType.blockBytes

end TensorInfo

end Gguf

namespace Wasm

open Gguf (StreamingGgufParser TensorInfo TensorInfoIter GgufError)

/-! ### The loader -/

/-- `TensorMeta`. -/
structure TensorMeta where
  /-- Absolute byte offset of the data in the file. -/
  fileOffset : ℕ
  sizeBytes : ℕ
  dtype : String
  shape : List UInt64
deriving DecidableEq

/-- `LoadPhase`. -/
inductive LoadPhase
  | waitingForHeader
  | headerParsed
deriving DecidableEq

/-- The errors of `try_parse_header`: `tensor info parse error: {e}` and
`GGUF parse error: {e}`. -/
inductive LoadError
  | tensorInfo (e : GgufError)
  | gguf (e : GgufError)
deriving DecidableEq

/-- `HashMap<String, TensorMeta>`. -/
abbrev TensorIndex := AList fun _ : String => TensorMeta

/-- `LoaderInner`. -/
structure LoaderInner where
  bytesBuffer : List UInt8
  tensorIndex : TensorIndex
  cache : LruTensorCache
  phase : LoadPhase

namespace LoaderInner

/-- `LoaderInner::new`. -/
def new (cacheCapacity : ℕ) : LoaderInner :=
  ⟨[], ∅, .new cacheCapacity, .waitingForHeader⟩

/-- The entry of the index that a tensor info gives; `none` is an overflow. -/
def entryOf (dataOffset : ℕ) (info : TensorInfo) : Option (String × TensorMeta) := do
  let fileOffset ← checkedAdd dataOffset info.offset.toNat
  let sizeBytes ← info.dataSizeChecked
  return (info.name, ⟨fileOffset, sizeBytes, info.tensorType.debugName, info.dimensions⟩)

/-- The loop of `try_parse_header` over what an iterator has left, at most `n` entries. -/
def indexTensors (dataOffset : ℕ) :
    ℕ → TensorInfoIter → TensorIndex → Option (TensorIndex × Except GgufError Unit)
  | 0, _, index => some (index, .ok ())
  | n + 1, it, index =>
    match it.next with
    | none => some (index, .ok ())
    | some (.error e) => some (index, .error e)
    | some (.ok (info, it')) =>
      (entryOf dataOffset info).bind fun entry =>
        indexTensors dataOffset n it' (index.insert entry.1 entry.2)

/-- How `try_parse_header` answers an error of the parser. -/
def ofParseError : GgufError → Except LoadError Bool
  | .unexpectedEof _ => .ok false
  | other => .error (.gguf other)

/-- `LoaderInner::try_parse_header`. -/
def tryParseHeader (inner : LoaderInner) : Option (LoaderInner × Except LoadError Bool) :=
  if inner.phase = .headerParsed then some (inner, .ok true)
  else if inner.bytesBuffer.length < 24 then some (inner, .ok false)
  else
    match StreamingGgufParser.new inner.bytesBuffer with
    | .ok parser =>
      (indexTensors parser.dataSectionOffset parser.tensorInfos.remaining parser.tensorInfos
        inner.tensorIndex).map fun (index, result) =>
          match result with
          | .ok _ => ({ inner with tensorIndex := index, phase := .headerParsed }, .ok true)
          | .error e => ({ inner with tensorIndex := index }, .error (.tensorInfo e))
    | .error e => some (inner, ofParseError e)

/-- `StreamingGgufLoader::push_chunk`. -/
def pushChunk (inner : LoaderInner) (chunk : List UInt8) :
    Option (LoaderInner × Except LoadError Bool) :=
  tryParseHeader { inner with bytesBuffer := inner.bytesBuffer ++ chunk }

/-! ### One push -/

/-- The loop inserts what the iterator yields, and stops at its error. -/
theorem indexTensors_eq (dataOffset n : ℕ) (it : TensorInfoIter) (index : TensorIndex) :
    indexTensors dataOffset n it index =
      ((it.collect n).1.mapM (entryOf dataOffset)).map fun pairs =>
        (insertPairs index pairs, (it.collect n).2.elim (.ok ()) .error) := by
  induction n generalizing it index with
  | zero => rfl
  | succ n ih =>
    rw [indexTensors, TensorInfoIter.collect]
    cases it.next with
    | none => rfl
    | some result =>
      cases result with
      | error e => rfl
      | ok r =>
        dsimp only
        rw [List.mapM_cons]
        cases entryOf dataOffset r.1 with
        | none => rfl
        | some entry =>
          show indexTensors dataOffset n r.2 (index.insert entry.1 entry.2) = _
          rw [ih]
          cases (r.2.collect n).1.mapM (entryOf dataOffset) <;> rfl

/-- The loader with everything pushed at once, before it looks at it. -/
def buffered (cap : ℕ) (data : List UInt8) : LoaderInner := { new cap with bytesBuffer := data }

theorem pushChunk_new (cap : ℕ) (data : List UInt8) :
    pushChunk (new cap) data = tryParseHeader (buffered cap data) := rfl

/-- Another chunk while the header is not there yet, with an index that an attempt may have
left behind. -/
def awaiting (cap : ℕ) (data : List UInt8) (index : TensorIndex) : LoaderInner :=
  { buffered cap data with tensorIndex := index }

variable {cap : ℕ} {data : List UInt8} {inner : LoaderInner} {out : Except LoadError Bool}

/-- What a push of everything at once comes to. -/
inductive Pushed (cap : ℕ) (data : List UInt8) : LoaderInner → Except LoadError Bool → Prop
  | short (h : data.length < 24) : Pushed cap data (buffered cap data) (.ok false)
  | failed {e : GgufError} (hlen : ¬ data.length < 24)
      (h : StreamingGgufParser.new data = .error e) :
      Pushed cap data (buffered cap data) (ofParseError e)
  | broken {p : StreamingGgufParser} {pairs : List (String × TensorMeta)} {e : GgufError}
      (hlen : ¬ data.length < 24) (h : StreamingGgufParser.new data = .ok p)
      (hpairs : (p.tensorInfos.collect p.tensorInfos.remaining).1.mapM
        (entryOf p.dataSectionOffset) = some pairs)
      (he : (p.tensorInfos.collect p.tensorInfos.remaining).2 = some e) :
      Pushed cap data (awaiting cap data (insertPairs ∅ pairs)) (.error (.tensorInfo e))
  | parsed {p : StreamingGgufParser} {pairs : List (String × TensorMeta)}
      (hlen : ¬ data.length < 24) (h : StreamingGgufParser.new data = .ok p)
      (hpairs : (p.tensorInfos.collect p.tensorInfos.remaining).1.mapM
        (entryOf p.dataSectionOffset) = some pairs)
      (he : (p.tensorInfos.collect p.tensorInfos.remaining).2 = none) :
      Pushed cap data
        { awaiting cap data (insertPairs ∅ pairs) with phase := .headerParsed } (.ok true)

theorem tryParseHeader_of_ok (cap : ℕ) (index : TensorIndex) {p : StreamingGgufParser}
    (hlen : ¬ data.length < 24) (h : StreamingGgufParser.new data = .ok p) :
    tryParseHeader (awaiting cap data index) =
      ((p.tensorInfos.collect p.tensorInfos.remaining).1.mapM (entryOf p.dataSectionOffset)).map
        fun pairs => (p.tensorInfos.collect p.tensorInfos.remaining).2.elim
          ({ awaiting cap data (insertPairs index pairs) with phase := .headerParsed }, .ok true)
          fun e => (awaiting cap data (insertPairs index pairs), .error (.tensorInfo e)) := by
  have hphase : ¬ (awaiting cap data index).phase = .headerParsed := by rintro ⟨⟩
  have hbuffer : (awaiting cap data index).bytesBuffer = data := rfl
  have hindex : (awaiting cap data index).tensorIndex = index := rfl
  rw [tryParseHeader, if_neg hphase, hbuffer, if_neg hlen, h]
  dsimp only
  rw [hindex, indexTensors_eq, Option.map_map]
  refine congrFun (congrArg _ (funext fun pairs => ?_)) _
  cases (p.tensorInfos.collect p.tensorInfos.remaining).2 <;> rfl

theorem pushed_iff : pushChunk (new cap) data = some (inner, out) ↔ Pushed cap data inner out := by
  have hphase : ¬ (buffered cap data).phase = .headerParsed := by rintro ⟨⟩
  have hbuffer : (buffered cap data).bytesBuffer = data := rfl
  rw [pushChunk_new]
  by_cases hlen : data.length < 24
  · rw [tryParseHeader, if_neg hphase, hbuffer, if_pos hlen]
    constructor
    · intro h
      obtain ⟨rfl, rfl⟩ := Prod.mk.inj (Option.some.inj h)
      exact .short hlen
    · rintro (_ | ⟨hlong, -⟩ | ⟨hlong, -, -, -⟩ | ⟨hlong, -, -, -⟩)
      · rfl
      all_goals exact absurd hlen hlong
  · cases hnew : StreamingGgufParser.new data with
    | error e =>
      rw [tryParseHeader, if_neg hphase, hbuffer, if_neg hlen, hnew]
      constructor
      · intro h
        obtain ⟨rfl, rfl⟩ := Prod.mk.inj (Option.some.inj h)
        exact .failed hlen hnew
      · rintro (hshort | ⟨-, h⟩ | ⟨-, h, -, -⟩ | ⟨-, h, -, -⟩)
        · exact absurd hshort hlen
        · rw [hnew] at h
          obtain rfl := Except.error.inj h
          rfl
        all_goals
          rw [hnew] at h
          cases h
    | ok p =>
      have heq : tryParseHeader (buffered cap data) = _ := tryParseHeader_of_ok cap ∅ hlen hnew
      rw [heq, Option.map_eq_some_iff]
      constructor
      · rintro ⟨pairs, hpairs, h⟩
        cases he : (p.tensorInfos.collect p.tensorInfos.remaining).2 with
        | none =>
          rw [he] at h
          obtain ⟨rfl, rfl⟩ := Prod.mk.inj h
          exact .parsed hlen hnew hpairs he
        | some e =>
          rw [he] at h
          obtain ⟨rfl, rfl⟩ := Prod.mk.inj h
          exact .broken hlen hnew hpairs he
      · rintro (hshort | ⟨-, h⟩ | ⟨-, h, hpairs, he⟩ | ⟨-, h, hpairs, he⟩)
        · exact absurd hshort hlen
        · rw [hnew] at h
          cases h
        all_goals
          rw [hnew] at h
          obtain rfl := Except.ok.inj h
          exact ⟨_, hpairs, by rw [he]; rfl⟩

/-! ### One push after another -/

/-- More entries of the index: those that were there stay in front. -/
theorem mapM_prefix {α β : Type} {f : α → Option β} {xs ys : List α} {zs : List β}
    (hstart : xs <+: ys) (h : ys.mapM f = some zs) :
    ∃ us, xs.mapM f = some us ∧ us <+: zs := by
  obtain ⟨rest, rfl⟩ := hstart
  rw [List.mapM_append] at h
  obtain ⟨us, hus, h⟩ := Option.bind_eq_some_iff.mp h
  obtain ⟨vs, -, h⟩ := Option.bind_eq_some_iff.mp h
  obtain rfl := Option.some.inj h
  exact ⟨us, hus, us.prefix_append vs⟩

theorem mem_fst_of_start {us zs : List (String × TensorMeta)} (h : us <+: zs) :
    ∀ k ∈ insertPairs ∅ us, k ∈ zs.map Prod.fst := by
  intro k hk
  rcases mem_insertPairs.mp hk with hmem | hmem
  · exact (h.map Prod.fst).subset hmem
  · cases hmem

theorem length_append_not_lt (hlen : ¬ data.length < 24) (more : List UInt8) :
    ¬ (data ++ more).length < 24 := by
  rw [List.length_append]
  omega

/-- What a later attempt makes of the buffer, whatever an earlier one left in the index. -/
theorem tryParseHeader_awaiting {p : StreamingGgufParser} {pairs : List (String × TensorMeta)}
    (hlen : ¬ data.length < 24) (h : StreamingGgufParser.new data = .ok p)
    (hpairs : (p.tensorInfos.collect p.tensorInfos.remaining).1.mapM
      (entryOf p.dataSectionOffset) = some pairs) (more : List UInt8) :
    tryParseHeader (awaiting cap (data ++ more) (insertPairs ∅ pairs)) =
      tryParseHeader (buffered cap (data ++ more)) := by
  have hnew := StreamingGgufParser.new_append h more
  have hlong := length_append_not_lt hlen more
  have hstart := p.tensorInfos.collect_grow_prefix p.tensorInfos.remaining more
  have hleft := tryParseHeader_of_ok cap (insertPairs ∅ pairs) hlong hnew
  have hright : tryParseHeader (buffered cap (data ++ more)) = _ :=
    tryParseHeader_of_ok cap ∅ hlong hnew
  rw [hleft, hright]
  cases hzs : ((p.grow more).tensorInfos.collect (p.grow more).tensorInfos.remaining).1.mapM
    (entryOf (p.grow more).dataSectionOffset) with
  | none => rfl
  | some zs =>
    obtain ⟨us, hus, hpre⟩ := mapM_prefix hstart hzs
    obtain rfl := Option.some.inj (hpairs.symm.trans hus)
    rw [Option.map_some, Option.map_some, insertPairs_eq_of_keys (mem_fst_of_start hpre)]

/-- **Two pushes are one push** of both chunks. -/
theorem push_append (h : pushChunk (new cap) data = some (inner, out)) (more : List UInt8) :
    pushChunk inner more = pushChunk (new cap) (data ++ more) := by
  cases pushed_iff.mp h with
  | short hlen => rfl
  | failed hlen he => rfl
  | broken hlen hnew hpairs he => exact tryParseHeader_awaiting hlen hnew hpairs more
  | @parsed p pairs hlen hnew hpairs he =>
    have hcollect := p.tensorInfos.collect_grow p.tensorInfos.remaining more fun e hsome => by
      rw [he] at hsome
      cases hsome
    have hall : Pushed cap (data ++ more)
        { awaiting cap (data ++ more) (insertPairs ∅ pairs) with phase := .headerParsed }
        (.ok true) := by
      refine .parsed (length_append_not_lt hlen more) (StreamingGgufParser.new_append hnew more) ?_ ?_
      · rw [← hpairs]
        exact congrArg (fun c : List TensorInfo × Option GgufError =>
          c.1.mapM (entryOf p.dataSectionOffset)) hcollect
      · exact (congrArg Prod.snd hcollect).trans he
    rw [pushed_iff.mpr hall]
    rfl

/-- An overflow does not go away either. -/
theorem push_none_append (h : pushChunk (new cap) data = none) (more : List UInt8) :
    pushChunk (new cap) (data ++ more) = none := by
  have hphase : ¬ (buffered cap data).phase = .headerParsed := by rintro ⟨⟩
  have hbuffer : (buffered cap data).bytesBuffer = data := rfl
  rw [pushChunk_new] at h ⊢
  by_cases hlen : data.length < 24
  · rw [tryParseHeader, if_neg hphase, hbuffer, if_pos hlen] at h
    cases h
  · cases hnew : StreamingGgufParser.new data with
    | error e =>
      rw [tryParseHeader, if_neg hphase, hbuffer, if_neg hlen, hnew] at h
      cases h
    | ok p =>
      have hleft : tryParseHeader (buffered cap data) = _ := tryParseHeader_of_ok cap ∅ hlen hnew
      have hright : tryParseHeader (buffered cap (data ++ more)) = _ :=
        tryParseHeader_of_ok cap ∅ (length_append_not_lt hlen more)
          (StreamingGgufParser.new_append hnew more)
      rw [hleft, Option.map_eq_none_iff] at h
      rw [hright, Option.map_eq_none_iff]
      cases hzs : ((p.grow more).tensorInfos.collect (p.grow more).tensorInfos.remaining).1.mapM
        (entryOf (p.grow more).dataSectionOffset) with
      | none => rfl
      | some zs =>
        have hstart := p.tensorInfos.collect_grow_prefix p.tensorInfos.remaining more
        obtain ⟨us, hus, -⟩ := mapM_prefix hstart hzs
        have hnone : (none : Option (List (String × TensorMeta))) = some us := h.symm.trans hus
        cases hnone

/-! ### All pushes -/

variable {tr : List (List UInt8 × Except LoadError Bool)}

/-- The state after a run is that after a push of everything. -/
theorem push_of_run (hrun : Run pushChunk (new cap) tr inner) :
    ∃ out, pushChunk (new cap) (tr.map Prod.fst).flatten = some (inner, out) := by
  have hstart : ∃ out, pushChunk (new cap)
      (([] : List (List UInt8 × Except LoadError Bool)).map Prod.fst).flatten =
        some (new cap, out) := ⟨.ok false, rfl⟩
  refine hrun.traceInvariant
    (P := fun tr inner => ∃ out, pushChunk (new cap) (tr.map Prod.fst).flatten = some (inner, out))
    ?_ hstart
  rintro tr inner chunk inner' out ⟨out', h⟩ hstep
  refine ⟨out, ?_⟩
  rw [List.map_append, List.flatten_append, List.map_singleton, List.flatten_singleton,
    ← push_append h, hstep]

/-- Any chunks of what can be pushed at once can be pushed one after the other. -/
theorem run_of_push {chunks : List (List UInt8)}
    (h : pushChunk (new cap) chunks.flatten = some (inner, out)) :
    ∃ tr, Run pushChunk (new cap) tr inner ∧ tr.map Prod.fst = chunks := by
  induction chunks using List.reverseRecOn generalizing inner out with
  | nil =>
    obtain ⟨rfl, -⟩ := Prod.mk.inj (Option.some.inj h)
    exact ⟨[], .nil _, rfl⟩
  | append_singleton chunks chunk ih =>
    rw [List.flatten_append, List.flatten_singleton] at h
    cases hbefore : pushChunk (new cap) chunks.flatten with
    | none =>
      rw [push_none_append hbefore] at h
      cases h
    | some r =>
      obtain ⟨tr, hrun, hchunks⟩ := ih hbefore
      rw [← push_append hbefore] at h
      exact ⟨tr ++ [(chunk, out)], hrun.append (.single h), by
        rw [List.map_append, hchunks, List.map_singleton]⟩

/-- **It does not matter how the bytes are cut into chunks.** -/
theorem run_iff_push (cap : ℕ) (chunks : List (List UInt8)) (last : List UInt8)
    (inner : LoaderInner) (out : Except LoadError Bool) :
    (∃ tr, Run pushChunk (new cap) (tr ++ [(last, out)]) inner ∧ tr.map Prod.fst = chunks) ↔
      pushChunk (new cap) (chunks.flatten ++ last) = some (inner, out) := by
  constructor
  · rintro ⟨tr, hrun, rfl⟩
    obtain ⟨before, hbefore, hlast⟩ := hrun.last
    obtain ⟨out', hpush⟩ := push_of_run hbefore
    rw [← push_append hpush, hlast]
  · intro h
    cases hbefore : pushChunk (new cap) chunks.flatten with
    | none =>
      rw [push_none_append hbefore] at h
      cases h
    | some r =>
      obtain ⟨tr, hrun, hchunks⟩ := run_of_push hbefore
      rw [← push_append hbefore] at h
      exact ⟨tr, hrun.append (.single h), hchunks⟩

/-! ### Errors -/

/-- **An error is final**, unless it is the check of an array's count. -/
theorem push_error_append {e : LoadError} (h : pushChunk (new cap) data = some (inner, .error e))
    (he : ∀ count rem size, e ≠ .gguf (Gguf.countExceeded count rem size)) (more : List UInt8) :
    ∃ inner', pushChunk (new cap) (data ++ more) = some (inner', .error e) := by
  generalize hout : Except.error e = out at h
  cases pushed_iff.mp h with
  | short hlen => cases hout
  | @failed e' hlen hnew =>
    have hfinal : ¬ Gguf.Awaits e' := by
      rintro (offset | ⟨count, rem, size⟩)
      · cases hout
      · exact he count rem size (Except.error.inj hout)
    have hall := StreamingGgufParser.new_error_append hnew hfinal more
    exact ⟨_, pushed_iff.mpr (.failed (length_append_not_lt hlen more) hall)⟩
  | @broken p pairs e' hlen hnew hpairs he' =>
    have hfinal := StreamingGgufParser.final_of_new hnew he'
    have hcollect := p.tensorInfos.collect_grow p.tensorInfos.remaining more fun e'' hsome => by
      obtain rfl := Option.some.inj (he'.symm.trans hsome)
      exact hfinal
    have hall : Pushed cap (data ++ more) (awaiting cap (data ++ more) (insertPairs ∅ pairs))
        (.error (.tensorInfo e')) := by
      refine .broken (length_append_not_lt hlen more) (StreamingGgufParser.new_append hnew more) ?_ ?_
      · rw [← hpairs]
        exact congrArg (fun c : List TensorInfo × Option GgufError =>
          c.1.mapM (entryOf p.dataSectionOffset)) hcollect
      · exact (congrArg Prod.snd hcollect).trans he'
    exact ⟨_, pushed_iff.mpr hall⟩
  | parsed hlen hnew hpairs he' => cases hout

/-- **After a final error every push reports it again.** -/
theorem error_stays {before after : List (List UInt8 × Except LoadError Bool)}
    {chunk : List UInt8} {e : LoadError}
    (hrun : Run pushChunk (new cap) (before ++ (chunk, .error e) :: after) inner)
    (he : ∀ count rem size, e ≠ .gguf (Gguf.countExceeded count rem size)) :
    ∀ push ∈ after, push.2 = .error e := by
  rw [List.append_cons] at hrun
  obtain ⟨failed, hfirst, hafter⟩ := hrun.of_append
  obtain ⟨start, hstart, hpush⟩ := hfirst.last
  obtain ⟨out, hall⟩ := push_of_run hstart
  rw [push_append hall] at hpush
  -- what everything so far answers is the error, and stays it
  clear hrun hfirst
  generalize ((before.map Prod.fst).flatten ++ chunk) = data at hpush
  induction hafter generalizing data with
  | nil => simp
  | @cons s s' s'' c o tr hstep _ ih =>
    obtain ⟨inner', hnext⟩ := push_error_append hpush he c
    rw [push_append hpush, hnext] at hstep
    obtain ⟨rfl, rfl⟩ := Prod.mk.inj (Option.some.inj hstep)
    exact List.forall_mem_cons.mpr ⟨rfl, ih _ hnext⟩

/-- Bytes that do not start with the magic number. -/
theorem error_stays_zeros : ∃ tr inner,
    Run pushChunk (new 8) ([] ++ (List.replicate 24 0, .error (.gguf (.invalidMagic 0))) :: tr)
      inner ∧ (∀ push ∈ tr, push.2 = .error (.gguf (.invalidMagic 0))) ∧ tr.length = 1 := by
  have hrun : Run pushChunk (new 8)
      ([] ++ (List.replicate 24 0, .error (.gguf (.invalidMagic 0))) ::
        [([1], .error (.gguf (.invalidMagic 0)))]) _ :=
    .cons rfl (.single rfl)
  exact ⟨_, _, hrun, error_stays hrun (by rintro _ _ _ ⟨⟩), rfl⟩

end LoaderInner

end Wasm

end Oxillama
