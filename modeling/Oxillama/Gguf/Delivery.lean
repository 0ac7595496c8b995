/-
Runs of the data writer.

Calls may fail and be repeated.  A call that fails after some of its chunks are
written leaves them in the sink, in front of whatever the next call writes.

* `Delivering.run` — in a run of calls none of which does that, the tensors
  delivered are those of the calls that succeed;
* `finish_of_clean` — then a writer that finishes has written a file that holds
  exactly them;
* `not_finish_undershoot` — a call that is repeated after too few chunks.
-/
import Oxillama.Lib.Run
import Oxillama.Gguf.WrittenFile

namespace Oxillama

namespace Gguf

open GgufTensorDataWriter

/-- One call on the data writer, and its answer. -/
def dataStep (s : GgufTensorDataWriter (List UInt8)) (call : Call) :
    Option (GgufTensorDataWriter (List UInt8) × GgufResult Unit) :=
  some ((call.run s).2, (call.run s).1)

/-- The tensors of the calls that succeeded. -/
def accepted (tr : List (Call × GgufResult Unit)) : List (String × List UInt8) :=
  tr.filterMap fun entry =>
    match entry.2 with
    | .ok () => some (entry.1.name, entry.1.bytes)
    | .error _ => none

theorem accepted_cons (entry : Call × GgufResult Unit) (tr : List (Call × GgufResult Unit)) :
    accepted (entry :: tr) = accepted [entry] ++ accepted tr := by
  show accepted ([entry] ++ tr) = _
  exact List.filterMap_append

/-- One clean call: it succeeds and its tensor is delivered, or nothing changes. -/
theorem Delivering.step {start : List UInt8} {metas : List TensorMeta}
    {done : List (String × List UInt8)} {s s' : GgufTensorDataWriter (List UInt8)} {call : Call}
    {answer : GgufResult Unit} (h : Delivering start metas done s) (hclean : call.Clean s)
    (hstep : dataStep s call = some (s', answer)) :
    Delivering start metas (done ++ accepted [(call, answer)]) s' := by
  obtain ⟨rfl, rfl⟩ := Prod.mk.inj (Option.some.inj hstep)
  -- a call that fails leaves no bytes behind, so nothing is delivered
  rcases Call.run_of_clean hclean fun size hnext => h.offset_fits hnext with
    ⟨e, hrun⟩ | ⟨hnext, hrun⟩
  · rw [hrun]
    show Delivering start metas (done ++ []) s
    rwa [List.append_nil]
  · rw [hrun]
    exact h.deliver hnext

/-- **A run of clean calls** delivers the tensors of those that succeed. -/
theorem Delivering.run {start : List UInt8} {metas : List TensorMeta}
    {done : List (String × List UInt8)} {s s' : GgufTensorDataWriter (List UInt8)}
    {tr : List (Call × GgufResult Unit)} (h : Delivering start metas done s)
    (hrun : Run dataStep s tr s')
    (hclean : ∀ tr₁ call answer tr₂ s₁, tr = tr₁ ++ (call, answer) :: tr₂ →
      Run dataStep s tr₁ s₁ → call.Clean s₁) :
    Delivering start metas (done ++ accepted tr) s' := by
  induction hrun generalizing done with
  | nil =>
    show Delivering start metas (done ++ []) _
    rwa [List.append_nil]
  | cons hstep hrest ih =>
    have hhead := h.step (hclean [] _ _ _ _ rfl (.nil _)) hstep
    have htail := ih hhead fun tr₁ call answer tr₂ s₁ htr hrun₁ =>
      hclean (_ :: tr₁) call answer tr₂ s₁ (by rw [htr]; rfl) (.cons hstep hrun₁)
    rwa [accepted_cons, ← List.append_assoc]

theorem alignmentOf_of_notMem {metadata : List (String × MetadataValue)}
    (h : "general.alignment" ∉ metadata.map Prod.fst) :
    alignmentOf (.ofList metadata) = ggufDefaultAlignment := by
  have hnone : (MetadataStore.ofList metadata).get "general.alignment" = none := by
    refine AList.lookup_eq_none.mpr fun hmem => ?_
    rcases mem_insertPairs.mp hmem with hkey | hempty
    · exact h hkey
    · exact AList.notMem_empty _ hempty
  rw [alignmentOf, hnone]
  rfl

/-- What is delivered under a name belongs to the tensor of that name. -/
theorem exists_tensor_of_mem {done : List (String × List UInt8)} {metas : List TensorMeta}
    (h : done.map Prod.fst = metas.map TensorMeta.name) {name : String} {data : List UInt8}
    (hmem : (name, data) ∈ done) :
    ∃ tensor, (tensor, data) ∈ metas.zip (done.map Prod.snd) ∧ tensor.name = name := by
  induction done generalizing metas with
  | nil => cases hmem
  | cons first done ih =>
    cases metas with
    | nil => cases h
    | cons tensor metas =>
      obtain ⟨hname, hrest⟩ := List.cons.inj h
      rcases List.mem_cons.mp hmem with rfl | hmem
      · exact ⟨tensor, List.mem_cons_self, hname.symm⟩
      · obtain ⟨found, hfound, hfoundName⟩ := ih hrest hmem
        exact ⟨found, List.mem_cons_of_mem _ hfound, hfoundName⟩

/-- **A data writer that finishes is not corrupt**, when each of its calls either
succeeds or fails before it has written anything. -/
theorem finish_of_clean {metadata : List (String × MetadataValue)} {shapes : List TensorShape}
    {w : GgufWriter} {dataWriter s s' : GgufTensorDataWriter (List UInt8)}
    {tr : List (Call × GgufResult Unit)} {out : List UInt8}
    (hfits : ∀ entry ∈ metadata, Fits 9 entry.2)
    (halignment : "general.alignment" ∉ metadata.map Prod.fst)
    (hnames : (shapes.map TensorShape.name).Nodup)
    (hdims : ∀ shape ∈ shapes, 1 ≤ shape.dimensions.length ∧ shape.dimensions.length ≤ 4)
    (hdeclared : GgufWriter.declared metadata shapes = .ok w)
    (hwriter : w.intoDataWriter [] = .ok dataWriter)
    (hrun : Run dataStep dataWriter tr s)
    (hclean : ∀ tr₁ call answer tr₂ s₁, tr = tr₁ ++ (call, answer) :: tr₂ →
      Run dataStep dataWriter tr₁ s₁ → call.Clean s₁)
    (hfinish : finish s = (.ok out, s')) (hlen : out.length < 2 ^ 63) :
    ∃ file, GgufFile.parse out = .ok file ∧
      (accepted tr).map Prod.fst = shapes.map TensorShape.name ∧
      ∀ delivery ∈ accepted tr, file.tensorData out delivery.1 = .ok delivery.2 := by
  obtain ⟨metas, rfl, rfl, hsizes⟩ := GgufWriter.declared_eq_ok hdeclared
  obtain ⟨hfit, rfl⟩ := GgufWriter.intoDataWriter_eq_ok hwriter
  -- all tensors are delivered, as `finish` asks for it
  have hdone := (Delivering.init (encodePrelude metadata metas) hfit).run hrun hclean
  rw [List.nil_append] at hdone
  obtain ⟨hend, rfl⟩ := finish_eq_ok hfinish
  obtain ⟨hdoneNames, hdoneSizes⟩ := hdone.delivered_eq hend
  have hout := hdone.writer_eq hend
  have halign := alignmentOf_of_notMem halignment
  have hreadable : Readable metadata metas := by
    refine ⟨hfits, by rw [halign]; rfl, by rwa [List.map_map] at hnames, ?_⟩
    exact fun tensor hmem => hdims tensor.shape (List.mem_map_of_mem hmem)
  rw [hout] at hlen ⊢
  have hsections : (encodeSections metadata metas).length < 2 ^ 64 := by
    rw [List.length_append, length_encodePrelude] at hlen
    omega
  refine ⟨_, parse_encodePrelude hreadable hsections _, ?_, ?_⟩
  · rw [hdoneNames, List.map_map]
    rfl
  · rintro ⟨name, data⟩ hmem
    obtain ⟨tensor, hzip, rfl⟩ := exists_tensor_of_mem hdoneNames hmem
    refine tensorData_eq hreadable hsizes ?_ hlen (by rw [halign]) hzip
    rw [List.map_map]
    exact hdoneSizes

/-! ### Two runs -/

/-- The data writer for one tensor of 16 bytes. -/
def sampleWriter : GgufTensorDataWriter (List UInt8) :=
  ⟨encodePrelude [] [⟨"a", [4], .f32, 16⟩], [⟨"a", [4], .f32, 16⟩], 0, 0⟩

theorem intoDataWriter_sample :
    GgufWriter.intoDataWriter ⟨[], [], [⟨"a", [4], .f32, 16⟩]⟩ [] = .ok sampleWriter :=
  GgufWriter.intoDataWriter_eq ⟨by decide, trivial⟩

/-- A chunk that is too long fails at once, and the tensor is written then. -/
theorem finish_of_clean_sample : ∃ tr s out file,
    Run dataStep sampleWriter tr s ∧
    tr.map Prod.fst = [.fromChunks "a" [[], List.replicate 17 7],
      .tensor "a" (List.replicate 16 1)] ∧
    finish s = (.ok out, s) ∧ GgufFile.parse out = .ok file ∧
    (accepted tr).map Prod.fst = ["a"] ∧
    ∀ delivery ∈ accepted tr, file.tensorData out delivery.1 = .ok delivery.2 := by
  let first : Call := .fromChunks "a" [[], List.replicate 17 7]
  let second : Call := .tensor "a" (List.replicate 16 1)
  let s₁ := (first.run sampleWriter).2
  let s₂ := (second.run s₁).2
  have hrun : Run dataStep sampleWriter
      [(first, (first.run sampleWriter).1), (second, (second.run s₁).1)] s₂ :=
    .cons rfl (.cons rfl (.nil _))
  have hfinish : finish s₂ = (.ok s₂.writer, s₂) := finish_of_eq (by decide)
  have hfirst : first.Clean sampleWriter := by
    intro size hsize
    obtain rfl : 16 = size := Except.ok.inj hsize
    refine .inr fun bytes hfind => ?_
    obtain rfl : List.replicate 17 7 = bytes := Option.some.inj hfind
    decide
  have hclean : ∀ tr₁ call answer tr₂ s,
      [(first, (first.run sampleWriter).1), (second, (second.run s₁).1)] =
        tr₁ ++ (call, answer) :: tr₂ → Run dataStep sampleWriter tr₁ s → call.Clean s := by
    intro tr₁ call answer tr₂ s htr hrun₁
    rcases tr₁ with _ | ⟨e, _ | ⟨e', tr₁⟩⟩
    · obtain ⟨rfl, -⟩ := Prod.mk.inj (List.cons.inj htr).1
      cases hrun₁
      exact hfirst
    · obtain ⟨rfl, -⟩ := Prod.mk.inj (List.cons.inj (List.cons.inj htr).2).1
      trivial
    · have hlen := congrArg List.length htr
      simp at hlen
  have hshape : (([⟨"a", [4], .f32⟩] : List TensorShape).map TensorShape.name).Nodup := by decide
  have hfits : ∀ entry ∈ ([] : List (String × MetadataValue)), Fits 9 entry.2 := fun _ hmem =>
    absurd hmem List.not_mem_nil
  obtain ⟨file, hparse, hnames, hdata⟩ := finish_of_clean hfits List.not_mem_nil hshape (by decide)
    rfl intoDataWriter_sample hrun hclean hfinish (by decide)
  exact ⟨_, _, _, file, hrun, rfl, hfinish, hparse, hnames, hdata⟩

/-- **A retry after too few chunks.**  The first call fails and has written its 8
bytes, the second succeeds, and the parser finds those 8 bytes in front of the
data. -/
theorem not_finish_undershoot : ∃ tr s out,
    GgufWriter.declared [] [⟨"a", [4], .f32⟩] = .ok ⟨[], [], [⟨"a", [4], .f32, 16⟩]⟩ ∧
    GgufWriter.intoDataWriter ⟨[], [], [⟨"a", [4], .f32, 16⟩]⟩ [] = .ok sampleWriter ∧
    Run dataStep sampleWriter tr s ∧
    tr.map Prod.fst = [.fromChunks "a" [List.replicate 8 7], .tensor "a" (List.replicate 16 1)] ∧
    finish s = (.ok out, s) ∧ out.length < 2 ^ 63 ∧
    ("a", List.replicate 16 1) ∈ accepted tr ∧
    ¬ ∃ file, GgufFile.parse out = .ok file ∧
      file.tensorData out "a" = .ok (List.replicate 16 1) := by
  refine ⟨_, _, _, rfl, intoDataWriter_sample, .cons rfl (.cons rfl (.nil _)), rfl,
    finish_of_eq ?_, ?_, ?_, not_tensorData_of_ne ?_⟩
  · decide
  · decide
  · decide
  · decide

end Gguf

end Oxillama
