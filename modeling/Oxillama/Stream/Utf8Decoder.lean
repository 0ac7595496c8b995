/-
Streaming UTF-8 decoding
(`oxillama-runtime/src/stream_decode.rs`, `Utf8StreamDecoder`).

`pushLoop` is the loop of `push`, one iteration a `pushBody`; it is given as many
iterations as it may take and answers `none` when they run out.

* `push_spec` — a push ends, emits what the scanner reads off the pending bytes
  and the new ones, and keeps the rest, at most three bytes;
* `stream_eq_lossy` — however the bytes are cut into chunks, all pushes and
  `finish` together give the lossy decoding of the whole.
-/
import Oxillama.Lib.Run
import Oxillama.Lib.Utf8

namespace Oxillama

namespace Stream

/-- `Utf8StreamDecoder`. -/
structure Utf8StreamDecoder where
  pending : List UInt8
  deriving DecidableEq

namespace Utf8StreamDecoder

/-- `Utf8StreamDecoder::new`. -/
def new : Utf8StreamDecoder := ⟨[]⟩

/-- How an iteration of the loop of `push` ends, with the text emitted and the
bytes consumed so far. -/
inductive Iteration
  | next (out : Text) (consumed : ℕ)
  | done (out : Text) (consumed : ℕ)

/-- One iteration of the loop of `push`. -/
def pushBody (pending : List UInt8) (out : Text) (consumed : ℕ) : Iteration :=
  let rest := pending.drop consumed
  if rest = [] then .done out consumed
  else
    match fromUtf8 rest with
    | .ok text => .done (out ++ text) pending.length
    | .error err =>
      let valid := if 0 < err.validUpTo then fromUtf8 (rest.take err.validUpTo) else .ok []
      match valid with
      | .error _ => .done out consumed
      | .ok text =>
        match err.errorLen with
        | some bad => .next (out ++ text ++ [replacement]) (consumed + (err.validUpTo + bad))
        | none => .done (out ++ text) (consumed + err.validUpTo)

/-- At most `fuel` iterations of the loop of `push`. -/
def pushLoop : ℕ → List UInt8 → Text → ℕ → Option (Text × ℕ)
  | 0, _, _, _ => none
  | fuel + 1, pending, out, consumed =>
    match pushBody pending out consumed with
    | .done out consumed => some (out, consumed)
    | .next out consumed => pushLoop fuel pending out consumed

/-- `Utf8StreamDecoder::push`, with an iteration for every byte and one more. -/
def push (d : Utf8StreamDecoder) (bytes : List UInt8) : Option (Utf8StreamDecoder × Text) :=
  if bytes = [] ∧ d.pending = [] then some (d, [])
  else do
    let pending := d.pending ++ bytes
    let (out, consumed) ← pushLoop (pending.length + 1) pending [] 0
    some (⟨pending.drop consumed⟩, out)

/-- `Utf8StreamDecoder::finish`. -/
def finish (d : Utf8StreamDecoder) : Utf8StreamDecoder × Text :=
  if d.pending = [] then (d, []) else (⟨[]⟩, fromUtf8Lossy d.pending)

/-! ### One push -/

/-- **The loop ends** after at most one iteration for every byte that is left and
one more, with what the scanner reads off these bytes. -/
theorem pushLoop_spec (pending : List UInt8) (out : Text) {consumed fuel : ℕ}
    (hle : consumed ≤ pending.length) (hfuel : pending.length - consumed < fuel) :
    ∃ consumed', pushLoop fuel pending out consumed =
        some (out ++ (utf8Scanner.scan (pending.drop consumed)).1, consumed') ∧
      pending.drop consumed' = (utf8Scanner.scan (pending.drop consumed)).2 := by
  induction fuel generalizing out consumed with
  | zero => exact absurd hfuel (Nat.not_lt_zero _)
  | succ fuel ih =>
    rw [pushLoop, pushBody]
    dsimp only
    by_cases hrest : pending.drop consumed = []
    · have hscan : utf8Scanner.scan (pending.drop consumed) = ([], []) := by
        rw [hrest]
        exact scan_of_incomplete rfl
      rw [if_pos hrest, hscan, List.append_nil]
      exact ⟨consumed, rfl, hrest⟩
    rw [if_neg hrest]
    cases hdecode : fromUtf8 (pending.drop consumed) with
    | ok text =>
      rw [scan_of_fromUtf8_ok hdecode]
      exact ⟨pending.length, rfl, List.drop_length⟩
    | error err =>
      obtain ⟨text, hlen, hvalid, hscan, hhead⟩ := describes_of_fromUtf8_error hdecode
      -- the text before the error is decoded, also where it is empty
      have hvalid : (if 0 < err.validUpTo then fromUtf8 ((pending.drop consumed).take err.validUpTo)
          else .ok []) = .ok text := by
        split
        · exact hvalid
        · rename_i hzero
          rw [Nat.eq_zero_of_not_pos hzero] at hvalid
          exact fromUtf8_nil.symm.trans hvalid
      dsimp only
      rw [hvalid, hscan]
      rw [List.drop_drop] at hhead
      rw [List.length_drop] at hlen
      cases hbad : err.errorLen with
      | none =>
        rw [hbad] at hhead
        refine ⟨consumed + err.validUpTo, ?_, ?_⟩
        · rw [List.drop_drop, scan_of_incomplete hhead, List.append_nil]
        · rw [List.drop_drop, scan_of_incomplete hhead]
      | some bad =>
        rw [hbad] at hhead
        have hfits := utf8Head_fits (pending.drop (consumed + err.validUpTo))
        rw [hhead] at hfits
        obtain ⟨hpos, hbadlen⟩ := hfits
        rw [List.length_drop] at hbadlen
        have hnext : consumed + (err.validUpTo + bad) ≤ pending.length := by omega
        obtain ⟨consumed', hloop, hdrop⟩ := ih (out ++ text ++ [replacement]) hnext (by omega)
        rw [← Nat.add_assoc] at hloop hdrop
        refine ⟨consumed', ?_, ?_⟩
        · dsimp only
          rw [← Nat.add_assoc, hloop, List.drop_drop, scan_of_invalid hhead, List.drop_drop,
            List.append_assoc, List.append_assoc]
          simp
        · rw [hdrop, List.drop_drop, scan_of_invalid hhead, List.drop_drop]

/-- **What a push does**: it emits what the scanner reads and keeps the rest. -/
theorem push_spec (d : Utf8StreamDecoder) (bytes : List UInt8) :
    d.push bytes = some (⟨(utf8Scanner.scan (d.pending ++ bytes)).2⟩,
      (utf8Scanner.scan (d.pending ++ bytes)).1) := by
  rw [push]
  split
  · rename_i hempty
    obtain ⟨rfl, hpending⟩ := hempty
    rw [hpending, List.append_nil, scan_of_incomplete rfl, ← hpending]
  · obtain ⟨consumed, hloop, hdrop⟩ := pushLoop_spec (d.pending ++ bytes) []
      (Nat.zero_le _)
      (show (d.pending ++ bytes).length - 0 < (d.pending ++ bytes).length + 1 by omega)
    rw [List.drop_zero, List.nil_append] at hloop
    rw [List.drop_zero] at hdrop
    dsimp only
    rw [hloop, ← hdrop]
    rfl

/-- What the scanner leaves is an incomplete sequence. -/
theorem utf8Head_scan_rest (bytes : List UInt8) :
    utf8Head (utf8Scanner.scan bytes).2 = .incomplete := by
  have htoken : (utf8Head (utf8Scanner.scan bytes).2).token = none :=
    utf8Scanner.head_scan_rest bytes
  cases hhead : utf8Head (utf8Scanner.scan bytes).2 with
  | char c w => exact nomatch (congrArg Utf8Head.token hhead).symm.trans htoken
  | invalid len => exact nomatch (congrArg Utf8Head.token hhead).symm.trans htoken
  | incomplete => rfl

/-- Only an incomplete sequence is kept, of at most three bytes. -/
def Settled (d : Utf8StreamDecoder) : Prop :=
  utf8Head d.pending = .incomplete ∧ d.pending.length ≤ 3

theorem settled_of_incomplete {d : Utf8StreamDecoder} (h : utf8Head d.pending = .incomplete) :
    d.Settled := by
  have hfits := utf8Head_fits d.pending
  rw [h] at hfits
  exact ⟨h, hfits⟩

/-- `finish` replaces an incomplete sequence once. -/
theorem finish_spec {d : Utf8StreamDecoder} (h : d.Settled) :
    d.finish.2 = if d.pending = [] then [] else [replacement] := by
  rw [finish]
  split
  · rfl
  · rename_i hne
    show fromUtf8Lossy d.pending = [replacement]
    rw [fromUtf8Lossy_eq, scan_of_incomplete h.1, if_neg hne, List.nil_append]

/-! ### A whole stream -/

/-- After any pushes, what was emitted and what is pending are the scan of all bytes. -/
theorem scan_run {d d' : Utf8StreamDecoder} {tr : List (List UInt8 × Text)}
    (hr : Run push d tr d') {sent : List UInt8} {out : Text}
    (h : utf8Scanner.scan sent = (out, d.pending)) :
    utf8Scanner.scan (sent ++ (tr.map Prod.fst).flatten) =
      (out ++ (tr.map Prod.snd).flatten, d'.pending) := by
  induction hr generalizing sent out with
  | nil d => simpa using h
  | cons hpush hr ih =>
    rename_i d d₁ d' bytes text tr
    obtain ⟨rfl, rfl⟩ := Prod.mk.inj (Option.some.inj ((push_spec d bytes).symm.trans hpush))
    have hnext : utf8Scanner.scan (sent ++ bytes) =
        (out ++ (utf8Scanner.scan (d.pending ++ bytes)).1,
          (utf8Scanner.scan (d.pending ++ bytes)).2) := by
      rw [utf8Scanner.scan_append, h]
    simpa using ih hnext

section Stream

variable {d d' : Utf8StreamDecoder} {bytes : List UInt8} {text : Text}

theorem settled_new : new.Settled := ⟨rfl, Nat.zero_le 3⟩

theorem settled_push (h : push d bytes = some (d', text)) : d'.Settled := by
  obtain ⟨rfl, -⟩ := Prod.mk.inj (Option.some.inj ((push_spec d bytes).symm.trans h))
  exact settled_of_incomplete (utf8Head_scan_rest _)

/-- All pushes and `finish`. -/
theorem stream_run (chunks : List (List UInt8)) :
    ∃ tr d, Run push new tr d ∧ tr.map Prod.fst = chunks ∧
      (tr.map Prod.snd).flatten ++ d.finish.2 = fromUtf8Lossy chunks.flatten := by
  obtain ⟨tr, d, hr, hchunks⟩ := Run.total (P := Settled)
    (fun _ hpush => settled_push hpush) (fun {d} bytes _ => ⟨_, _, push_spec d bytes⟩) chunks
    settled_new
  have hscan : utf8Scanner.scan ([] ++ (tr.map Prod.fst).flatten) =
      ([] ++ (tr.map Prod.snd).flatten, d.pending) := scan_run hr (scan_of_incomplete rfl)
  rw [List.nil_append, List.nil_append, hchunks] at hscan
  refine ⟨tr, d, hr, hchunks, ?_⟩
  rw [fromUtf8Lossy_eq, hscan,
    finish_spec (hr.invariant (fun _ hpush => settled_push hpush) settled_new)]

/-- **Streaming is batch decoding.**  However a byte string is cut into chunks, every
push ends and leaves at most three bytes pending, and the emitted texts followed by
`finish` are the lossy decoding of the string. -/
theorem stream_eq_lossy (chunks : List (List UInt8)) :
    Along push (fun d => d.pending.length ≤ 3) new chunks ∧
    ∃ tr d, Run push new tr d ∧ tr.map Prod.fst = chunks ∧
      (tr.map Prod.snd).flatten ++ d.finish.2 = fromUtf8Lossy chunks.flatten :=
  ⟨along_of_invariant (J := Settled) (fun _ hpush => settled_push hpush)
    (fun {d} bytes _ => ⟨_, _, push_spec d bytes⟩) (fun h => h.2) settled_new chunks,
    stream_run chunks⟩

/-- A text whose encoding arrives in pieces is delivered whole: nothing of it is
replaced because it is still arriving. -/
theorem stream_encoded (text : Text) (chunks : List (List UInt8))
    (h : chunks.flatten = text.flatMap String.utf8EncodeChar) :
    ∃ tr d, Run push new tr d ∧ tr.map Prod.fst = chunks ∧
      (tr.map Prod.snd).flatten ++ d.finish.2 = text := by
  obtain ⟨tr, d, hr, hchunks, hout⟩ := stream_run chunks
  exact ⟨tr, d, hr, hchunks, by rw [hout, h, fromUtf8Lossy_encode]⟩

end Stream

end Utf8StreamDecoder

end Stream

end Oxillama
