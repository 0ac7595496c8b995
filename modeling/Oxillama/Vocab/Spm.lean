/-
SentencePiece (`oxillama-runtime/src/gguf_vocab/spm.rs`).

* `tokenize_eq` — a text becomes the tokens of the pieces that greedy merging by score leaves
  of it.  A piece that is no token is one character, and is spelled byte by byte; no merge
  is ever undone.
-/
import Oxillama.Lib.Decoder
import Oxillama.Vocab.GgufVocab
import Oxillama.Vocab.Merge

namespace Oxillama

namespace Vocab

namespace Spm

/-- The integer that `f32::total_cmp` compares. -/
def totalKey (bits : UInt32) : ℤ :=
  if bits.toNat < 2 ^ 31 then bits.toNat else 2 ^ 31 - 1 - bits.toNat

/-- `Bigram`. -/
structure Bigram where
  left : ℕ
  right : ℕ
  score : UInt32
  size : ℕ
  deriving DecidableEq, Repr

/-- `Bigram::cmp` answers `Greater`: the highest score first, then the left-most position. -/
def better (bigram other : Bigram) : Bool :=
  totalKey other.score < totalKey bigram.score ||
    (totalKey bigram.score = totalKey other.score && bigram.left < other.left)

/-- The merge that produced a piece of text (`rev_merge`), the last one first. -/
abbrev RevMerge : Type := List (Text × ℕ × ℕ)

/-- `try_add_bigram`. -/
def tryAddBigram (vocab : GgufVocab) (text : Text) (symbols : List Symbol) (left right : ℕ)
    (state : List Bigram × RevMerge) : Option (List Bigram × RevMerge) := do
  let l ← symbols[left]?
  let r ← symbols[right]?
  let size := l.len + r.len
  match text.slice l.start (l.start + size) with
  | none => return state
  | some merged =>
    match vocab.tokenToId merged with
    | none => return state
    | some id => return (state.1 ++ [{ left, right, score := vocab.tokenScore id, size }],
        (merged, left, right) :: state.2)

/-- How SentencePiece queues candidates. -/
def merger (vocab : GgufVocab) (text : Text) : Merger Bigram RevMerge where
  left := Bigram.left
  right := Bigram.right
  stale l r bigram := l.len = 0 || r.len = 0 || l.len + r.len ≠ bigram.size
  better := better
  offer := tryAddBigram vocab text

/-- The tokens of the bytes of a piece. -/
def byteFallback (vocab : GgufVocab) (piece : Text) : List ℕ :=
  piece.bytes.flatMap fun b => ((vocab.byteToToken b).or vocab.unkId).toList

/-- The loop of `resegment`, for at most `fuel` symbols. -/
def resegmentLoop (vocab : GgufVocab) (text : Text) (symbols : List Symbol) (revMerge : RevMerge) :
    ℕ → List Symbol → Option (List ℕ)
  | _, [] => some []
  | 0, _ :: _ => none
  | fuel + 1, sym :: stack =>
    if sym.len = 0 then resegmentLoop vocab text symbols revMerge fuel stack
    else
      let piece := sym.text text
      match vocab.tokenToId piece with
      | some id => do
        let out ← resegmentLoop vocab text symbols revMerge fuel stack
        return id :: out
      | none =>
        match revMerge.lookup piece with
        | some (left, right) => do
          let left ← symbols[left]?
          let right ← symbols[right]?
          if left.len < sym.len && right.len < sym.len then
            resegmentLoop vocab text symbols revMerge fuel (left :: right :: stack)
          else
            let out ← resegmentLoop vocab text symbols revMerge fuel stack
            return byteFallback vocab piece ++ out
        | none => do
          let out ← resegmentLoop vocab text symbols revMerge fuel stack
          return byteFallback vocab piece ++ out

/-- `resegment`: both halves of a symbol are shorter, so that `2 ^ (len + 1)` symbols suffice. -/
def resegment (vocab : GgufVocab) (text : Text) (symbols : List Symbol) (revMerge : RevMerge)
    (symbol : Symbol) : Option (List ℕ) :=
  resegmentLoop vocab text symbols revMerge (2 ^ (symbol.len + 1)) [symbol]

/-- `tokenize`. -/
def tokenize (vocab : GgufVocab) (text : Text) : Option (List ℕ) :=
  if text.isEmpty then some []
  else do
    let (symbols, revMerge) ← (merger vocab text).merge text []
    let found ← walk symbols symbols.length (some 0)
    let ids ← found.mapM (resegment vocab text symbols revMerge)
    return ids.flatten

/-! ### What is left of a text -/

/-- The rank of two pieces: the higher the score of the token they make, the lower. -/
def mergeRank (vocab : GgufVocab) (left right : Text) : Option ℤ :=
  (vocab.tokenToId (left ++ right)).map fun id => -totalKey (vocab.tokenScore id)

/-- The tokens of a piece. -/
def emitPiece (vocab : GgufVocab) (piece : Text) : List ℕ :=
  match vocab.tokenToId piece with
  | some id => [id]
  | none => byteFallback vocab piece

variable {vocab : GgufVocab} {text piece : Text} {symbols : List Symbol} {revMerge : RevMerge}

/-- What a candidate records of the texts it was queued for. -/
structure Offers (vocab : GgufVocab) (bigram : Bigram) (p q : Text) : Prop where
  rank : mergeRank vocab p q = some (-totalKey bigram.score)
  size : bigram.size = p.len + q.len

/-- Only texts of two characters or more are recorded as merged. -/
def Recorded (revMerge : RevMerge) : Prop := ∀ e ∈ revMerge, 2 ≤ e.1.length

theorem lookup_eq_none (h : Recorded revMerge) (hpiece : piece.length < 2) :
    revMerge.lookup piece = none := by
  rw [List.lookup_eq_none_iff]
  intro e he
  have := h e he
  rw [bne_iff_ne]
  rintro rfl
  omega

/-- The queue of SentencePiece is one for greedy merging by score. -/
theorem merger_spec (vocab : GgufVocab) (text : Text) :
    (merger vocab text).Spec text (mergeRank vocab) (fun e => -totalKey e.score) (Offers vocab)
      Recorded where
  offer {symbols a b i j p q} queue s h hs := by
    obtain ⟨l, hl, hstart, hllen, -, -⟩ := h.symbol_text
    have hshift : a ++ (i, p) :: (j, q) :: b = (a ++ [(i, p)]) ++ (j, q) :: b := by simp
    have hj : Live symbols text ((a ++ [(i, p)]) ++ (j, q) :: b) := hshift ▸ h
    obtain ⟨r, hr, -, hrlen, -, -⟩ := hj.symbol_text
    have hp := List.length_pos_of_ne_nil h.symbol.2
    have hq := List.length_pos_of_ne_nil hj.symbol.2
    have hcut : a ++ (i, p) :: (j, q) :: b = a ++ [(i, p), (j, q)] ++ b := by simp
    have hslice := (hcut ▸ h : Live symbols text (a ++ [(i, p), (j, q)] ++ b)).slice
    have hmid : textOf [(i, p), (j, q)] = p ++ q := congrArg (p ++ ·) (List.append_nil q)
    rw [hmid, Text.len_append, ← hstart, ← hllen, ← hrlen] at hslice
    rcases hid : vocab.tokenToId (p ++ q) with - | id
    · refine ⟨queue, s, ?_, hs, .inl ⟨by rw [mergeRank, hid]; rfl, rfl⟩⟩
      simp only [merger, tryAddBigram, hl, hr, Option.bind_eq_bind, Option.bind_some, hslice, hid]
      rfl
    · refine ⟨queue ++ [⟨i, j, vocab.tokenScore id, l.len + r.len⟩], (p ++ q, i, j) :: s, ?_, ?_,
        .inr ⟨_, rfl, rfl, rfl, by rw [mergeRank, hid]; rfl, ?_⟩⟩
      · simp only [merger, tryAddBigram, hl, hr, Option.bind_eq_bind, Option.bind_some, hslice, hid]
        rfl
      · intro e he
        rcases List.mem_cons.1 he with rfl | he
        · rw [List.length_append]
          omega
        · exact hs e he
      · rw [← hllen, ← hrlen]
  rank_eq h := h.rank
  better e e' := by
    rw [Prod.Lex.toLex_lt_toLex]
    simp [merger, better]
  fresh {l r e p q} h hstale := by
    simp only [merger, Bool.or_eq_false_iff, decide_eq_false_iff_not, not_not] at hstale
    obtain ⟨⟨hl, hr⟩, hsize⟩ := hstale
    refine ⟨hl, hr, fun hp hq => ?_⟩
    have := h.size
    constructor
    · omega
    · omega
  current {l r e p q} h hp hq hl hr := by
    have hp' := mt Text.len_eq_zero hp
    have hq' := mt Text.len_eq_zero hq
    have := h.size
    simp only [merger, Bool.or_eq_false_iff, decide_eq_false_iff_not, not_not]
    exact ⟨⟨by omega, by omega⟩, by omega⟩

/-- A piece that is left is a token or one character. -/
theorem token_or_char (vocab : GgufVocab) (text : Text) :
    ∀ p ∈ segment (mergeRank vocab) text, vocab.tokenToId p ≠ none ∨ p.length < 2 := by
  intro p hp
  rcases built_of_mem_segment hp with ⟨c⟩ | ⟨-, -, hrank⟩
  · exact .inr (by simp)
  · refine .inl fun hnone => ?_
    rw [mergeRank, hnone] at hrank
    cases hrank

/-- A symbol with such a piece is emitted as it is. -/
theorem resegment_eq {symbol : Symbol} (hlen : symbol.len ≠ 0) (hrev : Recorded revMerge)
    (hpiece : vocab.tokenToId (symbol.text text) ≠ none ∨ (symbol.text text).length < 2) :
    resegment vocab text symbols revMerge symbol = some (emitPiece vocab (symbol.text text)) := by
  obtain ⟨fuel, hfuel⟩ : ∃ fuel, 2 ^ (symbol.len + 1) = fuel + 1 :=
    ⟨_, (Nat.succ_pred_eq_of_pos (Nat.two_pow_pos _)).symm⟩
  have hdone : resegmentLoop vocab text symbols revMerge fuel [] = some [] := by
    rw [resegmentLoop]
  rw [resegment, hfuel, resegmentLoop, if_neg hlen, emitPiece]
  rcases hid : vocab.tokenToId (symbol.text text) with - | id
  · have hnone := lookup_eq_none hrev (hpiece.resolve_left (· hid))
    simp only [hid, hnone, hdone, Option.bind_eq_bind, Option.bind_some, List.append_nil]
    rfl
  · simp only [hid, hdone, Option.bind_eq_bind, Option.bind_some]
    rfl

/-- **The tokens of a text**: those of the pieces that greedy merging leaves of it. -/
theorem tokenize_eq (vocab : GgufVocab) (text : Text) :
    tokenize vocab text = some ((segment (mergeRank vocab) text).flatMap (emitPiece vocab)) := by
  rw [tokenize]
  by_cases htext : text = []
  · subst htext
    rfl
  · rw [if_neg (by simpa using htext)]
    obtain ⟨symbols, revMerge, live, hmerge, hlive, -, hpieces, hrev⟩ :=
      merge_spec (s := []) (merger_spec vocab text) (by nofun)
    obtain ⟨found, hfound, hmap, hlen⟩ := hlive.walk htext
    rw [hpieces] at hmap
    have hemit : found.mapM (resegment vocab text symbols revMerge) =
        some (found.map fun symbol => emitPiece vocab (symbol.text text)) := by
      refine mapM_of_some fun symbol hsymbol => resegment_eq (hlen symbol hsymbol) hrev ?_
      refine token_or_char vocab text _ ?_
      rw [← hmap]
      exact List.mem_map.2 ⟨symbol, hsymbol, rfl⟩
    simp only [hmerge, Option.bind_eq_bind, Option.bind_some, hfound, hemit]
    rw [← hmap, List.flatMap_map]
    rfl

end Spm

end Vocab

end Oxillama
