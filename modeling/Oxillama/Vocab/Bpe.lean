/-
Byte-level BPE (`oxillama-runtime/src/gguf_vocab/bpe.rs`).

* `tokenizeWord_eq` — a word becomes the tokens of the pieces that greedy merging by merge
  rank leaves of it, or the one token it is itself.
-/
import Oxillama.Vocab.Merge
import Oxillama.Vocab.Pretok

namespace Oxillama

namespace Vocab

namespace Bpe

/-- `Bigram`. -/
structure Bigram where
  left : ℕ
  right : ℕ
  rank : ℕ
  leftLen : ℕ
  rightLen : ℕ
  deriving DecidableEq, Repr

/-- `Bigram::cmp` answers `Greater`: the lowest rank first, then the left-most position. -/
def better (bigram other : Bigram) : Bool :=
  bigram.rank < other.rank || (bigram.rank = other.rank && bigram.left < other.left)

/-- `add_bigram`. -/
def addBigram (vocab : GgufVocab) (word : Text) (symbols : List Symbol) (left right : ℕ)
    (state : List Bigram × Unit) : Option (List Bigram × Unit) := do
  let l ← symbols[left]?
  let r ← symbols[right]?
  match vocab.mergeRank (l.text word) (r.text word) with
  | none => return state
  | some rank =>
    return (state.1 ++ [{ left, right, rank, leftLen := (l.text word).len,
                          rightLen := (r.text word).len }], state.2)

/-- How BPE queues candidates. -/
def merger (vocab : GgufVocab) (word : Text) : Merger Bigram Unit where
  left := Bigram.left
  right := Bigram.right
  stale l r bigram :=
    l.len ≠ bigram.leftLen || r.len ≠ bigram.rightLen || l.len = 0 || r.len = 0
  better := better
  offer := addBigram vocab word

/-- What `emit` makes of a piece: its token, or those of its ASCII characters. -/
def emitPiece (vocab : GgufVocab) (piece : Text) : List ℕ :=
  match vocab.tokenToId piece with
  | some id => [id]
  | none => piece.flatMap fun ch =>
      if ch.toNat < 128 then (vocab.tokenToId [ch]).toList else []

/-- `emit`. -/
def emit (vocab : GgufVocab) (word : Text) (symbols : List Symbol) : Option (List ℕ) := do
  let found ← walk symbols symbols.length (some 0)
  return found.flatMap fun symbol =>
    if symbol.len = 0 then [] else emitPiece vocab (symbol.text word)

/-- `tokenize_word`. -/
def tokenizeWord (vocab : GgufVocab) (word : Text) : Option (List ℕ) :=
  if word.isEmpty then some []
  else
    match if vocab.ignoreMerges then vocab.tokenToId word else none with
    | some id => some [id]
    | none => do
      let (symbols, _) ← (merger vocab word).merge word ()
      emit vocab word symbols

/-- The pieces of a text that `tokenize` takes one by one. -/
def words (vocab : GgufVocab) (text : Text) : Option (List Text) :=
  match vocab.preTokenizer with
  | some pre => split pre text
  | none => some [text]

/-- `tokenize`. -/
def tokenize (vocab : GgufVocab) (text : Text) : Option (List ℕ) :=
  if text.isEmpty then some []
  else do
    let pieces ← words vocab text
    let ids ← pieces.mapM fun piece => tokenizeWord vocab (encodeBytes piece)
    return ids.flatten

/-! ### Words -/

/-- Every regex of the pre-tokenizer returns ordered matches that do not overlap. -/
def Ordered (vocab : GgufVocab) : Prop :=
  ∀ pre ∈ vocab.preTokenizer, ∀ regex ∈ pre, regex.Ordered

/-- The words of a text make up the text. -/
theorem words_spec {vocab : GgufVocab} (h : Ordered vocab) (text : Text) :
    ∃ pieces, words vocab text = some pieces ∧ pieces.flatten = text := by
  rw [words]
  rcases hpre : vocab.preTokenizer with - | pre
  · exact ⟨[text], rfl, List.append_nil text⟩
  · exact split_spec (h pre hpre) text

variable {vocab : GgufVocab} {word : Text}

/-- What a candidate records of the texts it was queued for. -/
structure Offers (vocab : GgufVocab) (bigram : Bigram) (p q : Text) : Prop where
  rank : vocab.mergeRank p q = some bigram.rank
  leftLen : bigram.leftLen = p.len
  rightLen : bigram.rightLen = q.len

/-- The queue of BPE is one for greedy merging by merge rank. -/
theorem merger_spec (vocab : GgufVocab) (word : Text) :
    (merger vocab word).Spec word vocab.mergeRank Bigram.rank (Offers vocab) fun _ => True where
  offer {symbols a b i j p q} queue s h _ := by
    obtain ⟨l, hl, -, -, -, hltext⟩ := h.symbol_text
    have hshift : a ++ (i, p) :: (j, q) :: b = (a ++ [(i, p)]) ++ (j, q) :: b := by simp
    obtain ⟨r, hr, -, -, -, hrtext⟩ :=
      (hshift ▸ h : Live symbols word ((a ++ [(i, p)]) ++ (j, q) :: b)).symbol_text
    rcases hrank : vocab.mergeRank p q with - | rank
    · refine ⟨queue, s, ?_, trivial, .inl ⟨rfl, rfl⟩⟩
      simp only [merger, addBigram, hl, hr, Option.bind_eq_bind, Option.bind_some, hltext, hrtext,
        hrank]
      rfl
    · refine ⟨_, s, ?_, trivial, .inr ⟨⟨i, j, rank, p.len, q.len⟩, rfl, rfl, rfl, hrank, rfl, rfl⟩⟩
      simp only [merger, addBigram, hl, hr, Option.bind_eq_bind, Option.bind_some, hltext, hrtext,
        hrank]
      rfl
  rank_eq h := h.rank
  better e e' := by
    rw [Prod.Lex.toLex_lt_toLex]
    simp [merger, better]
  fresh {l r e p q} h hstale := by
    simp only [merger, Bool.or_eq_false_iff, decide_eq_false_iff_not, not_not] at hstale
    obtain ⟨⟨⟨hleft, hright⟩, hl⟩, hr⟩ := hstale
    exact ⟨hl, hr, fun _ _ => ⟨hleft.trans h.leftLen, hright.trans h.rightLen⟩⟩
  current {l r e p q} h hp hq hl hr := by
    have hp' := mt Text.len_eq_zero hp
    have hq' := mt Text.len_eq_zero hq
    simp only [merger, Bool.or_eq_false_iff, decide_eq_false_iff_not, not_not, h.leftLen,
      h.rightLen]
    exact ⟨⟨⟨hl, hr⟩, by omega⟩, by omega⟩

/-- **The tokens of a word**: those of the pieces that greedy merging leaves of it. -/
theorem tokenizeWord_eq (hword : word ≠ []) :
    tokenizeWord vocab word =
      some (match if vocab.ignoreMerges then vocab.tokenToId word else none with
        | some id => [id]
        | none => (segment vocab.mergeRank word).flatMap (emitPiece vocab)) := by
  rw [tokenizeWord, if_neg (by simpa using hword)]
  rcases (if vocab.ignoreMerges then vocab.tokenToId word else none) with - | id
  · obtain ⟨symbols, s, live, hmerge, hlive, -, hpieces, -⟩ :=
      merge_spec (s := ()) (merger_spec vocab word) trivial
    obtain ⟨found, hfound, hmap, hlen⟩ := hlive.walk hword
    have htexts : (found.flatMap fun symbol =>
        if symbol.len = 0 then [] else emitPiece vocab (symbol.text word)) =
          (found.map (Symbol.text · word)).flatMap (emitPiece vocab) := by
      rw [List.flatMap_map]
      exact List.flatMap_congr fun symbol hsymbol => if_neg (hlen symbol hsymbol)
    simp only [hmerge, Option.bind_eq_bind, Option.bind_some, emit, hfound]
    rw [htexts, hmap, hpieces]
    rfl
  · rfl

end Bpe

end Vocab

end Oxillama
