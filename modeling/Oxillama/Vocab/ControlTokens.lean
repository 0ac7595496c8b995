/-
Control tokens in plain text (`oxillama-runtime/src/gguf_vocab`).

Pieces of a text are looked up in the same table that holds the control tokens, and no
look-up asks for the type of what it finds.

* `no_control_iff` — **plain text becomes no control token exactly if** no piece that greedy
  merging leaves of it is looked up as one;
* `forged_control` — plain text that is merged into a control token;
* `no_control_of_unforgeable` — a vocabulary where merging builds no control token is safe.
-/
import Oxillama.Vocab.Lossless

namespace Oxillama

namespace Vocab

/-- The pieces of a word that are looked up: the word itself, or what merging leaves of it. -/
def Bpe.pieces (vocab : GgufVocab) (word : Text) : List Text :=
  if word ≠ [] ∧ vocab.ignoreMerges = true ∧ vocab.tokenToId word ≠ none then [word]
  else segment vocab.mergeRank word

namespace GgufVocab

variable (vocab : GgufVocab)

/-- The type of a token is `Control`. -/
def isControl (id : ℕ) : Bool := vocab.types[id]? = some .control

/-- The pieces that greedy merging leaves of fragments, under SentencePiece. -/
def spmPieces : Bool → List Fragment → List Text
  | _, [] => []
  | _, .token _ :: fragments => spmPieces true fragments
  | isPrevSpecial, .text raw :: fragments =>
    segment (Spm.mergeRank vocab) (escapeWhitespace (vocab.spaced isPrevSpecial raw)) ++
      spmPieces false fragments

/-- The pieces that greedy merging leaves of fragments, under BPE. -/
def bpePieces : List Fragment → List Text
  | [] => []
  | .token _ :: fragments => bpePieces fragments
  | .text raw :: fragments =>
    ((Bpe.words vocab raw).getD []).flatMap (fun word => Bpe.pieces vocab (encodeBytes word)) ++
      bpePieces fragments

/-- The pieces that greedy merging leaves of plain text. -/
def plainPieces (text : Text) : List Text :=
  let fragments := (vocab.partitionSpecials text false).getD []
  match vocab.vocabType with
  | .spm => vocab.spmPieces true fragments
  | .bpe => vocab.bpePieces fragments

/-- What a piece is looked up as: its token, or those it falls back to. -/
def lookup (piece : Text) : List ℕ :=
  match vocab.vocabType with
  | .spm => Spm.emitPiece vocab piece
  | .bpe => Bpe.emitPiece vocab piece

end GgufVocab

variable {vocab : GgufVocab} {text raw : Text} {fragments : List Fragment} {id : ℕ}

/-! ### What a text is looked up as -/

/-- The tokens of a word are those of its pieces. -/
theorem Bpe.tokenizeWord_pieces (vocab : GgufVocab) (word : Text) :
    Bpe.tokenizeWord vocab word =
      some ((Bpe.pieces vocab word).flatMap (Bpe.emitPiece vocab)) := by
  by_cases hword : word = []
  · subst hword
    rw [Bpe.pieces, if_neg (by simp)]
    rfl
  · rw [Bpe.tokenizeWord_eq hword]
    by_cases hwhole : vocab.ignoreMerges = true ∧ vocab.tokenToId word ≠ none
    · have hpieces : Bpe.pieces vocab word = [word] := if_pos ⟨hword, hwhole⟩
      obtain ⟨id, hid⟩ := Option.ne_none_iff_exists'.1 hwhole.2
      rw [hpieces, if_pos hwhole.1, hid, List.flatMap_cons, Bpe.emitPiece, hid]
      rfl
    · have hpieces : Bpe.pieces vocab word = segment vocab.mergeRank word :=
        if_neg fun h => hwhole h.2
      have hnone : (if vocab.ignoreMerges then vocab.tokenToId word else none) = none := by
        by_contra hne
        by_cases hignore : vocab.ignoreMerges = true
        · rw [if_pos hignore] at hne
          exact hwhole ⟨hignore, hne⟩
        · exact hne (if_neg hignore)
      rw [hpieces, hnone]

/-- The tokens of a text without special tokens are those of the pieces of its words. -/
theorem Bpe.tokenize_pieces (hregex : Bpe.Ordered vocab) (hraw : raw ≠ []) :
    Bpe.tokenize vocab raw =
      some ((((Bpe.words vocab raw).getD []).flatMap
        fun word => Bpe.pieces vocab (encodeBytes word)).flatMap (Bpe.emitPiece vocab)) := by
  obtain ⟨words, hwords, -⟩ := Bpe.words_spec hregex raw
  have hall : (words.mapM fun word => Bpe.tokenizeWord vocab (encodeBytes word)) =
      some (words.map fun word =>
        (Bpe.pieces vocab (encodeBytes word)).flatMap (Bpe.emitPiece vocab)) :=
    mapM_of_some fun word _ => Bpe.tokenizeWord_pieces vocab _
  rw [Bpe.tokenize, if_neg (by simpa using hraw)]
  simp only [hwords, hall, Option.bind_eq_bind, Option.bind_some, Option.getD_some]
  rw [List.flatMap_assoc, List.flatMap_def]
  rfl

/-- A token that is split out of plain text is no control token. -/
theorem Partition.not_isControl (h : Partition vocab false fragments text)
    (hid : .token id ∈ fragments) : vocab.isControl id = false := by
  have hspecial := (h.split id hid).2.resolve_left Bool.false_ne_true
  by_contra hcontrol
  have htype : vocab.types[id]? = some .control := by
    simpa [GgufVocab.isControl] using hcontrol
  rw [GgufVocab.isSpecial, htype] at hspecial
  cases hspecial

/-- **The control tokens of plain text** are those that its pieces are looked up as. -/
theorem mem_tokenize_iff (hregex : Bpe.Ordered vocab) (text : Text) :
    ∃ ids, vocab.tokenize text false false = some ids ∧ ∀ id, vocab.isControl id = true →
      (id ∈ ids ↔ ∃ piece ∈ vocab.plainPieces text, id ∈ vocab.lookup piece) := by
  obtain ⟨fragments, hfragments, hpartition⟩ := partitionSpecials_spec vocab text false
  have htokens : ∀ t, .token t ∈ fragments → ∀ id, vocab.isControl id = true → id ≠ t := by
    rintro t ht id hid rfl
    rw [hpartition.not_isControl ht] at hid
    cases hid
  have hraws := hpartition.ne_nil
  clear hpartition
  rcases htype : vocab.vocabType with - | -
  · suffices ∀ isPrevSpecial, ∃ ids, vocab.spmFragments isPrevSpecial fragments = some ids ∧
        ∀ id, vocab.isControl id = true → (id ∈ ids ↔
          ∃ piece ∈ vocab.spmPieces isPrevSpecial fragments, id ∈ Spm.emitPiece vocab piece) by
      obtain ⟨ids, hids, hcontrol⟩ := this true
      refine ⟨ids, ?_, fun id hid => ?_⟩
      · rw [GgufVocab.tokenize, hfragments]
        simp only [Option.bind_eq_bind, Option.bind_some, htype, hids, Bool.false_and,
          Bool.false_eq_true, if_false, List.nil_append, List.append_nil]
        rfl
      · rw [hcontrol id hid]
        simp only [GgufVocab.plainPieces, GgufVocab.lookup, hfragments, htype, Option.getD_some]
    clear hfragments hraws
    induction fragments with
    | nil => exact fun _ => ⟨[], rfl, by simp [GgufVocab.spmPieces]⟩
    | cons fragment fragments ih =>
      have hrest := ih fun t ht => htokens t (List.mem_cons_of_mem _ ht)
      intro isPrevSpecial
      rcases fragment with raw | t
      · obtain ⟨ids, hids, hcontrol⟩ := hrest false
        have hfirst := Spm.tokenize_eq vocab (escapeWhitespace (vocab.spaced isPrevSpecial raw))
        refine ⟨_, by rw [GgufVocab.spmFragments, hfirst, hids]; rfl, fun id hid => ?_⟩
        rw [List.mem_append, hcontrol id hid, List.mem_flatMap, GgufVocab.spmPieces]
        simp only [List.mem_append, or_and_right, exists_or]
      · obtain ⟨ids, hids, hcontrol⟩ := hrest true
        refine ⟨t :: ids, ?_, fun id hid => ?_⟩
        · rw [GgufVocab.spmFragments, hids]
          rfl
        · rw [List.mem_cons, hcontrol id hid, GgufVocab.spmPieces]
          exact or_iff_right (htokens t List.mem_cons_self id hid)
  · suffices ∃ ids, vocab.bpeFragments fragments = some ids ∧
        ∀ id, vocab.isControl id = true → (id ∈ ids ↔
          ∃ piece ∈ vocab.bpePieces fragments, id ∈ Bpe.emitPiece vocab piece) by
      obtain ⟨ids, hids, hcontrol⟩ := this
      refine ⟨ids, ?_, fun id hid => ?_⟩
      · rw [GgufVocab.tokenize, hfragments]
        simp only [Option.bind_eq_bind, Option.bind_some, htype, hids, Bool.false_and,
          Bool.false_eq_true, if_false, List.nil_append, List.append_nil]
        rfl
      · rw [hcontrol id hid]
        simp only [GgufVocab.plainPieces, GgufVocab.lookup, hfragments, htype, Option.getD_some]
    clear hfragments
    induction fragments with
    | nil => exact ⟨[], rfl, by simp [GgufVocab.bpePieces]⟩
    | cons fragment fragments ih =>
      obtain ⟨ids, hids, hcontrol⟩ := ih (fun t ht => htokens t (List.mem_cons_of_mem _ ht))
        fun raw hraw => hraws raw (List.mem_cons_of_mem _ hraw)
      rcases fragment with raw | t
      · have hfirst := Bpe.tokenize_pieces hregex (hraws raw List.mem_cons_self)
        refine ⟨_, by rw [GgufVocab.bpeFragments, hfirst, hids]; rfl, fun id hid => ?_⟩
        rw [List.mem_append, hcontrol id hid, List.mem_flatMap, GgufVocab.bpePieces]
        simp only [List.mem_append, or_and_right, exists_or]
      · refine ⟨t :: ids, ?_, fun id hid => ?_⟩
        · rw [GgufVocab.bpeFragments, hids]
          rfl
        · rw [List.mem_cons, hcontrol id hid, GgufVocab.bpePieces]
          exact or_iff_right (htokens t List.mem_cons_self id hid)

/-- **Plain text becomes no control token** exactly if no piece that greedy merging leaves of it
is looked up as one. -/
theorem no_control_iff (hregex : Bpe.Ordered vocab) (text : Text) :
    (∃ ids, vocab.tokenize text false false = some ids ∧ ∀ id ∈ ids, vocab.isControl id = false) ↔
      ∀ piece ∈ vocab.plainPieces text, ∀ id ∈ vocab.lookup piece, vocab.isControl id = false := by
  obtain ⟨ids, hids, hcontrol⟩ := mem_tokenize_iff hregex text
  constructor
  · rintro ⟨ids', hids', hnone⟩ piece hpiece id hid
    obtain rfl : ids' = ids := Option.some.inj (hids'.symm.trans hids)
    by_contra hcontrolled
    have hid' := Bool.eq_true_of_not_eq_false hcontrolled
    exact hcontrolled (hnone id ((hcontrol id hid').2 ⟨piece, hpiece, hid⟩))
  · intro hpieces
    refine ⟨ids, hids, fun id hid => ?_⟩
    by_contra hcontrolled
    have hid' := Bool.eq_true_of_not_eq_false hcontrolled
    obtain ⟨piece, hpiece, hlookup⟩ := (hcontrol id hid').1 hid
    exact hcontrolled (hpieces piece hpiece id hlookup)

theorem no_control_small :
    (∃ ids, smallBpe.tokenize ['a', 'b'] false false = some ids ∧
      ∀ id ∈ ids, smallBpe.isControl id = false) ↔
      ∀ piece ∈ smallBpe.plainPieces ['a', 'b'], ∀ id ∈ smallBpe.lookup piece,
        smallBpe.isControl id = false :=
  no_control_iff smallBpe_ordered _

/-! ### Forged markers -/

/-- A control token that two other pieces make. -/
def forgedSpm : GgufVocab :=
  byteSpm [([spmSpace], .normal), (['<', 's'], .normal), (['<', 's', '>'], .control)] true

/-- Plain text that is merged into a control token. -/
theorem forged_control : Bpe.Ordered forgedSpm ∧ ∃ ids,
    forgedSpm.tokenize ['<', 's', '>'] false false = some ids ∧
      ∃ id ∈ ids, forgedSpm.isControl id = true := by
  refine ⟨by rintro pre ⟨⟩, [256, 258], ?_, 258, by simp, ?_⟩
  all_goals decide +kernel

/-- No control token can be built by merging, and none stands in for a byte or for what is
unknown. -/
structure Unforgeable (vocab : GgufVocab) : Prop where
  spm : vocab.vocabType = .spm → ∀ text id, Built (Spm.mergeRank vocab) text →
    vocab.tokenToId text = some id → vocab.isControl id = false
  bpe : vocab.vocabType = .bpe → ∀ text id, Built vocab.mergeRank text ∨ vocab.ignoreMerges = true →
    vocab.tokenToId text = some id → vocab.isControl id = false
  byte : ∀ b id, vocab.byteToToken b = some id → vocab.isControl id = false
  unk : ∀ id ∈ vocab.unkId, vocab.isControl id = false

/-- A piece of such a vocabulary is looked up as no control token. -/
theorem Unforgeable.emitPiece_spm (h : Unforgeable vocab) (hspm : vocab.vocabType = .spm)
    {piece : Text} (hbuilt : Built (Spm.mergeRank vocab) piece)
    (hid : id ∈ Spm.emitPiece vocab piece) : vocab.isControl id = false := by
  rw [Spm.emitPiece] at hid
  split at hid
  next found hfound =>
    rw [List.mem_singleton.1 hid]
    exact h.spm hspm piece found hbuilt hfound
  next =>
    obtain ⟨b, -, hb⟩ := List.mem_flatMap.1 hid
    rcases hbyte : vocab.byteToToken b with - | found
    · rw [hbyte] at hb
      exact h.unk id (Option.mem_toList.1 hb)
    · rw [hbyte] at hb
      exact h.byte b id (hbyte.trans (Option.mem_toList.1 hb))

theorem Unforgeable.emitPiece_bpe (h : Unforgeable vocab) (hbpe : vocab.vocabType = .bpe)
    {piece : Text} (hbuilt : Built vocab.mergeRank piece ∨ vocab.ignoreMerges = true)
    (hid : id ∈ Bpe.emitPiece vocab piece) : vocab.isControl id = false := by
  rw [Bpe.emitPiece] at hid
  split at hid
  next found hfound =>
    rw [List.mem_singleton.1 hid]
    exact h.bpe hbpe piece found hbuilt hfound
  next =>
    obtain ⟨ch, -, hch⟩ := List.mem_flatMap.1 hid
    split at hch
    · exact h.bpe hbpe [ch] id (.inl (.single ch)) (Option.mem_toList.1 hch)
    · cases hch

theorem mem_spmPieces {isPrevSpecial : Bool} {piece : Text}
    (h : piece ∈ vocab.spmPieces isPrevSpecial fragments) : Built (Spm.mergeRank vocab) piece := by
  induction fragments generalizing isPrevSpecial with
  | nil => cases h
  | cons fragment fragments ih =>
    rcases fragment with raw | t
    · rcases List.mem_append.1 h with h | h
      · exact built_of_mem_segment h
      · exact ih h
    · rw [GgufVocab.spmPieces] at h
      exact ih h

theorem mem_bpePieces {piece : Text} (h : piece ∈ vocab.bpePieces fragments) :
    Built vocab.mergeRank piece ∨ vocab.ignoreMerges = true := by
  induction fragments with
  | nil => cases h
  | cons fragment fragments ih =>
    rcases fragment with raw | t
    · rcases List.mem_append.1 h with h | h
      · obtain ⟨word, -, hpiece⟩ := List.mem_flatMap.1 h
        rw [Bpe.pieces] at hpiece
        split at hpiece
        next hwhole => exact .inr hwhole.2.1
        next => exact .inl (built_of_mem_segment hpiece)
      · exact ih h
    · exact ih h

/-- **A vocabulary where merging builds no control token is safe.** -/
theorem no_control_of_unforgeable (h : Unforgeable vocab) (hregex : Bpe.Ordered vocab)
    (text : Text) : ∃ ids, vocab.tokenize text false false = some ids ∧
      ∀ id ∈ ids, vocab.isControl id = false := by
  obtain ⟨ids, hids, hcontrol⟩ := mem_tokenize_iff hregex text
  refine ⟨ids, hids, fun id hid => ?_⟩
  by_contra hcontrolled
  obtain ⟨piece, hpiece, hlookup⟩ := (hcontrol id (Bool.eq_true_of_not_eq_false hcontrolled)).1 hid
  rcases htype : vocab.vocabType with - | -
  · simp only [GgufVocab.plainPieces, GgufVocab.lookup, htype] at hpiece hlookup
    exact hcontrolled (h.emitPiece_spm htype (mem_spmPieces hpiece) hlookup)
  · simp only [GgufVocab.plainPieces, GgufVocab.lookup, htype] at hpiece hlookup
    exact hcontrolled (h.emitPiece_bpe htype (mem_bpePieces hpiece) hlookup)

end Vocab

end Oxillama
