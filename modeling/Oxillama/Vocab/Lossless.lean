/-
Tokenizing and detokenizing (`oxillama-runtime/src/gguf_vocab/mod.rs`), and what they keep of a
text.

* `tokenize` — the fragments of a text, each by the algorithm of the vocabulary;
* `Partition.tokenBytes` — a fragment that is a token stands for its text;
* `bpe_lossless` — **byte-level BPE keeps every byte of the text**, whatever the merge table
  and wherever the regexes of the pre-tokenizer cut;
* `spm_lossless` — **SentencePiece keeps the text up to spaces**: U+2581 is read as a space,
  and a space is put before the first text and before one that follows a special token.
-/
import Oxillama.Vocab.Bpe
import Oxillama.Vocab.Spm

namespace Oxillama

namespace Vocab

namespace GgufVocab

/-- The text of a fragment as SentencePiece gets it. -/
def spaced (vocab : GgufVocab) (isPrevSpecial : Bool) (raw : Text) : Text :=
  if vocab.addSpacePrefix && isPrevSpecial then ' ' :: raw else raw

/-- The loop of `tokenize_spm` over the fragments. -/
def spmFragments (vocab : GgufVocab) : Bool → List Fragment → Option (List ℕ)
  | _, [] => some []
  | _, .token id :: fragments => do
    let out ← spmFragments vocab true fragments
    return id :: out
  | isPrevSpecial, .text raw :: fragments => do
    let ids ← Spm.tokenize vocab (escapeWhitespace (vocab.spaced isPrevSpecial raw))
    let out ← spmFragments vocab false fragments
    return ids ++ out

/-- The loop of `tokenize_bpe` over the fragments. -/
def bpeFragments (vocab : GgufVocab) : List Fragment → Option (List ℕ)
  | [] => some []
  | .token id :: fragments => do
    let out ← bpeFragments vocab fragments
    return id :: out
  | .text raw :: fragments => do
    let ids ← Bpe.tokenize vocab raw
    let out ← bpeFragments vocab fragments
    return ids ++ out

/-- `tokenize`, with `tokenize_spm` and `tokenize_bpe`. -/
def tokenize (vocab : GgufVocab) (text : Text) (addSpecial parseSpecial : Bool) :
    Option (List ℕ) := do
  let fragments ← vocab.partitionSpecials text parseSpecial
  let ids ← match vocab.vocabType with
    | .spm => vocab.spmFragments true fragments
    | .bpe => vocab.bpeFragments fragments
  return (if addSpecial && vocab.addBos then vocab.bosId.toList else []) ++ ids ++
    (if addSpecial && vocab.addEos then vocab.eosId.toList else [])

end GgufVocab

variable {vocab : GgufVocab} {text raw piece : Text} {id : ℕ} {parseSpecial : Bool}

/-! ### The bytes of tokens -/

theorem detokenizeBytes_append (a b : List ℕ) (skipSpecial : Bool) :
    vocab.detokenizeBytes (a ++ b) skipSpecial =
      vocab.detokenizeBytes a skipSpecial ++ vocab.detokenizeBytes b skipSpecial :=
  List.flatMap_append

theorem detokenizeBytes_flatMap {α : Type} (f : α → List ℕ) (xs : List α) (skipSpecial : Bool) :
    vocab.detokenizeBytes (xs.flatMap f) skipSpecial =
      xs.flatMap fun x => vocab.detokenizeBytes (f x) skipSpecial :=
  List.flatMap_assoc

theorem detokenizeBytes_single {bytes : List UInt8} (h : vocab.tokenBytes id = some bytes) :
    vocab.detokenizeBytes [id] false = bytes := by
  simp [GgufVocab.detokenizeBytes, h]

/-- A token that is looked up has the text. -/
theorem tokens_of_tokenToId (h : vocab.tokenToId text = some id) :
    vocab.tokens[id]? = some text := by
  obtain ⟨hlt, heq, -⟩ := List.findIdx?_eq_some_iff_getElem.1 h
  rw [List.getElem?_eq_getElem hlt, eq_of_beq heq]

/-- A token to split out stands for its text. -/
theorem tokenBytes_special {type : TokenType} (htext : vocab.tokens[id]? = some text)
    (htype : vocab.types[id]? = some type) (hsplit : type.isPreSplit = true) :
    vocab.tokenBytes id = some text.bytes := by
  rw [GgufVocab.tokenBytes, htext, htype]
  rcases vocab.vocabType with - | -
  · rcases type with - | - | - | - | - | - | -
    all_goals first | rfl | cases hsplit
  · rcases type with - | - | - | - | - | - | -
    all_goals first | rfl | cases hsplit

/-- A fragment that is a token stands for its text. -/
theorem Partition.tokenBytes {fragments : List Fragment}
    (h : Partition vocab parseSpecial fragments text) (hid : .token id ∈ fragments) :
    vocab.tokenBytes id = some (vocab.content (.token id)).bytes := by
  obtain ⟨needle, type, hneedle, -, htype, hsplit⟩ :=
    GgufVocab.mem_preSplitIds.1 (h.split id hid).1
  rw [GgufVocab.content, hneedle]
  exact tokenBytes_special hneedle htype hsplit

variable {vocab : GgufVocab} {text raw piece : Text} {id : ℕ} {parseSpecial : Bool}

/-! ### Byte-level BPE -/

/-- Bytes spelled in the byte-level alphabet. -/
def spell (bytes : List UInt8) : Text := bytes.map byteToChar

/-- The characters that the byte-level alphabet takes over from ASCII. -/
def isPlain (b : UInt8) : Bool := '!'.toNat ≤ b.toNat && b.toNat ≤ '~'.toNat

/-- **A byte-level vocabulary**: the characters of the alphabet are tokens, and so is what a
merge makes.  The tokens that plain text can become are normal, or stand for their ASCII text
as special tokens do. -/
structure ByteLevel (vocab : GgufVocab) : Prop where
  bpe : vocab.vocabType = .bpe
  chars : ∀ b, vocab.tokenToId [byteToChar b] ≠ none
  merges : ∀ left right rank, vocab.mergeRank (spell left) (spell right) = some rank →
    vocab.tokenToId (spell (left ++ right)) ≠ none
  ordinary : ∀ bytes id, Built vocab.mergeRank (spell bytes) ∨ vocab.ignoreMerges = true →
    vocab.tokenToId (spell bytes) = some id →
      ∃ type, vocab.types[id]? = some type ∧
        (type = .normal ∨ type.isPreSplit = true ∧ ∀ b ∈ bytes, isPlain b = true)

theorem spell_append (a b : List UInt8) : spell (a ++ b) = spell a ++ spell b := List.map_append

theorem bytes_spell {bytes : List UInt8} (h : ∀ b ∈ bytes, isPlain b = true) :
    (spell bytes).bytes = bytes := by
  have hall (b : UInt8) : isPlain b = true → String.utf8EncodeChar (byteToChar b) = [b] :=
    forall_byte (P := fun b => isPlain b = true → String.utf8EncodeChar (byteToChar b) = [b])
      (by decide +kernel) b
  induction bytes with
  | nil => rfl
  | cons b bytes ih =>
    rw [spell, List.map_cons, Text.bytes, List.flatMap_cons, hall b (h b List.mem_cons_self)]
    exact congrArg (b :: ·) (ih fun b hb => h b (List.mem_cons_of_mem _ hb))

/-- The token of a word stands for its bytes. -/
theorem ByteLevel.tokenBytes (h : ByteLevel vocab) {bytes : List UInt8}
    (hbuilt : Built vocab.mergeRank (spell bytes) ∨ vocab.ignoreMerges = true)
    (hid : vocab.tokenToId (spell bytes) = some id) : vocab.tokenBytes id = some bytes := by
  obtain ⟨type, htype, hordinary⟩ := h.ordinary bytes id hbuilt hid
  have htext := tokens_of_tokenToId hid
  rcases hordinary with rfl | ⟨hsplit, hplain⟩
  · rw [GgufVocab.tokenBytes, htext, htype, h.bpe]
    exact congrArg some (decodeBytes_map bytes)
  · rw [tokenBytes_special htext htype hsplit, bytes_spell hplain]

/-- A piece of a word is a token. -/
theorem ByteLevel.token_of_piece (h : ByteLevel vocab) {bytes : List UInt8}
    (hpiece : piece ∈ segment vocab.mergeRank (spell bytes)) :
    ∃ bytes, piece = spell bytes ∧ vocab.tokenToId piece ≠ none := by
  have hchars : ∀ p ∈ (spell bytes).map (fun c => [c]),
      ∃ bytes, p = spell bytes ∧ vocab.tokenToId p ≠ none := by
    intro p hp
    obtain ⟨c, hc, rfl⟩ := List.mem_map.1 hp
    obtain ⟨b, -, rfl⟩ := List.mem_map.1 hc
    exact ⟨[b], rfl, h.chars b⟩
  refine greedy_induction ?_ hchars piece hpiece
  rintro p q k hrank ⟨left, rfl, -⟩ ⟨right, rfl, -⟩
  exact ⟨left ++ right, (spell_append left right).symm,
    spell_append left right ▸ h.merges left right k hrank⟩

/-- The tokens of a word stand for its bytes. -/
theorem ByteLevel.tokenizeWord (h : ByteLevel vocab) (bytes : List UInt8) :
    ∃ ids, Bpe.tokenizeWord vocab (spell bytes) = some ids ∧
      vocab.detokenizeBytes ids false = bytes := by
  by_cases hword : spell bytes = []
  · obtain rfl := List.map_eq_nil_iff.1 hword
    exact ⟨[], rfl, rfl⟩
  · refine ⟨_, Bpe.tokenizeWord_eq hword, ?_⟩
    rcases hwhole : (if vocab.ignoreMerges then vocab.tokenToId (spell bytes) else none)
      with - | id
    · have hpieces : ∀ p ∈ segment vocab.mergeRank (spell bytes),
          vocab.detokenizeBytes (Bpe.emitPiece vocab p) false = decodeBytes p := by
        intro p hp
        obtain ⟨part, rfl, hid⟩ := h.token_of_piece hp
        obtain ⟨id, hid⟩ := Option.ne_none_iff_exists'.1 hid
        have hbytes := h.tokenBytes (.inl (built_of_mem_segment hp)) hid
        rw [Bpe.emitPiece, hid, spell, decodeBytes_map]
        exact detokenizeBytes_single hbytes
      calc vocab.detokenizeBytes
            ((segment vocab.mergeRank (spell bytes)).flatMap (Bpe.emitPiece vocab)) false
          = (segment vocab.mergeRank (spell bytes)).flatMap decodeBytes := by
            rw [detokenizeBytes_flatMap]
            exact List.flatMap_congr hpieces
        _ = decodeBytes (segment vocab.mergeRank (spell bytes)).flatten :=
            (decodeBytes_flatten _).symm
        _ = bytes := by rw [flatten_segment, spell, decodeBytes_map]
    · have hignore : vocab.ignoreMerges = true := by
        by_contra hnot
        rw [if_neg hnot] at hwhole
        cases hwhole
      rw [if_pos hignore] at hwhole
      exact detokenizeBytes_single (h.tokenBytes (.inr hignore) hwhole)

/-- The tokens of a text without special tokens stand for its bytes. -/
theorem ByteLevel.tokenize (h : ByteLevel vocab) (hregex : Bpe.Ordered vocab) (raw : Text) :
    ∃ ids, Bpe.tokenize vocab raw = some ids ∧ vocab.detokenizeBytes ids false = raw.bytes := by
  by_cases hraw : raw = []
  · subst hraw
    exact ⟨[], rfl, rfl⟩
  · obtain ⟨pieces, hpieces, rfl⟩ := Bpe.words_spec hregex raw
    have hwords : ∃ ids, (pieces.mapM fun piece => Bpe.tokenizeWord vocab (encodeBytes piece)) =
        some ids ∧ vocab.detokenizeBytes ids.flatten false = Text.bytes pieces.flatten := by
      clear hpieces hraw
      induction pieces with
      | nil => exact ⟨[], rfl, rfl⟩
      | cons piece pieces ih =>
        obtain ⟨ids, hids, hbytes⟩ := ih
        obtain ⟨first, hfirst, hfirstBytes⟩ := h.tokenizeWord piece.bytes
        refine ⟨first :: ids, ?_, ?_⟩
        · have hword : Bpe.tokenizeWord vocab (encodeBytes piece) = some first := hfirst
          rw [List.mapM_cons, hword, hids]
          rfl
        · rw [List.flatten_cons, detokenizeBytes_append, hfirstBytes, hbytes, List.flatten_cons,
            Text.bytes_append]
    obtain ⟨ids, hids, hbytes⟩ := hwords
    refine ⟨ids.flatten, ?_, hbytes⟩
    rw [Bpe.tokenize, if_neg (by simpa using hraw)]
    simp only [hpieces, hids, Option.bind_eq_bind, Option.bind_some]
    rfl

/-- **Byte-level BPE is lossless**: the tokens of a text stand for exactly its bytes, whether
special tokens are parsed or not. -/
theorem bpe_lossless (h : ByteLevel vocab) (hregex : Bpe.Ordered vocab) (text : Text)
    (parseSpecial : Bool) : ∃ ids, vocab.tokenize text false parseSpecial = some ids ∧
      vocab.detokenizeBytes ids false = text.bytes := by
  obtain ⟨fragments, hfragments, hpartition⟩ := partitionSpecials_spec vocab text parseSpecial
  suffices ∃ ids, vocab.bpeFragments fragments = some ids ∧
      vocab.detokenizeBytes ids false = Text.bytes (fragments.flatMap vocab.content) by
    obtain ⟨ids, hids, hbytes⟩ := this
    refine ⟨ids, ?_, hbytes.trans (congrArg Text.bytes hpartition.content_eq)⟩
    rw [GgufVocab.tokenize, hfragments]
    simp only [Option.bind_eq_bind, Option.bind_some, h.bpe, hids, Bool.false_and,
      Bool.false_eq_true, if_false, List.nil_append, List.append_nil]
    rfl
  have htokens : ∀ id, .token id ∈ fragments →
      vocab.tokenBytes id = some (vocab.content (.token id)).bytes := fun _ => hpartition.tokenBytes
  clear hfragments hpartition
  induction fragments with
  | nil => exact ⟨[], rfl, rfl⟩
  | cons fragment fragments ih =>
    obtain ⟨ids, hids, hbytes⟩ := ih fun id hid => htokens id (List.mem_cons_of_mem _ hid)
    rw [List.flatMap_cons, Text.bytes_append, ← hbytes]
    rcases fragment with raw | id
    · obtain ⟨first, hfirst, hfirstBytes⟩ := h.tokenize hregex raw
      refine ⟨first ++ ids, ?_, ?_⟩
      · rw [GgufVocab.bpeFragments, hfirst, hids]
        rfl
      · rw [detokenizeBytes_append, hfirstBytes]
        rfl
    · refine ⟨id :: ids, ?_, ?_⟩
      · rw [GgufVocab.bpeFragments, hids]
        rfl
      · rw [← detokenizeBytes_single (htokens id List.mem_cons_self), ← detokenizeBytes_append]
        rfl

/-- The byte-level alphabet, a merge, and a control token; the pre-tokenizer takes a text whole. -/
def smallBpe : GgufVocab where
  vocabType := .bpe
  tokens := (List.range 256).map (fun n => [byteToChar (Nat.toUInt8 n)]) ++
    [['a', 'b'], ['<', 'x', '>']]
  scores := []
  types := List.replicate 257 .normal ++ [.control]
  bpeRanks key := if key = ['a', ' ', 'b'] then some 0 else none
  preTokenizer := some [fun piece => [some (0, piece.len)]]
  bosId := none
  eosId := none
  unkId := none
  addBos := false
  addEos := false
  addSpacePrefix := false
  ignoreMerges := false
  length_types := by
    simp only [List.length_append, List.length_map, List.length_range, List.length_replicate,
      List.length_cons, List.length_nil]

theorem smallBpe_byteLevel : ByteLevel smallBpe where
  bpe := rfl
  chars b hnone := by
    refine List.idxOf?_eq_none_iff.1 hnone (List.mem_append_left _ (List.mem_map.2 ⟨b.toNat, ?_⟩))
    exact ⟨List.mem_range.2 b.toNat_lt, by rw [show Nat.toUInt8 b.toNat = b from UInt8.ofNat_toNat]⟩
  merges left right rank h := by
    have hkey : spell left ++ ' ' :: spell right = ['a', ' ', 'b'] := by
      by_contra hne
      have hnone : smallBpe.mergeRank (spell left) (spell right) = none := if_neg hne
      rw [hnone] at h
      cases h
    have htoken : spell (left ++ right) = ['a', 'b'] := by
      rw [spell_append]
      rcases hleft : spell left with - | ⟨c, - | ⟨d, rest⟩⟩
      · simp [hleft] at hkey
      · rw [hleft] at hkey
        simp only [List.cons_append, List.nil_append, List.cons.injEq, true_and] at hkey
        rw [hkey.1, hkey.2]
        rfl
      · rw [hleft] at hkey
        have hlength := congrArg List.length hkey
        simp only [List.length_append, List.length_cons, List.length_nil] at hlength
        obtain rfl : rest = [] := List.length_eq_zero_iff.1 (by omega)
        simp at hkey
    rw [htoken]
    intro hnone
    exact List.idxOf?_eq_none_iff.1 hnone (List.mem_append_right _ List.mem_cons_self)
  ordinary bytes id _ hid := by
    have htext := tokens_of_tokenToId hid
    obtain ⟨hlt, -⟩ := List.getElem?_eq_some_iff.1 htext
    have hid : id < 257 ∨ id = 257 := by
      simp only [smallBpe, List.length_append, List.length_map, List.length_range, List.length_cons,
        List.length_nil] at hlt
      omega
    rcases hid with hid | rfl
    · refine ⟨.normal, ?_, .inl rfl⟩
      have hat : (List.replicate 257 TokenType.normal ++ [.control])[id]? = some .normal := by
        rw [List.getElem?_append_left (by rw [List.length_replicate]; exact hid),
          List.getElem?_replicate, if_pos hid]
      exact hat
    · refine ⟨.control, rfl, .inr ⟨rfl, ?_⟩⟩
      have hspell : spell bytes = ['<', 'x', '>'] := (Option.some.inj htext).symm
      have hbytes : bytes = [60, 120, 62] := by
        rw [← decodeBytes_map bytes]
        exact (congrArg decodeBytes hspell).trans (by decide +kernel)
      rw [hbytes]
      decide +kernel

theorem smallBpe_ordered : Bpe.Ordered smallBpe := by
  rintro pre ⟨⟩ regex hregex piece
  rcases List.mem_singleton.1 hregex with rfl
  exact ⟨[], piece, [], by simp, rfl, rfl, trivial⟩

theorem bpe_lossless_small : ∃ ids,
    smallBpe.tokenize ['a', 'b', '<', 'x', '>', ' '] false true = some ids ∧
      smallBpe.detokenizeBytes ids false = Text.bytes ['a', 'b', '<', 'x', '>', ' '] :=
  bpe_lossless smallBpe_byteLevel smallBpe_ordered _ true

/-! ### SentencePiece -/

/-- **A SentencePiece vocabulary** with its byte tokens.  The tokens that merging can build are
normal, or stand for their text as special tokens that are kept do. -/
structure ByteTokens (vocab : GgufVocab) (skipSpecial : Bool) : Prop where
  spm : vocab.vocabType = .spm
  bytes : ∀ b, ∃ id, vocab.tokenToId (byteToken b) = some id ∧ vocab.types[id]? = some .byte
  ordinary : ∀ text id, Built (Spm.mergeRank vocab) text → vocab.tokenToId text = some id →
    ∃ type, vocab.types[id]? = some type ∧
      (type = .normal ∨
        type.isPreSplit = true ∧ (skipSpecial && type.isSpecial) = false ∧ spmSpace ∉ text)

/-- What a text is read back as: a space before the first fragment, and before one that follows
a token split out, if the vocabulary asks for it; U+2581 as a space outside of those tokens. -/
def GgufVocab.spmReading (vocab : GgufVocab) : Bool → List Fragment → Text
  | _, [] => []
  | _, .token id :: fragments => vocab.content (.token id) ++ spmReading vocab true fragments
  | isPrevSpecial, .text raw :: fragments =>
    unescapeWhitespace (vocab.spaced isPrevSpecial raw) ++ spmReading vocab false fragments

variable {skipSpecial : Bool} {type : TokenType}

theorem unescapeWhitespace_escapeWhitespace (text : Text) :
    unescapeWhitespace (escapeWhitespace text) = unescapeWhitespace text := by
  rw [unescapeWhitespace, escapeWhitespace, List.map_map]
  refine List.map_congr_left fun c _ => ?_
  by_cases hc : c = ' '
  · subst hc
    decide
  · rw [Function.comp_apply, if_neg hc]

theorem unescapeWhitespace_of_not_mem (h : spmSpace ∉ text) : unescapeWhitespace text = text := by
  refine (List.map_congr_left fun c hc => ?_).trans (List.map_id text)
  have hne : c ≠ spmSpace := by
    rintro rfl
    exact h hc
  exact if_neg hne

/-- A token that is kept. -/
theorem detokenizeBytes_kept {bytes : List UInt8} (htype : vocab.types[id]? = some type)
    (hkept : (skipSpecial && type.isSpecial) = false) (hbytes : vocab.tokenBytes id = some bytes) :
    vocab.detokenizeBytes [id] skipSpecial = bytes := by
  have hskip : (skipSpecial && vocab.isSpecial id) = false := by
    rw [GgufVocab.isSpecial, htype]
    exact hkept
  rw [GgufVocab.detokenizeBytes, List.flatMap_cons, hskip, hbytes]
  exact List.append_nil bytes

/-- The bytes of a piece that is no token. -/
theorem ByteTokens.byteFallback (h : ByteTokens vocab skipSpecial) (piece : Text) :
    vocab.detokenizeBytes (Spm.byteFallback vocab piece) skipSpecial = piece.bytes := by
  rw [Spm.byteFallback, detokenizeBytes_flatMap]
  refine (List.flatMap_congr fun b _ => ?_).trans (List.flatMap_singleton' _)
  obtain ⟨id, hid, htype⟩ := h.bytes b
  have hbyte : vocab.byteToToken b = some id := by
    rw [GgufVocab.byteToToken, h.spm]
    exact congrArg (Option.or · _) hid
  rw [hbyte]
  refine detokenizeBytes_kept htype (Bool.and_false _) ?_
  rw [GgufVocab.tokenBytes, tokens_of_tokenToId hid, htype, h.spm]
  exact congrArg (some ∘ Option.toList) (parseByteToken_byteToken b)

/-- The bytes of a piece that merging leaves. -/
theorem ByteTokens.emitPiece (h : ByteTokens vocab skipSpecial)
    (hmarker : vocab.tokenToId [spmSpace] ≠ none)
    (hpiece : piece ∈ segment (Spm.mergeRank vocab) text) :
    vocab.detokenizeBytes (Spm.emitPiece vocab piece) skipSpecial =
      (unescapeWhitespace piece).bytes := by
  rw [Spm.emitPiece]
  rcases hid : vocab.tokenToId piece with - | id
  · have hnot : spmSpace ∉ piece := by
      have hchar := (Spm.token_or_char vocab text piece hpiece).resolve_left (· hid)
      intro hmem
      rcases piece with - | ⟨c, - | ⟨d, piece⟩⟩
      · cases hmem
      · rw [← List.mem_singleton.1 hmem] at hid
        exact hmarker hid
      · rw [List.length_cons, List.length_cons] at hchar
        omega
    rw [unescapeWhitespace_of_not_mem hnot]
    exact h.byteFallback piece
  · have htext := tokens_of_tokenToId hid
    obtain ⟨type, htype, rfl | ⟨hsplit, hkept, hnot⟩⟩ :=
      h.ordinary piece id (built_of_mem_segment hpiece) hid
    · refine detokenizeBytes_kept htype (Bool.and_false _) ?_
      rw [GgufVocab.tokenBytes, htext, htype, h.spm]
      rfl
    · rw [unescapeWhitespace_of_not_mem hnot]
      exact detokenizeBytes_kept htype hkept (tokenBytes_special htext htype hsplit)

/-- The bytes of a text without special tokens. -/
theorem ByteTokens.tokenize (h : ByteTokens vocab skipSpecial)
    (hmarker : vocab.tokenToId [spmSpace] ≠ none) (raw : Text) :
    ∃ ids, Spm.tokenize vocab (escapeWhitespace raw) = some ids ∧
      vocab.detokenizeBytes ids skipSpecial = (unescapeWhitespace raw).bytes := by
  refine ⟨_, Spm.tokenize_eq vocab _, ?_⟩
  have hpieces : ∀ p ∈ segment (Spm.mergeRank vocab) (escapeWhitespace raw),
      vocab.detokenizeBytes (Spm.emitPiece vocab p) skipSpecial = (unescapeWhitespace p).bytes :=
    fun p hp => h.emitPiece hmarker hp
  let pieces := segment (Spm.mergeRank vocab) (escapeWhitespace raw)
  calc vocab.detokenizeBytes (pieces.flatMap (Spm.emitPiece vocab)) skipSpecial
      = pieces.flatMap fun p => (unescapeWhitespace p).bytes := by
        rw [detokenizeBytes_flatMap]
        exact List.flatMap_congr hpieces
    _ = (pieces.map unescapeWhitespace).flatMap Text.bytes := (List.flatMap_map ..).symm
    _ = Text.bytes (unescapeWhitespace pieces.flatten) := by
        rw [← Text.bytes_flatten, unescapeWhitespace, List.map_flatten]
        rfl
    _ = (unescapeWhitespace raw).bytes := by
        rw [flatten_segment, unescapeWhitespace_escapeWhitespace]

/-- **SentencePiece is lossless** up to spaces: if U+2581 is a token, the tokens of a text stand
for its fragments, read with a space for U+2581 and the spaces that are put before them. -/
theorem spm_lossless (h : ByteTokens vocab skipSpecial)
    (hmarker : vocab.tokenToId [spmSpace] ≠ none) (text : Text) :
    ∃ fragments ids, vocab.partitionSpecials text false = some fragments ∧
      vocab.tokenize text false false = some ids ∧
      vocab.detokenizeBytes ids skipSpecial = (vocab.spmReading true fragments).bytes := by
  obtain ⟨fragments, hfragments, hpartition⟩ := partitionSpecials_spec vocab text false
  suffices ∀ isPrevSpecial, ∃ ids, vocab.spmFragments isPrevSpecial fragments = some ids ∧
      vocab.detokenizeBytes ids skipSpecial = (vocab.spmReading isPrevSpecial fragments).bytes by
    obtain ⟨ids, hids, hbytes⟩ := this true
    refine ⟨fragments, ids, hfragments, ?_, hbytes⟩
    rw [GgufVocab.tokenize, hfragments]
    simp only [Option.bind_eq_bind, Option.bind_some, h.spm, hids, Bool.false_and,
      Bool.false_eq_true, if_false, List.nil_append, List.append_nil]
    rfl
  have htokens : ∀ id, .token id ∈ fragments →
      vocab.detokenizeBytes [id] skipSpecial = (vocab.content (.token id)).bytes := by
    intro id hid
    obtain ⟨-, type, -, -, htype, -⟩ := GgufVocab.mem_preSplitIds.1 (hpartition.split id hid).1
    have hspecial := (hpartition.split id hid).2.resolve_left Bool.false_ne_true
    rw [GgufVocab.isSpecial, htype] at hspecial
    have hkept : (skipSpecial && type.isSpecial) = false := by
      rw [show type.isSpecial = false from hspecial, Bool.and_false]
    exact detokenizeBytes_kept htype hkept (hpartition.tokenBytes hid)
  clear hfragments hpartition
  induction fragments with
  | nil => exact fun _ => ⟨[], rfl, rfl⟩
  | cons fragment fragments ih =>
    have hrest := ih fun id hid => htokens id (List.mem_cons_of_mem _ hid)
    intro isPrevSpecial
    rcases fragment with raw | id
    · obtain ⟨ids, hids, hbytes⟩ := hrest false
      obtain ⟨first, hfirst, hfirstBytes⟩ := h.tokenize hmarker (vocab.spaced isPrevSpecial raw)
      refine ⟨first ++ ids, ?_, ?_⟩
      · rw [GgufVocab.spmFragments, hfirst, hids]
        rfl
      · rw [detokenizeBytes_append, hfirstBytes, hbytes, GgufVocab.spmReading, Text.bytes_append]
    · obtain ⟨ids, hids, hbytes⟩ := hrest true
      refine ⟨id :: ids, ?_, ?_⟩
      · rw [GgufVocab.spmFragments, hids]
        rfl
      · rw [GgufVocab.spmReading, Text.bytes_append, ← hbytes, ← htokens id List.mem_cons_self,
          ← detokenizeBytes_append]
        rfl

/-- The byte tokens, and some more tokens with their types. -/
def byteSpm (extra : List (Text × TokenType)) (addSpacePrefix : Bool) : GgufVocab where
  vocabType := .spm
  tokens := (List.range 256).map (fun n => byteToken (Nat.toUInt8 n)) ++ extra.map Prod.fst
  scores := []
  types := (List.range 256).map (fun _ => .byte) ++ extra.map Prod.snd
  bpeRanks _ := none
  preTokenizer := none
  bosId := none
  eosId := none
  unkId := none
  addBos := false
  addEos := false
  addSpacePrefix
  ignoreMerges := false
  length_types := by simp only [List.length_append, List.length_map]

/-- Without tokens of two characters nothing is merged. -/
theorem length_of_built (h : ∀ t ∈ vocab.tokens, t.length ≠ 2)
    (hbuilt : Built (Spm.mergeRank vocab) text) : text.length = 1 := by
  induction hbuilt with
  | single c => rfl
  | @merge p q k _ _ hrank hp hq =>
    rcases hid : vocab.tokenToId (p ++ q) with - | id
    · rw [Spm.mergeRank, hid] at hrank
      cases hrank
    · have hmem := List.mem_of_getElem? (tokens_of_tokenToId hid)
      refine absurd ?_ (h _ hmem)
      rw [List.length_append, hp, hq]

section ByteSpm

variable {extra : List (Text × TokenType)} {addSpacePrefix : Bool}

theorem byteSpm_byte (extra : List (Text × TokenType)) (addSpacePrefix : Bool) (hlt : id < 256) :
    (byteSpm extra addSpacePrefix).tokens[id]? = some (byteToken (Nat.toUInt8 id)) ∧
      (byteSpm extra addSpacePrefix).types[id]? = some .byte := by
  constructor
  · refine (List.getElem?_append_left ?_).trans ?_
    · rw [List.length_map, List.length_range]
      exact hlt
    · rw [List.getElem?_map, List.getElem?_range hlt, Option.map_some]
  · refine (List.getElem?_append_left ?_).trans ?_
    · rw [List.length_map, List.length_range]
      exact hlt
    · rw [List.getElem?_map, List.getElem?_range hlt, Option.map_some]

theorem byteSpm_extra (extra : List (Text × TokenType)) (addSpacePrefix : Bool) (hge : 256 ≤ id) :
    (byteSpm extra addSpacePrefix).tokens[id]? = extra[id - 256]?.map Prod.fst ∧
      (byteSpm extra addSpacePrefix).types[id]? = extra[id - 256]?.map Prod.snd := by
  constructor
  · refine (List.getElem?_append_right ?_).trans ?_
    · rw [List.length_map, List.length_range]
      exact hge
    · rw [List.length_map, List.length_range, List.getElem?_map]
  · refine (List.getElem?_append_right ?_).trans ?_
    · rw [List.length_map, List.length_range]
      exact hge
    · rw [List.length_map, List.length_range, List.getElem?_map]

theorem byteSpm_byteTokens
    (h : ∀ e ∈ extra, e.1.length ≠ 2 ∧ (e.1.length = 1 → e.2 = .normal)) :
    ByteTokens (byteSpm extra addSpacePrefix) skipSpecial where
  spm := rfl
  bytes b := by
    have htoken := (byteSpm_byte extra addSpacePrefix b.toNat_lt).1
    rw [show Nat.toUInt8 b.toNat = b from UInt8.ofNat_toNat] at htoken
    rcases hid : (byteSpm extra addSpacePrefix).tokenToId (byteToken b) with - | id
    · exact absurd (List.mem_of_getElem? htoken) (List.idxOf?_eq_none_iff.1 hid)
    · refine ⟨id, rfl, (byteSpm_byte extra addSpacePrefix ?_).2⟩
      -- The token found is the first with this text.
      obtain ⟨_, _, hfirst⟩ := List.findIdx?_eq_some_iff_getElem.1 hid
      obtain ⟨hlt, heq⟩ := List.getElem?_eq_some_iff.1 htoken
      have hb := b.toNat_lt
      by_contra hge
      exact hfirst b.toNat (by omega) (beq_iff_eq.2 heq)
  ordinary text id hbuilt hid := by
    have htext := tokens_of_tokenToId hid
    have hnotwo : ∀ t ∈ (byteSpm extra addSpacePrefix).tokens, t.length ≠ 2 := by
      intro t ht
      rcases List.mem_append.1 ht with ht | ht
      · obtain ⟨n, -, rfl⟩ := List.mem_map.1 ht
        simp [byteToken]
      · obtain ⟨e, he, rfl⟩ := List.mem_map.1 ht
        exact (h e he).1
    have hlength := length_of_built hnotwo hbuilt
    refine ⟨.normal, ?_, .inl rfl⟩
    rcases Nat.lt_or_ge id 256 with hlt | hge
    · rw [(byteSpm_byte extra addSpacePrefix hlt).1] at htext
      rw [← Option.some.inj htext] at hlength
      simp [byteToken] at hlength
    · obtain ⟨htoken, htype⟩ := byteSpm_extra extra addSpacePrefix hge
      obtain ⟨e, he, rfl⟩ := Option.map_eq_some_iff.1 (htoken.symm.trans htext)
      rw [htype, he, Option.map_some, (h e (List.mem_of_getElem? he)).2 hlength]

/-- The space marker and a user-defined token. -/
def taggedSpm : GgufVocab := byteSpm [([spmSpace], .normal), (['<', 'T', '>'], .userDefined)] true

/-- The byte tokens only. -/
def bareSpm : GgufVocab := byteSpm [] false

theorem taggedSpm_byteTokens : ByteTokens taggedSpm skipSpecial :=
  byteSpm_byteTokens (by decide)

theorem bareSpm_byteTokens : ByteTokens bareSpm skipSpecial := byteSpm_byteTokens (by decide)

theorem taggedSpm_marker : taggedSpm.tokenToId [spmSpace] ≠ none := by
  intro hnone
  exact List.idxOf?_eq_none_iff.1 hnone (List.mem_append_right _ List.mem_cons_self)

theorem spm_lossless_tagged : ∃ fragments ids,
    taggedSpm.partitionSpecials ['a', '<', 'T', '>', ' '] false = some fragments ∧
      taggedSpm.tokenize ['a', '<', 'T', '>', ' '] false false = some ids ∧
      taggedSpm.detokenizeBytes ids true = (taggedSpm.spmReading true fragments).bytes :=
  spm_lossless taggedSpm_byteTokens taggedSpm_marker _

/-- A text with every U+2581 read as a space, behind one space if the vocabulary asks for it. -/
def GgufVocab.readAsSpaces (vocab : GgufVocab) (text : Text) : Text :=
  unescapeWhitespace (if vocab.addSpacePrefix && !text.isEmpty then ' ' :: text else text)

/-- What follows a user-defined token gets a space of its own; and a space comes back as U+2581
if that is no token. -/
theorem spm_not_readAsSpaces :
    (ByteTokens taggedSpm false ∧ ∃ ids,
      taggedSpm.tokenize ['a', '<', 'T', '>', 'b'] false false = some ids ∧
      taggedSpm.detokenizeBytes ids false ≠
        (taggedSpm.readAsSpaces ['a', '<', 'T', '>', 'b']).bytes) ∧
    (ByteTokens bareSpm false ∧ ∃ ids, bareSpm.tokenize [' '] false false = some ids ∧
      bareSpm.detokenizeBytes ids false ≠ (bareSpm.readAsSpaces [' ']).bytes) := by
  refine ⟨⟨taggedSpm_byteTokens, [256, 97, 257, 256, 98], ?_, ?_⟩,
    bareSpm_byteTokens, [0xE2, 0x96, 0x81], ?_, ?_⟩
  all_goals decide +kernel

end ByteSpm

end Vocab

end Oxillama
