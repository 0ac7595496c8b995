/-
The vocabulary of a GGUF file (`oxillama-runtime/src/gguf_vocab/mod.rs`).

What loading derives from the token texts (the table from texts to ids, the bytes of the
tokens, the tokens to split out) is a function of them here.  The merge ranks are a table
from keys to ranks.  WordPiece is left out.

* `partitionSpecials_spec` — **splitting out special tokens keeps the text**;
* `parseByteToken_byteToken` — the text of a byte token names its byte.
-/
import Mathlib.Data.List.Sort
import Oxillama.Lib.Bytes
import Oxillama.Vocab.ByteLevel

namespace Oxillama

namespace Vocab

/-! ### Vocabularies -/

/-- `VocabType`, without WordPiece. -/
inductive VocabType where
  | spm
  | bpe
  deriving DecidableEq, Repr

/-- `TokenType`. -/
inductive TokenType where
  | undefined
  | normal
  | unknown
  | control
  | userDefined
  | unused
  | byte
  deriving DecidableEq, Repr

/-- `TokenType::is_special`. -/
def TokenType.isSpecial (type : TokenType) : Bool := type = control || type = unknown

/-- `TokenType::is_pre_split`. -/
def TokenType.isPreSplit (type : TokenType) : Bool :=
  type = control || type = userDefined || type = unknown

/-- What `fancy_regex::Regex::find_iter` answers for a text: the start and the end of each match,
or that the search was given up. -/
abbrev Regex : Type := Text → List (Option (ℕ × ℕ))

/-- `GgufVocab`.  A score is given by its bits. -/
structure GgufVocab where
  vocabType : VocabType
  tokens : List Text
  scores : List UInt32
  types : List TokenType
  bpeRanks : Text → Option ℕ
  preTokenizer : Option (List Regex)
  bosId : Option ℕ
  eosId : Option ℕ
  unkId : Option ℕ
  addBos : Bool
  addEos : Bool
  addSpacePrefix : Bool
  ignoreMerges : Bool
  length_types : types.length = tokens.length

namespace GgufVocab

variable (vocab : GgufVocab)

/-- `token_to_id`: the first token with a text. -/
def tokenToId (text : Text) : Option ℕ := vocab.tokens.idxOf? text

/-- `token_score`. -/
def tokenScore (id : ℕ) : UInt32 := vocab.scores[id]?.getD 0

/-- `is_special`. -/
def isSpecial (id : ℕ) : Bool := vocab.types[id]?.any TokenType.isSpecial

/-- `merge_rank`. -/
def mergeRank (left right : Text) : Option ℕ := vocab.bpeRanks (left ++ ' ' :: right)

end GgufVocab

/-! ### The bytes of a token -/

/-- `SPM_SPACE`. -/
def spmSpace : Char := Char.ofNat 0x2581

/-- `escape_whitespace`. -/
def escapeWhitespace (text : Text) : Text := text.map fun c => if c = ' ' then spmSpace else c

/-- `unescape_whitespace`. -/
def unescapeWhitespace (text : Text) : Text := text.map fun c => if c = spmSpace then ' ' else c

/-- The digits of `u8::from_str_radix`. -/
def hexByte (digits : Text) : Option UInt8 :=
  if digits.isEmpty then none
  else (digits.foldlM (fun value c => do
    let digit ← hexDigit c
    if value * 16 + digit < 256 then some (value * 16 + digit) else none) 0).map Nat.toUInt8

/-- `parse_byte_token`. -/
def parseByteToken (text : Text) : Option UInt8 :=
  match text with
  | '<' :: '0' :: 'x' :: hex =>
    if hex.getLast? = some '>' then
      match hex.dropLast with
      | '+' :: digits => hexByte digits
      | digits => hexByte digits
    else none
  | _ => none

/-- A digit of `{:X}`. -/
def upperHex (n : ℕ) : Char := if n < 10 then Char.ofNat (n + 48) else Char.ofNat (n + 55)

/-- `format!("<0x{b:02X}>")`. -/
def byteToken (b : UInt8) : Text :=
  ['<', '0', 'x', upperHex (b.toNat / 16), upperHex (b.toNat % 16), '>']

/-- What `build_token_bytes` makes of a token. -/
def bytesOfToken (vocabType : VocabType) (text : Text) (type : TokenType) : List UInt8 :=
  match vocabType, type with
  | _, .control | _, .unknown | _, .userDefined => text.bytes
  | .spm, .normal => (unescapeWhitespace text).bytes
  | .spm, .byte => (parseByteToken text).toList
  | .bpe, .normal => decodeBytes text
  | .bpe, .byte => []
  | _, .unused | _, .undefined => []

namespace GgufVocab

variable (vocab : GgufVocab)

/-- `token_bytes`. -/
def tokenBytes (id : ℕ) : Option (List UInt8) := do
  let text ← vocab.tokens[id]?
  let type ← vocab.types[id]?
  return bytesOfToken vocab.vocabType text type

/-- `detokenize_bytes`. -/
def detokenizeBytes (tokens : List ℕ) (skipSpecial : Bool) : List UInt8 :=
  tokens.flatMap fun id =>
    if skipSpecial && vocab.isSpecial id then [] else (vocab.tokenBytes id).getD []

/-- `byte_to_token`. -/
def byteToToken (b : UInt8) : Option ℕ :=
  match vocab.vocabType with
  | .spm => (vocab.tokenToId (byteToken b)).or (vocab.tokenToId [Char.ofNat b.toNat])
  | .bpe => vocab.tokenToId [byteToChar b]

/-! ### Special tokens -/

/-- `pre_split_ids`: the longest text first. -/
def preSplitIds : List ℕ :=
  ((List.range vocab.tokens.length).filter fun i =>
    vocab.types[i]?.any TokenType.isPreSplit && vocab.tokens[i]?.any (!·.isEmpty)).insertionSort
      fun a b =>
        let len (i : ℕ) := (vocab.tokens[i]?.getD []).len
        len b < len a ∨ len a = len b ∧ a ≤ b

end GgufVocab

/-- `Fragment`. -/
inductive Fragment where
  | text (raw : Text)
  | token (id : ℕ)
  deriving DecidableEq, Repr

/-- The loop over the occurrences of a token in a fragment, for at most `fuel` rounds. -/
def splitOut (needle : Text) (id : ℕ) : ℕ → Text → Option (List Fragment)
  | 0, _ => none
  | fuel + 1, rest =>
    match rest.find needle with
    | none => some (if rest.isEmpty then [] else [.text rest])
    | some pos => do
      let (before, behind) ← Text.splitAt pos rest
      let (_, rest) ← Text.splitAt needle.len behind
      let next ← splitOut needle id fuel rest
      return (if pos > 0 then [.text before] else []) ++ .token id :: next

/-- A fragment, with a token split out. -/
def splitFragment (needle : Text) (id : ℕ) : Fragment → Option (List Fragment)
  | .token t => some [.token t]
  | .text rest => splitOut needle id (rest.length + 1) rest

/-- The fragments after the round of one token. -/
def GgufVocab.splitRound (vocab : GgufVocab) (parseSpecial : Bool) (fragments : List Fragment)
    (id : ℕ) : Option (List Fragment) :=
  if !parseSpecial && vocab.isSpecial id then some fragments
  else do
    let needle ← vocab.tokens[id]?
    let next ← fragments.mapM (splitFragment needle id)
    return next.flatten

/-- `partition_specials`. -/
def GgufVocab.partitionSpecials (vocab : GgufVocab) (text : Text) (parseSpecial : Bool) :
    Option (List Fragment) :=
  vocab.preSplitIds.foldlM (vocab.splitRound parseSpecial)
    (if text.isEmpty then [] else [.text text])

/-! ### The bytes of byte tokens -/

theorem parseByteToken_byteToken (b : UInt8) : parseByteToken (byteToken b) = some b :=
  forall_byte (P := fun b => parseByteToken (byteToken b) = some b) (by decide +kernel) b

/-! ### Splitting out special tokens -/

section Partition

variable {vocab : GgufVocab} {parseSpecial : Bool} {text raw : Text} {id : ℕ}
  {fragments : List Fragment}

theorem GgufVocab.mem_preSplitIds : id ∈ vocab.preSplitIds ↔
    ∃ text type, vocab.tokens[id]? = some text ∧ text ≠ [] ∧ vocab.types[id]? = some type ∧
      type.isPreSplit = true := by
  rw [preSplitIds, List.mem_insertionSort, List.mem_filter, List.mem_range, Bool.and_eq_true,
    Option.any_eq_true_iff_get, Option.any_eq_true_iff_get]
  constructor
  · rintro ⟨-, ⟨htype, hsplit⟩, htext, hne⟩
    refine ⟨_, _, (Option.some_get htext).symm, ?_, (Option.some_get htype).symm, hsplit⟩
    intro hnil
    rw [hnil] at hne
    cases hne
  · rintro ⟨text, type, htext, hne, htype, hsplit⟩
    refine ⟨(List.getElem?_eq_some_iff.1 htext).1, ⟨by rw [htype]; rfl, ?_⟩, by rw [htext]; rfl, ?_⟩
    · simp only [htype, Option.get_some, hsplit]
    · simp only [htext, Option.get_some, Bool.not_eq_true', List.isEmpty_eq_false_iff]
      exact hne

/-- What a fragment stands for. -/
def GgufVocab.content (vocab : GgufVocab) : Fragment → Text
  | .text raw => raw
  | .token id => vocab.tokens[id]?.getD []

/-- Fragments make up a text; none is empty, and the tokens among them may be split out. -/
structure Partition (vocab : GgufVocab) (parseSpecial : Bool) (fragments : List Fragment)
    (text : Text) : Prop where
  content_eq : fragments.flatMap vocab.content = text
  ne_nil : ∀ raw, .text raw ∈ fragments → raw ≠ []
  split : ∀ id, .token id ∈ fragments →
    id ∈ vocab.preSplitIds ∧ (parseSpecial = true ∨ vocab.isSpecial id = false)

theorem Partition.append {a b : List Fragment} {first second : Text}
    (ha : Partition vocab parseSpecial a first) (hb : Partition vocab parseSpecial b second) :
    Partition vocab parseSpecial (a ++ b) (first ++ second) where
  content_eq := by rw [List.flatMap_append, ha.content_eq, hb.content_eq]
  ne_nil raw hraw := (List.mem_append.1 hraw).elim (ha.ne_nil raw) (hb.ne_nil raw)
  split id hid := (List.mem_append.1 hid).elim (ha.split id) (hb.split id)

theorem partition_text (hne : raw ≠ []) : Partition vocab parseSpecial [.text raw] raw where
  content_eq := List.append_nil raw
  ne_nil raw' hraw := by
    rcases List.mem_singleton.1 hraw with ⟨⟩
    exact hne
  split := by simp

theorem partition_nil : Partition vocab parseSpecial [] [] where
  content_eq := rfl
  ne_nil := by simp
  split := by simp

theorem partition_token {needle : Text} (hneedle : vocab.tokens[id]? = some needle)
    (hid : id ∈ vocab.preSplitIds) (hspecial : parseSpecial = true ∨ vocab.isSpecial id = false) :
    Partition vocab parseSpecial [.token id] needle where
  content_eq := by
    simp only [List.flatMap_cons, List.flatMap_nil, List.append_nil, GgufVocab.content, hneedle,
      Option.getD_some]
  ne_nil := by simp
  split id' hid' := by
    rcases List.mem_singleton.1 hid' with ⟨⟩
    exact ⟨hid, hspecial⟩

/-- One token is split out of one text. -/
theorem splitOut_spec {needle : Text} (hneedle : vocab.tokens[id]? = some needle)
    (hid : id ∈ vocab.preSplitIds) (hspecial : parseSpecial = true ∨ vocab.isSpecial id = false)
    {fuel : ℕ} {rest : Text} (hfuel : rest.length < fuel) :
    ∃ next, splitOut needle id fuel rest = some next ∧
      Partition vocab parseSpecial next rest := by
  have hne : needle ≠ [] := by
    obtain ⟨text, -, htext, hne, -⟩ := GgufVocab.mem_preSplitIds.1 hid
    rw [hneedle] at htext
    exact Option.some.inj htext ▸ hne
  induction fuel generalizing rest with
  | zero => omega
  | succ fuel ih =>
    rw [splitOut]
    rcases hfind : rest.find needle with - | pos
    · by_cases hrest : rest = []
      · exact ⟨[], by simp [hrest], hrest ▸ partition_nil⟩
      · exact ⟨[.text rest], by simp [hrest], partition_text hrest⟩
    · obtain ⟨before, behind, rfl, rfl, -⟩ := Text.find_eq_some_iff.1 hfind
      have hlength := List.length_pos_of_ne_nil hne
      have hbehind : behind.length < fuel := by
        simp only [List.length_append] at hfuel
        omega
      obtain ⟨next, hnext, hpartition⟩ := ih hbehind
      have htoken := (partition_token hneedle hid hspecial).append hpartition
      have hcut : Text.splitAt before.len (before ++ needle ++ behind) =
          some (before, needle ++ behind) := by
        rw [List.append_assoc, Text.splitAt_append]
      simp only [hcut, Text.splitAt_append, Option.bind_eq_bind, Option.bind_some, hnext]
      by_cases hbefore : before = []
      · subst hbefore
        exact ⟨_, rfl, htoken⟩
      · have hpos : before.len > 0 := by
          have := mt Text.len_eq_zero hbefore
          omega
        refine ⟨_, rfl, ?_⟩
        rw [if_pos hpos, List.append_assoc]
        exact (partition_text hbefore).append htoken

/-- The round of one token. -/
theorem splitRound_spec (h : Partition vocab parseSpecial fragments text)
    (hid : id ∈ vocab.preSplitIds) :
    ∃ next, vocab.splitRound parseSpecial fragments id = some next ∧
      Partition vocab parseSpecial next text := by
  by_cases hskip : (!parseSpecial && vocab.isSpecial id) = true
  · exact ⟨fragments, by rw [GgufVocab.splitRound, if_pos hskip], h⟩
  · have hspecial : parseSpecial = true ∨ vocab.isSpecial id = false := by
      rcases parseSpecial with - | -
      · exact .inr (by simpa using hskip)
      · exact .inl rfl
    obtain ⟨needle, -, hneedle, -⟩ := GgufVocab.mem_preSplitIds.1 hid
    suffices ∃ parts, fragments.mapM (splitFragment needle id) = some parts ∧
        Partition vocab parseSpecial parts.flatten text by
      obtain ⟨parts, hparts, hpartition⟩ := this
      refine ⟨parts.flatten, ?_, hpartition⟩
      rw [GgufVocab.splitRound, if_neg hskip, hneedle]
      simp only [Option.bind_eq_bind, Option.bind_some, hparts]
      rfl
    clear hskip
    induction fragments generalizing text with
    | nil =>
      obtain rfl := h.content_eq
      exact ⟨[], rfl, partition_nil⟩
    | cons fragment fragments ih =>
      obtain rfl := h.content_eq
      have htail : Partition vocab parseSpecial fragments (fragments.flatMap vocab.content) :=
        ⟨rfl, fun raw hraw => h.ne_nil raw (List.mem_cons_of_mem _ hraw),
          fun id hid => h.split id (List.mem_cons_of_mem _ hid)⟩
      obtain ⟨parts, hparts, hrest⟩ := ih htail
      have hfirst : ∃ next, splitFragment needle id fragment = some next ∧
          Partition vocab parseSpecial next (vocab.content fragment) := by
        rcases fragment with raw | t
        · exact splitOut_spec hneedle hid hspecial (Nat.lt_succ_self _)
        · refine ⟨_, rfl, ?_⟩
          obtain ⟨ht, htspecial⟩ := h.split t List.mem_cons_self
          obtain ⟨_, -, htext, -⟩ := GgufVocab.mem_preSplitIds.1 ht
          have hcontent := partition_token htext ht htspecial
          rw [GgufVocab.content, htext]
          exact hcontent
      obtain ⟨next, hnext, hpartition⟩ := hfirst
      refine ⟨next :: parts, ?_, ?_⟩
      · rw [List.mapM_cons, hnext, hparts]
        rfl
      · rw [List.flatten_cons, List.flatMap_cons]
        exact hpartition.append hrest

/-- **Splitting out special tokens** keeps the text. -/
theorem partitionSpecials_spec (vocab : GgufVocab) (text : Text) (parseSpecial : Bool) :
    ∃ fragments, vocab.partitionSpecials text parseSpecial = some fragments ∧
      Partition vocab parseSpecial fragments text := by
  have hrounds : ∀ (ids : List ℕ) (fragments : List Fragment),
      (∀ id ∈ ids, id ∈ vocab.preSplitIds) →
      Partition vocab parseSpecial fragments text →
      ∃ next, ids.foldlM (vocab.splitRound parseSpecial) fragments = some next ∧
        Partition vocab parseSpecial next text := by
    intro ids
    induction ids with
    | nil => exact fun fragments _ h => ⟨fragments, rfl, h⟩
    | cons id ids ih =>
      intro fragments hids h
      obtain ⟨next, hnext, hpartition⟩ := splitRound_spec h (hids id List.mem_cons_self)
      rw [List.foldlM_cons, hnext]
      exact ih next (fun id hid => hids id (List.mem_cons_of_mem _ hid)) hpartition
  refine hrounds _ _ (fun id hid => hid) ?_
  by_cases htext : text = []
  · subst htext
    exact partition_nil
  · rw [if_neg (by simpa using htext)]
    exact partition_text htext

end Partition

end Vocab

end Oxillama
