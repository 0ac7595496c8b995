/-
The pre-tokenizer (`oxillama-runtime/src/gguf_vocab/pretok.rs`).

Regexes cut a text into pieces, each regex the pieces of the one before it.  What a regex
matches is a parameter; it is only assumed that its matches come in order (`Regex.Ordered`).

* `split_spec` — **the pieces make up the text**, whatever the regexes match.
-/
import Oxillama.Vocab.GgufVocab

namespace Oxillama

namespace Vocab

/-- `&piece[start..stop]` as a piece, if it is not empty. -/
def span (piece : Text) (start stop : ℕ) : Option (List Text) :=
  if start < stop then (piece.slice start stop).map ([·]) else some []

/-- The loop of `split_one` over the matches, behind `last_end`. -/
def splitMatches (piece : Text) (out : List Text) (lastEnd : ℕ) :
    List (Option (ℕ × ℕ)) → Option (List Text)
  | [] => do
    let rest ← span piece lastEnd piece.len
    return out ++ rest
  | none :: _ => some [piece]
  | some (start, stop) :: found => do
    let gap ← span piece lastEnd start
    let hit ← span piece start stop
    splitMatches piece (out ++ gap ++ hit) stop found

/-- `split_one`. -/
def splitOne (regex : Regex) (piece : Text) : Option (List Text) :=
  if piece.isEmpty then some [] else splitMatches piece [] 0 (regex piece)

/-- The pieces of the regexes from one on. -/
def splitAll (pieces : List Text) : List Regex → Option (List Text)
  | [] => some (pieces.filter fun p => !p.isEmpty)
  | regex :: regexes => do
    let next ← pieces.mapM (splitOne regex)
    splitAll next.flatten regexes

/-- `PreTokenizer::split`. -/
def split (regexes : List Regex) (text : Text) : Option (List Text) := splitAll [text] regexes

/-! ### Matches in order -/

/-- Matches that lie in order, and do not overlap, in the rest of a text behind `before`. -/
def InOrder (before rest : Text) : List (Option (ℕ × ℕ)) → Prop
  | [] => True
  | none :: _ => True
  | some (start, stop) :: found => ∃ gap hit post, rest = gap ++ hit ++ post ∧
      start = (before ++ gap).len ∧ stop = (before ++ gap ++ hit).len ∧
      InOrder (before ++ gap ++ hit) post found

/-- A regex returns ordered matches that do not overlap, between characters. -/
def Regex.Ordered (regex : Regex) : Prop := ∀ piece, InOrder [] piece (regex piece)

variable {before piece : Text} {out : List Text}

/-- A span between two boundaries. -/
theorem span_spec (before mid post : Text) : ∃ parts,
    span (before ++ mid ++ post) before.len (before ++ mid).len = some parts ∧
      parts.flatten = mid := by
  rw [span]
  by_cases hlt : before.len < (before ++ mid).len
  · refine ⟨[mid], ?_, List.append_nil mid⟩
    rw [if_pos hlt, Text.slice_append]
    rfl
  · refine ⟨[], if_neg hlt, ?_⟩
    rw [Text.len_append] at hlt
    exact (Text.len_eq_zero (by omega)).symm

/-- The pieces of a text that is cut at its matches. -/
theorem splitMatches_spec {rest : Text} {found : List (Option (ℕ × ℕ))}
    (h : InOrder before rest found) (hpiece : piece = before ++ rest)
    (hout : out.flatten = before) :
    ∃ parts, splitMatches piece out before.len found = some parts ∧ parts.flatten = piece := by
  induction found generalizing before rest out with
  | nil =>
    obtain ⟨parts, hparts, hflatten⟩ := span_spec before rest []
    rw [List.append_nil, ← hpiece] at hparts
    refine ⟨out ++ parts, ?_, ?_⟩
    · rw [splitMatches, hparts]
      rfl
    · rw [List.flatten_append, hout, hflatten, hpiece]
  | cons first found ih =>
    rcases first with - | ⟨start, stop⟩
    · exact ⟨[piece], rfl, List.append_nil piece⟩
    · obtain ⟨gap, hit, post, rfl, rfl, rfl, hrest⟩ := h
      obtain ⟨gapParts, hgap, hgapText⟩ := span_spec before gap (hit ++ post)
      obtain ⟨hitParts, hhit, hhitText⟩ := span_spec (before ++ gap) hit post
      have hcut : piece = before ++ gap ++ (hit ++ post) := by
        rw [hpiece]
        simp only [List.append_assoc]
      have hcut' : piece = before ++ gap ++ hit ++ post := by
        rw [hcut, List.append_assoc _ hit]
      rw [← hcut] at hgap
      rw [← hcut'] at hhit
      have hout' : (out ++ gapParts ++ hitParts).flatten = before ++ gap ++ hit := by
        rw [List.flatten_append, List.flatten_append, hout, hgapText, hhitText]
      obtain ⟨parts, hparts, hflatten⟩ := ih hrest hcut' hout'
      refine ⟨parts, ?_, hflatten⟩
      rw [splitMatches, hgap]
      simp only [Option.bind_eq_bind, Option.bind_some, hhit, hparts]

/-- One regex keeps the text of a piece. -/
theorem splitOne_spec {regex : Regex} (h : regex.Ordered) (piece : Text) :
    ∃ parts, splitOne regex piece = some parts ∧ parts.flatten = piece := by
  by_cases hpiece : piece = []
  · subst hpiece
    exact ⟨[], rfl, rfl⟩
  · have hstart : ([] : List Text).flatten = [] := rfl
    obtain ⟨parts, hparts, hflatten⟩ :=
      splitMatches_spec (h piece) (List.nil_append piece).symm hstart
    refine ⟨parts, ?_, hflatten⟩
    rw [splitOne, if_neg (by simpa using hpiece)]
    exact hparts

/-- One regex keeps the text of the pieces. -/
theorem mapM_splitOne_spec {regex : Regex} (h : regex.Ordered) (pieces : List Text) :
    ∃ next, pieces.mapM (splitOne regex) = some next ∧ next.flatten.flatten = pieces.flatten := by
  induction pieces with
  | nil => exact ⟨[], rfl, rfl⟩
  | cons piece pieces ih =>
    obtain ⟨parts, hparts, hflatten⟩ := splitOne_spec h piece
    obtain ⟨next, hnext, hrest⟩ := ih
    refine ⟨parts :: next, ?_, ?_⟩
    · rw [List.mapM_cons, hparts, hnext]
      rfl
    · rw [List.flatten_cons, List.flatten_append, hflatten, hrest, List.flatten_cons]

/-- **The pieces make up the text.** -/
theorem split_spec {regexes : List Regex} (h : ∀ regex ∈ regexes, regex.Ordered) (text : Text) :
    ∃ pieces, split regexes text = some pieces ∧ pieces.flatten = text := by
  have hall : ∀ (regexes : List Regex) (pieces : List Text), (∀ regex ∈ regexes, regex.Ordered) →
      ∃ parts, splitAll pieces regexes = some parts ∧ parts.flatten = pieces.flatten := by
    intro regexes
    induction regexes with
    | nil =>
      intro pieces _
      refine ⟨_, rfl, ?_⟩
      induction pieces with
      | nil => rfl
      | cons piece pieces ih =>
        rcases piece with - | ⟨c, piece⟩
        · exact ih
        · exact congrArg (c :: piece ++ ·) ih
    | cons regex regexes ih =>
      intro pieces h
      obtain ⟨next, hnext, hflatten⟩ := mapM_splitOne_spec (h regex List.mem_cons_self) pieces
      obtain ⟨parts, hparts, hrest⟩ :=
        ih next.flatten fun regex hregex => h regex (List.mem_cons_of_mem _ hregex)
      refine ⟨parts, ?_, hrest.trans hflatten⟩
      rw [splitAll, hnext]
      exact hparts
  obtain ⟨pieces, hpieces, hflatten⟩ := hall regexes [text] h
  exact ⟨pieces, hpieces, hflatten.trans (List.append_nil text)⟩

end Vocab

end Oxillama
