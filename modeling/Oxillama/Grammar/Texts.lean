/-
Texts of grammar expressions: how they are put together, and what they generate.

* `Spelled e ts` — the text `e` is that of the tokens `ts`; one lemma for each way the
  text of an expression is made from the texts of others;
* `Lang g ts` — what the tokens generate;
* `Covers g e L` — the text `e` generates encodings of texts in `L` only;
* `Means g e L` — the same for a text without a bar, which may stand next to others.
-/
import Mathlib
import Oxillama.Grammar.Language
import Oxillama.Grammar.Tokens

namespace Oxillama

namespace Grammar

open scoped Computability

/-! ### Spelling -/

/-- `e` is the text of the tokens `ts`. -/
def Spelled (e : String) (ts : List Tok) : Prop := bytes e = textOf ts ∧ Valid ts

theorem textOf_append (ts ts' : List Tok) : textOf (ts ++ ts') = textOf ts ++ textOf ts' := by
  induction ts with
  | nil => rfl
  | cons tok ts ih =>
    cases tok with
    | item t node =>
      show t ++ textOf (ts ++ ts') = (t ++ textOf ts) ++ textOf ts'
      rw [ih, List.append_assoc]
    | space => exact congrArg (0x20 :: ·) ih
    | bar => exact congrArg (0x7c :: ·) ih

/-- Tokens go together when the second ones begin with a space. -/
theorem Valid.append {ts ts' : List Tok} (h : Valid ts) (h' : Valid ts') :
    Valid (ts ++ .space :: ts') := by
  induction ts with
  | nil => exact h'
  | cons tok ts ih =>
    cases tok with
    | item t node =>
      obtain ⟨hitem, hsep, hvalid⟩ := h
      refine ⟨hitem, .inr ?_, ih hvalid⟩
      rcases hsep with rfl | hhead
      · rfl
      · cases ts with
        | nil => cases hhead
        | cons tok ts => exact hhead
    | space => exact ih h
    | bar => exact ih h

section Spelling

variable {a b e e' : String} {ts ts' : List Tok} {node : GrammarNode}

theorem Spelled.congr (h : Spelled e ts) (he : bytes e' = bytes e) : Spelled e' ts :=
  ⟨he.trans h.1, h.2⟩

theorem spelled_empty : Spelled "" [] := ⟨rfl, trivial⟩

/-- Two expressions, one after the other. -/
theorem Spelled.seq (h : Spelled a ts) (h' : Spelled b ts') :
    Spelled (a ++ " " ++ b) (ts ++ .space :: ts') := by
  refine ⟨?_, h.2.append h'.2⟩
  rw [bytes_append, bytes_append, h.1, h'.1, textOf_append, List.append_assoc]
  rfl

/-- Alternatives. -/
theorem Spelled.alt (h : Spelled a ts) (h' : Spelled b ts') :
    Spelled (a ++ " | " ++ b) (ts ++ .space :: .bar :: .space :: ts') := by
  refine ⟨?_, h.2.append h'.2⟩
  rw [bytes_append, bytes_append, h.1, h'.1, textOf_append, List.append_assoc]
  rfl

theorem spelled_item (h : ReadsItem (bytes e) node) : Spelled e [.item (bytes e) node] :=
  ⟨(List.append_nil _).symm, h, .inl rfl, trivial⟩

theorem bytes_quoted (cs : Text) :
    bytes ("\"" ++ String.ofList (cs.flatMap literalChar) ++ "\"") = quoted cs := by
  rw [bytes_append, bytes_append, bytes_ofList (cs.flatMap literalChar), List.append_assoc]
  rfl

/-- A string literal. -/
theorem spelled_literal (cs : Text) :
    Spelled ("\"" ++ String.ofList (cs.flatMap literalChar) ++ "\"")
      [.item (quoted cs) (.literal (encode cs))] := by
  have h := spelled_item (e := "\"" ++ String.ofList (cs.flatMap literalChar) ++ "\"")
    (by rw [bytes_quoted]; exact (readsAtom_quoted cs).item)
  rwa [bytes_quoted] at h

/-- A reference to a rule. -/
theorem spelled_ref {name : String} (h : IsIdent name) :
    Spelled name [.item (bytes name) (.ruleRef name)] :=
  spelled_item (readsAtom_ident h).item

theorem bytes_group (h : Spelled e ts) :
    bytes ("(" ++ e ++ ")") = 0x28 :: (textOf ts ++ [0x29]) := by
  rw [bytes_append, bytes_append, h.1, List.append_assoc]
  rfl

/-- Parentheses. -/
theorem Spelled.group (h : Spelled e ts) :
    Spelled ("(" ++ e ++ ")") [.item (0x28 :: (textOf ts ++ [0x29])) (altNode (alts ts))] :=
  ⟨(bytes_group h).trans (List.append_nil _).symm, (readsAtom_group h.2).item, .inl rfl, trivial⟩

/-- Parentheses and a quantifier. -/
theorem Spelled.quantified (h : Spelled e ts) (q : String) (b : UInt8) (min : ℕ)
    (max : Option ℕ) (hq : bytes q = [b])
    (hb : (b, min, max) ∈ [(0x2a, 0, none), (0x2b, 1, none), (0x3f, 0, some 1)]) :
    Spelled ("(" ++ e ++ ")" ++ q)
      [.item (0x28 :: (textOf ts ++ [0x29]) ++ [b]) (.repeat (altNode (alts ts)) min max)] := by
  refine ⟨?_, (readsAtom_group h.2).quantified b min max hb, .inl rfl, trivial⟩
  rw [bytes_append, bytes_group h, hq]
  exact (List.append_nil _).symm

end Spelling

/-! ### What tokens generate -/

/-- What the alternatives of the tokens generate. -/
def Lang (g : Grammar) (ts : List Tok) (w : List UInt8) : Prop :=
  ∃ items ∈ alts ts, Generates g (.sequence items) w

/-- Tokens without a bar. -/
def Plain (ts : List Tok) : Prop := fromBar ts = []

section Tokens

variable {g : Grammar} {ts ts' : List Tok} {w : List UInt8}

theorem alts_plain (h : Plain ts) : alts ts = [firstItems ts] := by
  rw [alts_eq, restAlts, h]

theorem Plain.append (h : Plain ts) (h' : Plain ts') : Plain (ts ++ ts') := by
  induction ts with
  | nil => exact h'
  | cons tok ts ih =>
    cases tok with
    | item => exact ih h
    | space => exact ih h
    | bar => cases h

theorem firstItems_append (h : Plain ts) (ts' : List Tok) :
    firstItems (ts ++ ts') = firstItems ts ++ firstItems ts' := by
  induction ts with
  | nil => rfl
  | cons tok ts ih =>
    cases tok with
    | item t node => exact congrArg (node :: ·) (ih h)
    | space => exact ih h
    | bar => cases h

theorem alts_append_bar (ts ts' : List Tok) : alts (ts ++ .bar :: ts') = alts ts ++ alts ts' := by
  induction ts with
  | nil => rfl
  | cons tok ts ih =>
    cases tok with
    | item t node =>
      rw [List.cons_append, alts, alts, ih, alts_eq ts]
      rfl
    | space => exact ih
    | bar => exact congrArg ([] :: ·) ih

theorem alts_append_space (ts ts' : List Tok) : alts (ts ++ .space :: ts') = alts (ts ++ ts') := by
  induction ts with
  | nil => rfl
  | cons tok ts ih =>
    cases tok with
    | item t node => rw [List.cons_append, List.cons_append, alts, alts, ih]
    | space => exact ih
    | bar => exact congrArg ([] :: ·) ih

theorem generates_seqNode {items : List GrammarNode} :
    Generates g (seqNode items) w ↔ Generates g (.sequence items) w := by
  match items with
  | [] =>
    rw [generates_sequence_nil]
    constructor
    · intro h
      cases h
      rfl
    · rintro rfl
      exact .literal []
  | [item] => exact generates_singleton.symm
  | item :: item' :: items => exact Iff.rfl

/-- The node of alternatives generates what they do. -/
theorem generates_altNode {ts : List Tok} : Generates g (altNode (alts ts)) w ↔ Lang g ts w := by
  have hmany : Generates g (.alternation ((alts ts).map seqNode)) w ↔ Lang g ts w := by
    constructor
    · intro h
      cases h with
      | alternation hmem h =>
        obtain ⟨items, hitems, rfl⟩ := List.mem_map.mp hmem
        exact ⟨items, hitems, generates_seqNode.mp h⟩
    · rintro ⟨items, hitems, h⟩
      exact .alternation (List.mem_map_of_mem hitems) (generates_seqNode.mpr h)
  unfold Lang at hmany ⊢
  generalize alts ts = alternatives at hmany ⊢
  rcases alternatives with _ | ⟨items, _ | ⟨items', rest⟩⟩
  · exact hmany
  · simp only [List.mem_singleton, exists_eq_left]
    exact generates_seqNode
  · exact hmany

theorem lang_item {t : List UInt8} {node : GrammarNode} :
    Lang g [.item t node] w ↔ Generates g node w := by
  show (∃ items ∈ [[node]], Generates g (.sequence items) w) ↔ _
  simp only [List.mem_singleton, exists_eq_left]
  exact generates_singleton

/-- Tokens without bars generate one after the other. -/
theorem lang_append (h : Plain ts) (h' : Plain ts') :
    Lang g (ts ++ .space :: ts') w ↔ ∃ u v, w = u ++ v ∧ Lang g ts u ∧ Lang g ts' v := by
  unfold Lang
  rw [alts_append_space, alts_plain (h.append h'), firstItems_append h, alts_plain h,
    alts_plain h']
  simp only [List.mem_singleton, exists_eq_left]
  exact generates_sequence_append

theorem lang_alt : Lang g (ts ++ .space :: .bar :: .space :: ts') w ↔
    Lang g ts w ∨ Lang g ts' w := by
  have halts : alts (ts ++ .space :: .bar :: .space :: ts') = alts ts ++ alts ts' := by
    rw [alts_append_space, alts_append_bar]
    rfl
  unfold Lang
  rw [halts]
  simp only [List.mem_append, or_and_right, exists_or]

end Tokens

/-! ### What texts generate -/

/-- The text `e` generates encodings of texts in `L` only. -/
def Covers (g : Grammar) (e : String) (L : Language Char) : Prop :=
  ∃ ts, Spelled e ts ∧ ∀ w, Lang g ts w → ∃ t ∈ L, w = encode t

/-- The text `e` has no bar and generates encodings of texts in `L` only. -/
def Means (g : Grammar) (e : String) (L : Language Char) : Prop :=
  ∃ ts, Spelled e ts ∧ Plain ts ∧ ∀ w, Lang g ts w → ∃ t ∈ L, w = encode t

section Meaning

variable {g : Grammar} {a b e e' : String} {L M : Language Char}

theorem Means.covers (h : Means g e L) : Covers g e L := by
  obtain ⟨ts, hts, -, hw⟩ := h
  exact ⟨ts, hts, hw⟩

theorem Covers.mono (h : Covers g e L) (hle : L ≤ M) : Covers g e M := by
  obtain ⟨ts, hts, hw⟩ := h
  refine ⟨ts, hts, fun w hlang => ?_⟩
  obtain ⟨t, ht, rfl⟩ := hw w hlang
  exact ⟨t, hle ht, rfl⟩

theorem Means.mono (h : Means g e L) (hle : L ≤ M) : Means g e M := by
  obtain ⟨ts, hts, hplain, hw⟩ := h
  refine ⟨ts, hts, hplain, fun w hlang => ?_⟩
  obtain ⟨t, ht, rfl⟩ := hw w hlang
  exact ⟨t, hle ht, rfl⟩

theorem Means.congr (h : Means g e L) (he : bytes e' = bytes e) : Means g e' L := by
  obtain ⟨ts, hts, hw⟩ := h
  exact ⟨ts, hts.congr he, hw⟩

theorem means_empty : Means g "" 1 := by
  refine ⟨[], spelled_empty, rfl, fun w h => ?_⟩
  obtain ⟨items, hitems, h⟩ := h
  obtain rfl := List.mem_singleton.mp hitems
  exact ⟨[], rfl, generates_sequence_nil.mp h⟩

/-- The empty text generates the empty string. -/
theorem Means.nil_mem (h : Means g "" L) : [] ∈ L := by
  obtain ⟨ts, ⟨htext, hvalid⟩, -, hw⟩ := h
  have hnil : ts = [] := by
    match ts, htext, hvalid with
    | [], _, _ => rfl
    | .item t node :: ts, htext, hvalid =>
      obtain ⟨b, t, rfl, -⟩ := hvalid.1.starts
      cases htext
    | .space :: ts, htext, _ => cases htext
    | .bar :: ts, htext, _ => cases htext
  subst hnil
  obtain ⟨t, ht, heq⟩ := hw [] ⟨[], List.mem_singleton.mpr rfl, .sequenceNil⟩
  obtain rfl := encode_injective (encode_nil.trans heq)
  exact ht

theorem Means.seq (h : Means g a L) (h' : Means g b M) : Means g (a ++ " " ++ b) (L * M) := by
  obtain ⟨ts, hts, hplain, hw⟩ := h
  obtain ⟨ts', hts', hplain', hw'⟩ := h'
  refine ⟨_, hts.seq hts', hplain.append hplain', fun w hlang => ?_⟩
  obtain ⟨u, v, rfl, hu, hv⟩ := (lang_append hplain hplain').mp hlang
  obtain ⟨t, ht, rfl⟩ := hw u hu
  obtain ⟨t', ht', rfl⟩ := hw' v hv
  exact ⟨t ++ t', Language.append_mem_mul ht ht', (encode_append t t').symm⟩

theorem Covers.alt (h : Covers g a L) (h' : Covers g b L) : Covers g (a ++ " | " ++ b) L := by
  obtain ⟨ts, hts, hw⟩ := h
  obtain ⟨ts', hts', hw'⟩ := h'
  refine ⟨_, hts.alt hts', fun w hlang => ?_⟩
  rcases lang_alt.mp hlang with hlang | hlang
  · exact hw w hlang
  · exact hw' w hlang

/-- A text that is one item means what the item does. -/
private theorem means_item {t : List UInt8} {node : GrammarNode}
    (hs : Spelled e [.item t node])
    (hw : ∀ w, Generates g node w → ∃ t ∈ L, w = encode t) : Means g e L :=
  ⟨_, hs, rfl, fun w h => hw w (lang_item.mp h)⟩

theorem means_literal (cs : Text) :
    Means g ("\"" ++ String.ofList (cs.flatMap literalChar) ++ "\"") {cs} := by
  refine means_item (spelled_literal cs) fun w h => ?_
  cases h
  exact ⟨cs, rfl, rfl⟩

/-- A reference means what the rule does. -/
theorem means_ref {name : String} {ts : List Tok} (hname : IsIdent name)
    (hl : g.rules.lookup name = some (altNode (alts ts)))
    (hw : ∀ w, Lang g ts w → ∃ t ∈ L, w = encode t) : Means g name L := by
  refine means_item (spelled_ref hname) fun w h => ?_
  cases h with
  | ruleRef hl' h =>
    obtain rfl := Option.some.inj (hl.symm.trans hl')
    exact hw w (generates_altNode.mp h)

theorem Covers.group (h : Covers g e L) : Means g ("(" ++ e ++ ")") L := by
  obtain ⟨ts, hts, hw⟩ := h
  exact means_item hts.group fun w h => hw w (generates_altNode.mp h)

/-- Concatenations of encodings encode concatenations. -/
private theorem exists_flatten {ws : List (List UInt8)} (h : ∀ w ∈ ws, ∃ t ∈ L, w = encode t) :
    ∃ tss : List Text, (∀ t ∈ tss, t ∈ L) ∧ tss.length = ws.length ∧
      ws.flatten = encode tss.flatten := by
  induction ws with
  | nil => exact ⟨[], by simp, rfl, rfl⟩
  | cons w ws ih =>
    obtain ⟨t, ht, rfl⟩ := h w List.mem_cons_self
    obtain ⟨tss, htss, hlen, heq⟩ := ih fun x hx => h x (List.mem_cons_of_mem _ hx)
    refine ⟨t :: tss, ?_, congrArg (· + 1) hlen, ?_⟩
    · intro x hx
      rcases List.mem_cons.mp hx with rfl | hx
      · exact ht
      · exact htss x hx
    · rw [List.flatten_cons, List.flatten_cons, heq, encode_append]

theorem Covers.star (h : Covers g e L) : Means g ("(" ++ e ++ ")*") L∗ := by
  obtain ⟨ts, hts, hw⟩ := h
  have hspelled := hts.quantified "*" 0x2a 0 none rfl (by simp)
  refine means_item (hspelled.congr (by rw [bytes_append, bytes_append, bytes_append, bytes_append,
    bytes_append, List.append_assoc, List.append_assoc]; rfl)) fun w h => ?_
  cases h with
  | «repeat» _ _ h =>
    obtain ⟨tss, htss, -, heq⟩ :=
      exists_flatten fun w hmem => hw w (generates_altNode.mp (h w hmem))
    exact ⟨tss.flatten, Language.join_mem_kstar htss, heq⟩

theorem Covers.opt (h : Covers g e L) : Means g ("(" ++ e ++ ")?") (1 + L) := by
  obtain ⟨ts, hts, hw⟩ := h
  have hspelled := hts.quantified "?" 0x3f 0 (some 1) rfl (by simp)
  refine means_item (hspelled.congr (by rw [bytes_append, bytes_append, bytes_append, bytes_append,
    bytes_append, List.append_assoc, List.append_assoc]; rfl)) fun w h => ?_
  cases h with
  | @«repeat» _ _ _ ws _ hmax h =>
    match ws, hmax 1 rfl, h with
    | [], _, _ => exact ⟨[], .inl rfl, rfl⟩
    | [w], _, h =>
      obtain ⟨t, ht, heq⟩ := hw w (generates_altNode.mp (h w List.mem_cons_self))
      exact ⟨t, .inr ht, (List.append_nil w).trans heq⟩

end Meaning

end Grammar

end Oxillama
