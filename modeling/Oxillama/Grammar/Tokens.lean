/-
What the grammar parser makes of text that is put together from pieces.

A text is spelled by tokens: items, the spaces between them, and the bars between
alternatives.  Putting texts side by side puts their tokens side by side, so a text
with a bar in it, put next to an item without parentheses around it, takes the item into
one of its alternatives.

* `alts` — the alternatives that tokens spell, as sequences of nodes;
* `runs_alternation` — the parser reads the text of tokens as just these;
* `Spells e ts` — the text `e` is spelled by `ts`, and each item is read as its node.
-/
import Oxillama.Grammar.Scanning

namespace Oxillama

namespace Grammar

/-! ### Atoms and items -/

/-- What may stand after an item: a space, a closing parenthesis or the end of the line. -/
def Follows (s : List UInt8) : Prop := ∃ b t, s = b :: t ∧ b ∈ [0x20, 0x29, 0x0a]

/-- What may stand after an atom: a quantifier too. -/
def FollowsAtom (s : List UInt8) : Prop :=
  ∃ b t, s = b :: t ∧ b ∈ [0x20, 0x29, 0x0a, 0x2a, 0x2b, 0x3f]

/-- The text begins an item. -/
def Starts (t : List UInt8) : Prop :=
  ∃ b t', t = b :: t' ∧ asChar b ∉ [' ', '\t', '\n', '\r', '|', ')', '#']

/-- `parse_atom` reads the text as the node. -/
structure ReadsAtom (t : List UInt8) (node : GrammarNode) : Prop where
  starts : Starts t
  runs : ∀ n, t.length ≤ n → ∀ s, FollowsAtom s →
    Runs (parseAtom (parseAlternation n)) (t ++ s) node s

/-- `parse_item` reads the text as the node. -/
structure ReadsItem (t : List UInt8) (node : GrammarNode) : Prop where
  starts : Starts t
  runs : ∀ n, t.length ≤ n → ∀ s, Follows s →
    Runs (parseItem (parseAlternation n)) (t ++ s) node s

theorem Starts.append {t : List UInt8} (h : Starts t) (s : List UInt8) : Starts (t ++ s) := by
  obtain ⟨b, t', rfl, hb⟩ := h
  exact ⟨b, t' ++ s, rfl, hb⟩

theorem Follows.followsAtom {s : List UInt8} (h : Follows s) : FollowsAtom s := by
  obtain ⟨b, t, rfl, hb⟩ := h
  refine ⟨b, t, rfl, ?_⟩
  simp only [List.mem_cons, List.not_mem_nil, or_false] at hb ⊢
  tauto

section Items

variable {t : List UInt8} {node : GrammarNode}

/-- An atom without a quantifier. -/
theorem ReadsAtom.item (h : ReadsAtom t node) : ReadsItem t node := by
  refine ⟨h.starts, fun n hn s hs => ?_⟩
  refine (h.runs n hn s hs.followsAtom).bind ?_
  obtain ⟨b, s, rfl, hb⟩ := hs
  simp only [List.mem_cons, List.not_mem_nil, or_false] at hb
  refine (runs_peek _).bind ?_
  rcases hb with rfl | rfl | rfl
  · exact runs_pure node _
  · exact runs_pure node _
  · exact runs_pure node _

/-- An atom with a quantifier. -/
theorem ReadsAtom.quantified (h : ReadsAtom t node) (b : UInt8) (min : ℕ) (max : Option ℕ)
    (hb : (b, min, max) ∈ [(0x2a, 0, none), (0x2b, 1, none), (0x3f, 0, some 1)]) :
    ReadsItem (t ++ [b]) (.repeat node min max) := by
  have hquantifier : ∀ s, Runs (parseQuantifier node) (b :: s) (.repeat node min max) s := by
    intro s
    simp only [List.mem_cons, List.not_mem_nil, or_false, Prod.mk.injEq] at hb
    rcases hb with ⟨rfl, rfl, rfl⟩ | ⟨rfl, rfl, rfl⟩ | ⟨rfl, rfl, rfl⟩
    · exact fun pos => ⟨pos + 1, rfl⟩
    · exact fun pos => ⟨pos + 1, rfl⟩
    · exact fun pos => ⟨pos + 1, rfl⟩
  refine ⟨h.starts.append [b], fun n hn s hs => ?_⟩
  rw [List.length_append, List.length_singleton] at hn
  rw [List.append_assoc]
  refine (h.runs n (by omega) (b :: s) ⟨b, s, rfl, ?_⟩).bind (hquantifier s)
  simp only [List.mem_cons, List.not_mem_nil, or_false, Prod.mk.injEq] at hb ⊢
  tauto

theorem readsAtom_quoted (cs : Text) : ReadsAtom (quoted cs) (.literal (encode cs)) := by
  refine ⟨⟨0x22, _, rfl, by decide⟩, fun n _ s _ => ?_⟩
  exact (runs_peek _).bind (runs_parseStringLiteral cs s)

theorem readsAtom_ident {name : String} (hname : IsIdent name) :
    ReadsAtom (bytes name) (.ruleRef name) := by
  obtain ⟨b, t, hbytes, hb⟩ := hname.bytes
  have hne : ∀ c : Char, c.isAlpha = false → c ≠ '_' → asChar b ≠ c := by
    rintro c hc hc' rfl
    rw [isIdentStart, hc, Bool.false_or, beq_iff_eq] at hb
    exact hc' hb
  refine ⟨⟨b, t, hbytes, ?_⟩, fun n _ s hs => ?_⟩
  · simp only [List.mem_cons, List.not_mem_nil, or_false, not_or]
    exact ⟨hne _ rfl (by decide), hne _ rfl (by decide), hne _ rfl (by decide),
      hne _ rfl (by decide), hne _ rfl (by decide), hne _ rfl (by decide), hne _ rfl (by decide)⟩
  · have hfollow : ∀ x ∈ s.head?, isIdentCont x = false := by
      obtain ⟨x, s, rfl, hx⟩ := hs
      simp only [List.mem_cons, List.not_mem_nil, or_false] at hx
      rintro y ⟨⟩
      rcases hx with rfl | rfl | rfl | rfl | rfl | rfl <;> rfl
    have hident := runs_parseIdent hname hfollow
    rw [hbytes] at hident ⊢
    refine (runs_peek _).bind ?_
    dsimp only [List.cons_append, List.getElem?_cons_zero]
    split
    · exact absurd ‹_› (hne _ rfl (by decide))
    · exact absurd ‹_› (hne _ rfl (by decide))
    · exact absurd ‹_› (hne _ rfl (by decide))
    · rw [if_pos hb]
      exact hident.bind (runs_pure _ s)

/-- The class of whitespace. -/
theorem readsAtom_wsClass : ReadsAtom (bytes "[ \\t\\n\\r]")
    (.charClass [.single 0x20, .single 0x09, .single 0x0a, .single 0x0d] false) :=
  ⟨⟨0x5b, _, rfl, by decide⟩, fun _ _ _ _ pos => ⟨pos + 9, rfl⟩⟩

/-- The class of characters of strings. -/
theorem readsAtom_stringCharClass : ReadsAtom (bytes "[^\\x00-\\x1f\"\\\\]")
    (.charClass [.range 0x00 0x1f, .single 0x22, .single 0x5c] true) :=
  ⟨⟨0x5b, _, rfl, by decide⟩, fun _ _ _ _ pos => ⟨pos + 15, rfl⟩⟩

/-- The class of digits. -/
theorem readsAtom_digitClass : ReadsAtom (bytes "[0-9]") (.charClass [.range 0x30 0x39] false) :=
  ⟨⟨0x5b, _, rfl, by decide⟩, fun _ _ _ _ pos => ⟨pos + 5, rfl⟩⟩

end Items

/-! ### Tokens -/

/-- A piece of a text: an item that is read as a node, a space or a bar. -/
inductive Tok
  | item (t : List UInt8) (node : GrammarNode)
  | space
  | bar

/-- The text of tokens. -/
def textOf : List Tok → List UInt8
  | [] => []
  | .item t _ :: ts => t ++ textOf ts
  | .space :: ts => 0x20 :: textOf ts
  | .bar :: ts => 0x7c :: textOf ts

/-- The items before the first bar. -/
def firstItems : List Tok → List GrammarNode
  | .item _ node :: ts => node :: firstItems ts
  | .space :: ts => firstItems ts
  | _ => []

/-- The tokens from the first bar on. -/
def fromBar : List Tok → List Tok
  | .item _ _ :: ts => fromBar ts
  | .space :: ts => fromBar ts
  | ts => ts

/-- The items of each alternative. -/
def alts : List Tok → List (List GrammarNode)
  | [] => [[]]
  | .item _ node :: ts =>
    match alts ts with
    | [] => []
    | items :: rest => (node :: items) :: rest
  | .space :: ts => alts ts
  | .bar :: ts => [] :: alts ts

/-- Items are read as their nodes and followed by a space, if by anything. -/
def Valid : List Tok → Prop
  | [] => True
  | .item t node :: ts => ReadsItem t node ∧ (ts = [] ∨ ts.head? = some .space) ∧ Valid ts
  | .space :: ts => Valid ts
  | .bar :: ts => Valid ts

/-- The node of a sequence: `parse_sequence` does not wrap a single item. -/
def seqNode : List GrammarNode → GrammarNode
  | [] => .literal []
  | [item] => item
  | items => .sequence items

/-- The node of alternatives: `parse_alternation` does not wrap a single one. -/
def altNode : List (List GrammarNode) → GrammarNode
  | [items] => seqNode items
  | alternatives => .alternation (alternatives.map seqNode)

/-- The text ends here, or an alternative does. -/
def Ends (s : List UInt8) : Prop := ∃ b t, s = b :: t ∧ b ∈ [0x29, 0x0a]

section Parsing

variable {ts : List Tok} {s : List UInt8}

theorem Ends.follows (h : Ends s) : Follows s := by
  obtain ⟨b, t, rfl, hb⟩ := h
  simp only [List.mem_cons, List.not_mem_nil, or_false] at hb
  exact ⟨b, t, rfl, by rcases hb with rfl | rfl <;> simp⟩

theorem fromBar_cases (ts : List Tok) : fromBar ts = [] ∨ ∃ ts', fromBar ts = .bar :: ts' := by
  induction ts with
  | nil => exact .inl rfl
  | cons tok ts ih =>
    cases tok with
    | item => exact ih
    | space => exact ih
    | bar => exact .inr ⟨ts, rfl⟩

theorem valid_fromBar (h : Valid ts) : Valid (fromBar ts) := by
  induction ts with
  | nil => exact h
  | cons tok ts ih =>
    cases tok with
    | item => exact ih h.2.2
    | space => exact ih h
    | bar => exact h

theorem length_fromBar_le (ts : List Tok) : (textOf (fromBar ts)).length ≤ (textOf ts).length := by
  induction ts with
  | nil => exact le_rfl
  | cons tok ts ih =>
    cases tok with
    | item t =>
      rw [textOf, List.length_append]
      exact ih.trans (Nat.le_add_left _ _)
    | space => exact ih.trans (Nat.le_succ _)
    | bar => exact le_rfl

/-- The alternatives after the first bar. -/
def restAlts (ts : List Tok) : List (List GrammarNode) :=
  match fromBar ts with
  | .bar :: ts' => alts ts'
  | _ => []

theorem alts_eq (ts : List Tok) : alts ts = firstItems ts :: restAlts ts := by
  induction ts with
  | nil => rfl
  | cons tok ts ih =>
    cases tok with
    | item t node => rw [alts, ih]; rfl
    | space => exact ih
    | bar => rfl

/-- What is left after the items of an alternative ends it. -/
private theorem peek_rest (hs : Ends s) (ts : List Tok) :
    ∃ b t, textOf (fromBar ts) ++ s = b :: t ∧
      (b = 0x7c ∧ (∃ ts', fromBar ts = .bar :: ts') ∨ b ∈ [0x29, 0x0a] ∧ fromBar ts = []) := by
  rcases fromBar_cases ts with h | ⟨ts', h⟩
  · obtain ⟨b, t, rfl, hb⟩ := hs
    exact ⟨b, t, by rw [h]; rfl, .inr ⟨hb, h⟩⟩
  · exact ⟨0x7c, textOf ts' ++ s, by rw [h]; rfl, .inl ⟨rfl, ts', h⟩⟩

private theorem dropWhile_rest (hs : Ends s) (ts : List Tok) :
    (textOf (fromBar ts) ++ s).dropWhile isInlineWs = textOf (fromBar ts) ++ s := by
  obtain ⟨b, t, heq, hb⟩ := peek_rest hs ts
  rw [heq, List.dropWhile_cons_of_neg]
  simp only [List.mem_cons, List.not_mem_nil, or_false] at hb
  rcases hb with ⟨rfl, -⟩ | ⟨rfl | rfl, -⟩ <;> decide

/-- A function that answers the same in two states goes on alike. -/
private theorem bind_congr_state {α β : Type} {f : ParseM α} {p p' : GbnfParser}
    (h : f p = f p') (k : α → ParseM β) : (f >>= k) p = (f >>= k) p' := by
  show (f p >>= fun r => k r.1 r.2) = (f p' >>= fun r => k r.1 r.2)
  rw [h]

/-- Skipping whitespace first makes no difference to the loop of `parse_sequence`. -/
private theorem runs_parseItems_skip {group : ParseM GrammarNode} {n : ℕ}
    {items r : List GrammarNode} {s s' : List UInt8} {b : UInt8} (hb : isInlineWs b = true)
    (h : Runs (parseItems group (n + 1) items) s r s') :
    Runs (parseItems group (n + 1) items) (b :: s) r s' := by
  intro pos
  have hskip : skipInlineWs ⟨b :: s, pos⟩ = skipInlineWs ⟨s, pos + 1⟩ := by
    have htake : (b :: s).takeWhile isInlineWs = b :: s.takeWhile isInlineWs :=
      List.takeWhile_cons_of_pos hb
    have hdrop : (b :: s).dropWhile isInlineWs = s.dropWhile isInlineWs :=
      List.dropWhile_cons_of_pos hb
    show Except.ok ((), (⟨(b :: s).dropWhile isInlineWs,
        pos + ((b :: s).takeWhile isInlineWs).length⟩ : GbnfParser)) =
      .ok ((), ⟨s.dropWhile isInlineWs, pos + 1 + (s.takeWhile isInlineWs).length⟩)
    rw [htake, hdrop, List.length_cons, Nat.add_assoc, Nat.add_comm 1]
  obtain ⟨pos', hpos⟩ := h (pos + 1)
  refine ⟨pos', Eq.trans ?_ hpos⟩
  rw [parseItems]
  exact bind_congr_state hskip _

/-- The loop ends at the end of the text or at a bar. -/
private theorem runs_parseItems_end {group : ParseM GrammarNode} (n : ℕ) (items : List GrammarNode)
    {b : UInt8} (hb : b ∈ [0x7c, 0x29, 0x0a]) (s : List UInt8) :
    Runs (parseItems group (n + 1) items) (b :: s) items (b :: s) := by
  simp only [List.mem_cons, List.not_mem_nil, or_false] at hb
  refine (runs_skipInlineWs _).bind ?_
  have hdrop : (b :: s).dropWhile isInlineWs = b :: s := by
    rw [List.dropWhile_cons_of_neg]
    rcases hb with rfl | rfl | rfl <;> decide
  rw [hdrop]
  refine (runs_peek _).bind ?_
  rcases hb with rfl | rfl | rfl
  · exact runs_pure items _
  · exact runs_pure items _
  · exact runs_pure items _

/-- One round of the loop. -/
private theorem runs_parseItems_item {group : ParseM GrammarNode} {n : ℕ}
    {items r : List GrammarNode} {t s s' : List UInt8} {node : GrammarNode} (ht : Starts t)
    (hitem : Runs (parseItem group) (t ++ s) node s)
    (h : Runs (parseItems group n (items ++ [node])) s r s') :
    Runs (parseItems group (n + 1) items) (t ++ s) r s' := by
  obtain ⟨b, t, rfl, hb⟩ := ht
  simp only [List.mem_cons, List.not_mem_nil, or_false, not_or] at hb
  obtain ⟨hspace, htab, hnl, hcr, hbar, hclose, hcomment⟩ := hb
  refine (runs_skipInlineWs _).bind ?_
  have hdrop : (b :: t ++ s).dropWhile isInlineWs = b :: t ++ s := by
    rw [List.cons_append, List.dropWhile_cons_of_neg]
    simp [isInlineWs, hspace, htab]
  rw [hdrop]
  refine (runs_peek _).bind ?_
  dsimp only [List.cons_append, List.getElem?_cons_zero, Option.map_some]
  split
  · cases ‹_›
  · exact absurd (Option.some.inj ‹_›) hnl
  · exact absurd (Option.some.inj ‹_›) hcr
  · exact absurd (Option.some.inj ‹_›) hbar
  · exact absurd (Option.some.inj ‹_›) hclose
  · exact absurd (Option.some.inj ‹_›) hcomment
  · exact hitem.bind h

/-- The loop of `parse_sequence` reads the items before the first bar. -/
theorem runs_parseItems (h : Valid ts) (hs : Ends s) {m n : ℕ} (hm : (textOf ts).length ≤ m)
    (hn : (textOf ts).length < n) (items : List GrammarNode) :
    Runs (parseItems (parseAlternation m) n items) (textOf ts ++ s) (items ++ firstItems ts)
      (textOf (fromBar ts) ++ s) := by
  induction ts generalizing n items with
  | nil =>
    obtain ⟨n, rfl⟩ : ∃ k, n = k + 1 := ⟨n - 1, by omega⟩
    obtain ⟨b, t, rfl, hb⟩ := hs
    show Runs _ (b :: t) (items ++ []) (b :: t)
    rw [List.append_nil]
    exact runs_parseItems_end n items (List.mem_cons_of_mem _ hb) t
  | cons tok ts ih =>
    cases tok with
    | item t node =>
      obtain ⟨hitem, hsep, hvalid⟩ := h
      have hpos : 0 < t.length := by
        obtain ⟨b, t', rfl, -⟩ := hitem.starts
        exact Nat.succ_pos _
      rw [textOf, List.length_append] at hm hn
      obtain ⟨n, rfl⟩ : ∃ k, n = k + 1 := ⟨n - 1, by omega⟩
      have hfollows : Follows (textOf ts ++ s) := by
        rcases hsep with rfl | hhead
        · exact hs.follows
        · cases ts with
          | nil => cases hhead
          | cons tok ts =>
            obtain rfl := Option.some.inj hhead
            exact ⟨0x20, textOf ts ++ s, rfl, by simp⟩
      rw [textOf, List.append_assoc, firstItems, List.append_cons]
      exact runs_parseItems_item hitem.starts (hitem.runs m (by omega) _ hfollows)
        (ih hvalid (by omega) (by omega) _)
    | space =>
      rw [textOf, List.length_cons] at hm hn
      obtain ⟨n, rfl⟩ : ∃ k, n = k + 1 := ⟨n - 1, by omega⟩
      exact runs_parseItems_skip rfl (ih h (by omega) (by omega) items)
    | bar =>
      obtain ⟨n, rfl⟩ : ∃ k, n = k + 1 := ⟨n - 1, by omega⟩
      show Runs _ (0x7c :: (textOf ts ++ s)) (items ++ []) (0x7c :: (textOf ts ++ s))
      rw [List.append_nil]
      exact runs_parseItems_end n items List.mem_cons_self _

theorem runs_parseSequence (h : Valid ts) (hs : Ends s) {m : ℕ} (hm : (textOf ts).length ≤ m) :
    Runs (parseSequence (parseAlternation m)) (textOf ts ++ s) (seqNode (firstItems ts))
      (textOf (fromBar ts) ++ s) := by
  have hitems := runs_parseItems h hs hm (n := (textOf ts ++ s).length + 1)
    (by rw [List.length_append]; omega) []
  rw [List.nil_append] at hitems
  refine (runs_rounds _).bind (hitems.bind ?_)
  match firstItems ts with
  | [] => exact runs_pure _ _
  | [item] => exact runs_pure _ _
  | item :: item' :: items => exact runs_pure _ _

/-- Tokens without the spaces in front of them. -/
theorem dropWhile_tokens (h : Valid ts) (hs : Ends s) :
    ∃ ts', (textOf ts ++ s).dropWhile isInlineWs = textOf ts' ++ s ∧ Valid ts' ∧
      alts ts' = alts ts ∧ (textOf ts').length ≤ (textOf ts).length := by
  induction ts with
  | nil => exact ⟨[], dropWhile_rest hs [], h, rfl, le_rfl⟩
  | cons tok ts ih =>
    cases tok with
    | item t node =>
      refine ⟨.item t node :: ts, ?_, h, rfl, le_rfl⟩
      obtain ⟨b, t', rfl, hb⟩ := h.1.starts
      simp only [List.mem_cons, List.not_mem_nil, or_false, not_or] at hb
      show (b :: (t' ++ textOf ts ++ s)).dropWhile isInlineWs = b :: (t' ++ textOf ts ++ s)
      refine List.dropWhile_cons_of_neg ?_
      simp [isInlineWs, hb]
    | space =>
      obtain ⟨ts', hdrop, hvalid, halts, hlen⟩ := ih h
      exact ⟨ts', hdrop, hvalid, halts, hlen.trans (Nat.le_succ _)⟩
    | bar => exact ⟨.bar :: ts, rfl, h, rfl, le_rfl⟩

/-- The loop of `parse_alternation` reads the alternatives after the first bar. -/
private theorem runs_parseAlternatives (h : Valid ts) (hs : Ends s) {m n : ℕ}
    (hm : (textOf ts).length ≤ m) (hn : (textOf (fromBar ts)).length < n)
    (acc : List GrammarNode) :
    Runs (parseAlternatives (parseAlternation m) n acc) (textOf (fromBar ts) ++ s)
      (acc ++ (restAlts ts).map seqNode) s := by
  induction n generalizing ts acc with
  | zero => omega
  | succ n ih =>
    refine (runs_peek _).bind ?_
    rcases fromBar_cases ts with hbar | ⟨ts', hbar⟩
    · rw [restAlts, hbar]
      obtain ⟨b, t, rfl, hb⟩ := hs
      simp only [List.mem_cons, List.not_mem_nil, or_false] at hb
      show Runs _ (b :: t) (acc ++ []) (b :: t)
      rw [List.append_nil, if_neg]
      · exact runs_pure acc _
      · rcases hb with rfl | rfl <;> simp [textOf, asChar]
    · have hlen : (textOf ts').length + 1 ≤ (textOf ts).length := by
        have hle := length_fromBar_le ts
        rwa [hbar] at hle
      have hvalid : Valid ts' := by
        have hvalid := valid_fromBar h
        rwa [hbar] at hvalid
      obtain ⟨ts₁, hdrop, hvalid₁, halts, hlen₁⟩ := dropWhile_tokens hvalid hs
      have hrest : restAlts ts = firstItems ts₁ :: restAlts ts₁ := by
        rw [restAlts, hbar, ← alts_eq, halts]
      rw [hbar] at hn ⊢
      have hn : (textOf ts').length + 1 < n + 1 := hn
      have hle := length_fromBar_le ts₁
      have hpeek : ((textOf (.bar :: ts') ++ s)[0]?).map asChar = some '|' := rfl
      rw [hrest, List.map_cons, List.append_cons, if_pos hpeek]
      refine (runs_advance 0x7c (textOf ts' ++ s)).bind ?_
      refine (runs_skipInlineWs _).bind ?_
      rw [hdrop]
      refine (runs_parseSequence hvalid₁ hs (by omega)).bind ?_
      refine (runs_skipInlineWs _).bind ?_
      rw [dropWhile_rest hs]
      exact ih hvalid₁ (by omega) (by omega) _

/-- **The parser reads the text of tokens as the alternatives they spell.** -/
theorem runs_alternation (h : Valid ts) (hs : Ends s) {m : ℕ} (hm : (textOf ts).length ≤ m) :
    Runs (parseAlternation (m + 1)) (textOf ts ++ s) (altNode (alts ts)) s := by
  refine (runs_parseSequence h hs hm).bind ?_
  refine (runs_skipInlineWs _).bind ?_
  rw [dropWhile_rest hs]
  refine (runs_peek _).bind ?_
  have hloop := runs_parseAlternatives h hs hm (n := (textOf (fromBar ts) ++ s).length + 1)
    (by rw [List.length_append]; omega) [seqNode (firstItems ts)]
  rw [alts_eq]
  rcases fromBar_cases ts with hbar | ⟨ts', hbar⟩
  · rw [restAlts, hbar]
    obtain ⟨b, t, rfl, hb⟩ := hs
    simp only [List.mem_cons, List.not_mem_nil, or_false] at hb
    rw [if_neg]
    · exact runs_pure _ _
    · rcases hb with rfl | rfl <;> simp [textOf, asChar]
  · have hcons : restAlts ts = firstItems ts' :: restAlts ts' := by
      rw [restAlts, hbar, ← alts_eq]
    have hnode : altNode (firstItems ts :: restAlts ts) =
        .alternation ([seqNode (firstItems ts)] ++ (restAlts ts).map seqNode) := by
      rw [hcons]
      rfl
    rw [if_pos (by rw [hbar]; rfl), hnode]
    exact (runs_rounds _).bind (hloop.bind (runs_pure _ s))

/-- Parentheses around tokens make an atom of their alternatives. -/
theorem readsAtom_group (h : Valid ts) :
    ReadsAtom (0x28 :: (textOf ts ++ [0x29])) (altNode (alts ts)) := by
  refine ⟨⟨0x28, _, rfl, by decide⟩, fun n hn s _ => ?_⟩
  rw [List.length_cons, List.length_append] at hn
  obtain ⟨n, rfl⟩ : ∃ k, n = k + 1 := ⟨n - 1, by omega⟩
  have hends : Ends (0x29 :: s) := ⟨0x29, s, rfl, by simp⟩
  obtain ⟨ts', hdrop, hvalid, halts, hlen⟩ := dropWhile_tokens h hends
  rw [List.cons_append, List.append_assoc, ← halts]
  refine (runs_peek _).bind ((runs_advance 0x28 _).bind ((runs_skipInlineWs _).bind ?_))
  rw [List.singleton_append, hdrop]
  refine (runs_alternation hvalid hends (by omega)).bind ((runs_skipInlineWs _).bind ?_)
  exact (runs_expect (c := ')') (b := 0x29) rfl s).bind (runs_pure (altNode (alts ts')) s)

end Parsing

end Grammar

end Oxillama
