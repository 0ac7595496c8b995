/-
Texts of expressions that name only rules that are defined.

* `Names node r` — the node refers to the rule `r`;
* `IsClosed g` — every rule that a rule of `g` refers to is defined;
* `Encodes L M` — a language of byte strings that is not empty and has only encodings of
  texts in `M`;
* `Yields g e M` — the text `e`, which may stand next to others, names only rules of `g`,
  generates something, and nothing but encodings of texts in `M`; `Offers` is the same
  for a text that may have a bar in it.
-/
import Mathlib
import Oxillama.Grammar.Denotes

namespace Oxillama

namespace Grammar

open scoped Computability

/-! ### References -/

/-- The node refers to the rule `r`. -/
inductive Names : GrammarNode → String → Prop
  | ruleRef (r : String) : Names (.ruleRef r) r
  | sequence {items : List GrammarNode} {item : GrammarNode} {r : String} (hmem : item ∈ items)
      (h : Names item r) : Names (.sequence items) r
  | alternation {alts : List GrammarNode} {alt : GrammarNode} {r : String} (hmem : alt ∈ alts)
      (h : Names alt r) : Names (.alternation alts) r
  | «repeat» {node : GrammarNode} {min : ℕ} {max : Option ℕ} {r : String} (h : Names node r) :
      Names (.repeat node min max) r

/-- Every rule that the node refers to is defined. -/
def Resolved (g : Grammar) (node : GrammarNode) : Prop :=
  ∀ r, Names node r → (g.rules.lookup r).isSome = true

/-- **Every rule that a rule refers to is defined.** -/
def IsClosed (g : Grammar) : Prop :=
  ∀ name node, g.rules.lookup name = some node → Resolved g node

/-- The text names only rules that are defined. -/
def Resolves (g : Grammar) (e : String) : Prop :=
  ∃ ts, Spelled e ts ∧ ∀ t node, Tok.item t node ∈ ts → Resolved g node

section References

variable {g : Grammar} {a b e e' : String} {node : GrammarNode} {ts : List Tok}

theorem resolved_literal (w : List UInt8) : Resolved g (.literal w) := nofun

theorem resolved_charClass (ranges : List CharRange) (negated : Bool) :
    Resolved g (.charClass ranges negated) := nofun

theorem resolved_repeat {min : ℕ} {max : Option ℕ} (h : Resolved g node) :
    Resolved g (.repeat node min max) := by
  intro r hr
  cases hr with
  | «repeat» hr => exact h r hr

theorem resolved_ruleRef {r : String} (h : (g.rules.lookup r).isSome = true) :
    Resolved g (.ruleRef r) := by
  intro r' hr
  cases hr
  exact h

/-- The items of the alternatives are those of the tokens. -/
theorem mem_of_mem_alts {items : List GrammarNode} (h : items ∈ alts ts) (hnode : node ∈ items) :
    ∃ t, Tok.item t node ∈ ts := by
  induction ts generalizing items with
  | nil =>
    obtain rfl := List.mem_singleton.mp h
    cases hnode
  | cons tok ts ih =>
    have hlater : ∀ {items}, items ∈ alts ts → node ∈ items → ∃ t, Tok.item t node ∈ tok :: ts := by
      intro items h hnode
      obtain ⟨t, ht⟩ := ih h hnode
      exact ⟨t, List.mem_cons_of_mem tok ht⟩
    cases tok with
    | item t first =>
      rw [alts, alts_eq ts] at h
      rcases List.mem_cons.mp h with rfl | h
      · rcases List.mem_cons.mp hnode with rfl | hnode
        · exact ⟨t, List.mem_cons_self⟩
        · exact hlater (by rw [alts_eq ts]; exact List.mem_cons_self) hnode
      · exact hlater (by rw [alts_eq ts]; exact List.mem_cons_of_mem _ h) hnode
    | space => exact hlater h hnode
    | bar =>
      rcases List.mem_cons.mp h with rfl | h
      · cases hnode
      · exact hlater h hnode

theorem resolved_seqNode {items : List GrammarNode} (h : ∀ item ∈ items, Resolved g item) :
    Resolved g (seqNode items) := by
  match items, h with
  | [], _ => exact resolved_literal []
  | [item], h => exact h item List.mem_cons_self
  | item :: item' :: items, h =>
    intro r hr
    cases hr with
    | sequence hmem hr => exact h _ hmem r hr

/-- The node of alternatives refers to what its items do. -/
theorem resolved_altNode (h : ∀ t node, Tok.item t node ∈ ts → Resolved g node) :
    Resolved g (altNode (alts ts)) := by
  have hseq : ∀ items ∈ alts ts, Resolved g (seqNode items) := by
    intro items hitems
    refine resolved_seqNode fun item hitem => ?_
    obtain ⟨t, ht⟩ := mem_of_mem_alts hitems hitem
    exact h t item ht
  have hmany : Resolved g (.alternation ((alts ts).map seqNode)) := by
    intro r hr
    cases hr with
    | alternation hmem hr =>
      obtain ⟨items, hitems, rfl⟩ := List.mem_map.mp hmem
      exact hseq items hitems r hr
  unfold altNode
  split
  · rename_i items hone
    exact hseq items (by rw [hone]; exact List.mem_cons_self)
  · exact hmany

theorem Resolves.congr (h : Resolves g e) (he : bytes e' = bytes e) : Resolves g e' := by
  obtain ⟨ts, hts, hw⟩ := h
  exact ⟨ts, hts.congr he, hw⟩

/-- Whatever its spelling, the text is read as a node that names only rules that are defined. -/
theorem Resolves.resolved (h : Resolves g e) (hts : Spelled e ts) :
    Resolved g (altNode (alts ts)) := by
  obtain ⟨ts', hts', hitems⟩ := h
  rw [altNode_unique hts hts']
  exact resolved_altNode hitems

theorem resolves_item {t : List UInt8} (hs : Spelled e [.item t node]) (h : Resolved g node) :
    Resolves g e := by
  refine ⟨_, hs, fun t' node' hmem => ?_⟩
  cases List.mem_singleton.mp hmem
  exact h

theorem Resolves.seq (h : Resolves g a) (h' : Resolves g b) : Resolves g (a ++ " " ++ b) := by
  obtain ⟨ts, hts, hitems⟩ := h
  obtain ⟨ts', hts', hitems'⟩ := h'
  refine ⟨_, hts.seq hts', fun t node hmem => ?_⟩
  rcases List.mem_append.mp hmem with hmem | hmem
  · exact hitems t node hmem
  · rcases List.mem_cons.mp hmem with hspace | hmem
    · cases hspace
    · exact hitems' t node hmem

theorem Resolves.alt (h : Resolves g a) (h' : Resolves g b) : Resolves g (a ++ " | " ++ b) := by
  obtain ⟨ts, hts, hitems⟩ := h
  obtain ⟨ts', hts', hitems'⟩ := h'
  refine ⟨_, hts.alt hts', fun t node hmem => ?_⟩
  rcases List.mem_append.mp hmem with hmem | hmem
  · exact hitems t node hmem
  · have hlast : Tok.item t node ∈ ts' := by
      simpa only [List.mem_cons, reduceCtorEq, false_or] using hmem
    exact hitems' t node hlast

theorem Resolves.group (h : Resolves g e) : Resolves g ("(" ++ e ++ ")") := by
  obtain ⟨ts, hts, hitems⟩ := h
  exact resolves_item hts.group (resolved_altNode hitems)

theorem Resolves.quantified (h : Resolves g e) (q : String) (b : UInt8) (min : ℕ)
    (max : Option ℕ) (hq : bytes q = [b])
    (hb : (b, min, max) ∈ [(0x2a, 0, none), (0x2b, 1, none), (0x3f, 0, some 1)]) :
    Resolves g ("(" ++ e ++ ")" ++ q) := by
  obtain ⟨ts, hts, hitems⟩ := h
  exact resolves_item (hts.quantified q b min max hq hb)
    (resolved_repeat (resolved_altNode hitems))

theorem Resolves.star (h : Resolves g e) : Resolves g ("(" ++ e ++ ")*") := by
  refine (h.quantified "*" 0x2a 0 none rfl (by simp)).congr ?_
  simp only [bytes_append, List.append_assoc]
  rfl

theorem Resolves.opt (h : Resolves g e) : Resolves g ("(" ++ e ++ ")?") := by
  refine (h.quantified "?" 0x3f 0 (some 1) rfl (by simp)).congr ?_
  simp only [bytes_append, List.append_assoc]
  rfl

end References

/-! ### Encodings -/

/-- Not empty, and encodings of texts in `M` only. -/
def Encodes (L : Language UInt8) (M : Language Char) : Prop :=
  (∃ w, w ∈ L) ∧ ∀ w ∈ L, ∃ t ∈ M, w = encode t

section Encodings

variable {L L' : Language UInt8} {M M' : Language Char}

theorem Encodes.mono (h : Encodes L M) (hle : M ≤ M') : Encodes L M' := by
  refine ⟨h.1, fun w hw => ?_⟩
  obtain ⟨t, ht, rfl⟩ := h.2 w hw
  exact ⟨t, hle ht, rfl⟩

theorem encodes_one : Encodes 1 1 := by
  refine ⟨⟨[], Language.nil_mem_one⟩, fun w hw => ?_⟩
  obtain rfl := (Language.mem_one w).mp hw
  exact ⟨[], Language.nil_mem_one, rfl⟩

theorem encodes_singleton (t : Text) : Encodes {encode t} {t} := by
  refine ⟨⟨_, rfl⟩, fun w hw => ?_⟩
  obtain rfl : w = encode t := hw
  exact ⟨t, rfl, rfl⟩

theorem Encodes.mul (h : Encodes L M) (h' : Encodes L' M') : Encodes (L * L') (M * M') := by
  obtain ⟨⟨u, hu⟩, hL⟩ := h
  obtain ⟨⟨v, hv⟩, hL'⟩ := h'
  refine ⟨⟨u ++ v, Language.append_mem_mul hu hv⟩, fun w hw => ?_⟩
  obtain ⟨x, hx, y, hy, rfl⟩ := Language.mem_mul.mp hw
  obtain ⟨t, ht, rfl⟩ := hL x hx
  obtain ⟨t', ht', rfl⟩ := hL' y hy
  exact ⟨t ++ t', Language.append_mem_mul ht ht', (encode_append t t').symm⟩

theorem Encodes.add (h : Encodes L M) (h' : Encodes L' M') : Encodes (L + L') (M + M') := by
  obtain ⟨u, hu⟩ := h.1
  refine ⟨⟨u, (Language.mem_add L L' u).mpr (.inl hu)⟩, fun w hw => ?_⟩
  rcases (Language.mem_add L L' w).mp hw with hw | hw
  · obtain ⟨t, ht, rfl⟩ := h.2 w hw
    exact ⟨t, (Language.mem_add M M' t).mpr (.inl ht), rfl⟩
  · obtain ⟨t, ht, rfl⟩ := h'.2 w hw
    exact ⟨t, (Language.mem_add M M' t).mpr (.inr ht), rfl⟩

/-- Encodings one after the other encode texts one after the other. -/
theorem Encodes.kstar (h : ∀ w ∈ L, ∃ t ∈ M, w = encode t) : Encodes L∗ M∗ := by
  refine ⟨⟨[], Language.nil_mem_kstar L⟩, fun w hw => ?_⟩
  obtain ⟨ws, rfl, hws⟩ := Language.mem_kstar.mp hw
  clear hw
  induction ws with
  | nil => exact ⟨[], Language.nil_mem_kstar M, rfl⟩
  | cons u ws ih =>
    obtain ⟨t, ht, rfl⟩ := h u (hws u List.mem_cons_self)
    obtain ⟨t', ht', hflatten⟩ := ih fun x hx => hws x (List.mem_cons_of_mem _ hx)
    obtain ⟨ts, rfl, hts⟩ := Language.mem_kstar.mp ht'
    refine ⟨(t :: ts).flatten, Language.join_mem_kstar fun x hx => ?_, ?_⟩
    · rcases List.mem_cons.mp hx with rfl | hx
      · exact ht
      · exact hts x hx
    · rw [List.flatten_cons, List.flatten_cons, hflatten, encode_append]

end Encodings

/-! ### Texts that generate encodings -/

/-- The text `e`, without a bar, names only rules that are defined, generates something, and
only encodings of texts in `M`. -/
def Yields (g : Grammar) (e : String) (M : Language Char) : Prop :=
  Resolves g e ∧ ∃ L, Stands g e L ∧ Encodes L M

/-- The same for a text that may have a bar in it. -/
def Offers (g : Grammar) (e : String) (M : Language Char) : Prop :=
  Resolves g e ∧ ∃ L, Denotes g e L ∧ Encodes L M

section Generating

variable {g : Grammar} {a b e e' : String} {M M' : Language Char}

theorem Yields.offers (h : Yields g e M) : Offers g e M := by
  obtain ⟨hrefs, L, hL, henc⟩ := h
  exact ⟨hrefs, L, hL.denotes, henc⟩

theorem Yields.congr (h : Yields g e M) (he : bytes e' = bytes e) : Yields g e' M := by
  obtain ⟨hrefs, L, hL, henc⟩ := h
  exact ⟨hrefs.congr he, L, hL.congr he, henc⟩

theorem Offers.congr (h : Offers g e M) (he : bytes e' = bytes e) : Offers g e' M := by
  obtain ⟨hrefs, L, hL, henc⟩ := h
  exact ⟨hrefs.congr he, L, hL.congr he, henc⟩

theorem Yields.mono (h : Yields g e M) (hle : M ≤ M') : Yields g e M' := by
  obtain ⟨hrefs, L, hL, henc⟩ := h
  exact ⟨hrefs, L, hL, henc.mono hle⟩

theorem Offers.mono (h : Offers g e M) (hle : M ≤ M') : Offers g e M' := by
  obtain ⟨hrefs, L, hL, henc⟩ := h
  exact ⟨hrefs, L, hL, henc.mono hle⟩

theorem yields_literal (cs : Text) :
    Yields g ("\"" ++ String.ofList (cs.flatMap literalChar) ++ "\"") {cs} :=
  ⟨resolves_item (spelled_literal cs) (resolved_literal _), _, stands_literal cs,
    encodes_singleton cs⟩

theorem Yields.seq (h : Yields g a M) (h' : Yields g b M') :
    Yields g (a ++ " " ++ b) (M * M') := by
  obtain ⟨hrefs, L, hL, henc⟩ := h
  obtain ⟨hrefs', L', hL', henc'⟩ := h'
  exact ⟨hrefs.seq hrefs', _, hL.seq hL', henc.mul henc'⟩

theorem Offers.alt (h : Offers g a M) (h' : Offers g b M') :
    Offers g (a ++ " | " ++ b) (M + M') := by
  obtain ⟨hrefs, L, hL, henc⟩ := h
  obtain ⟨hrefs', L', hL', henc'⟩ := h'
  exact ⟨hrefs.alt hrefs', _, hL.alt hL', henc.add henc'⟩

theorem Offers.star (h : Offers g e M) : Yields g ("(" ++ e ++ ")*") M∗ := by
  obtain ⟨hrefs, L, hL, henc⟩ := h
  exact ⟨hrefs.star, _, hL.star, .kstar henc.2⟩

theorem Offers.opt (h : Offers g e M) : Yields g ("(" ++ e ++ ")?") (1 + M) := by
  obtain ⟨hrefs, L, hL, henc⟩ := h
  exact ⟨hrefs.opt, _, hL.opt, encodes_one.add henc⟩

/-- A reference generates what the rule does. -/
theorem yields_ref {name body : String} (hname : IsIdent name)
    (hl : ∀ ts, Spelled body ts → g.rules.lookup name = some (altNode (alts ts)))
    (h : Offers g body M) : Yields g name M := by
  obtain ⟨-, L, hL, henc⟩ := h
  refine ⟨resolves_item (spelled_ref hname) (resolved_ruleRef ?_), L, stands_ref hname hl hL, henc⟩
  obtain ⟨ts, hts, -⟩ := hL
  rw [hl ts hts]
  rfl

/-- The sentences of a rule: there is one, and they are encodings of texts in `M`. -/
theorem sentences_of_offers {name body : String}
    (hl : ∀ ts, Spelled body ts → g.rules.lookup name = some (altNode (alts ts)))
    (h : Offers g body M) :
    (∃ w, Generates g (.ruleRef name) w) ∧
      ∀ w, Generates g (.ruleRef name) w → ∃ t ∈ M, w = encode t := by
  obtain ⟨-, L, hL, ⟨w, hw⟩, henc⟩ := h
  refine ⟨⟨w, (generates_ruleRef_iff hl hL w).mpr hw⟩, fun u hu => ?_⟩
  exact henc u ((generates_ruleRef_iff hl hL u).mp hu)

end Generating

end Grammar

end Oxillama
