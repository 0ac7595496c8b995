/-
The exact language of the text of an expression.

`Covers` and `Means` bound what a text generates from above.  Here it is described
exactly, over bytes, by the operations that its parts are put together with.

* `Denotes g e L` — the text `e` generates the byte strings in `L`, and no others;
* `Stands g e L` — the same for a text without a bar, which may stand next to others;
* `Stands.seq`, `Denotes.alt`, `Denotes.star`, … — concatenation, choice, iteration;
* `Denotes.unique` — a text denotes one language.
-/
import Oxillama.Grammar.Texts

namespace Oxillama

namespace Grammar

open scoped Computability

/-- The text `e` generates exactly the byte strings in `L`. -/
def Denotes (g : Grammar) (e : String) (L : Language UInt8) : Prop :=
  ∃ ts, Spelled e ts ∧ ∀ w, Lang g ts w ↔ w ∈ L

/-- The text `e` has no bar and generates exactly the byte strings in `L`. -/
def Stands (g : Grammar) (e : String) (L : Language UInt8) : Prop :=
  ∃ ts, Spelled e ts ∧ Plain ts ∧ ∀ w, Lang g ts w ↔ w ∈ L

section Languages

variable {g : Grammar} {a b e e' : String} {L M : Language UInt8} {node : GrammarNode}

theorem Stands.denotes (h : Stands g e L) : Denotes g e L := by
  obtain ⟨ts, hts, -, hw⟩ := h
  exact ⟨ts, hts, hw⟩

theorem Stands.congr (h : Stands g e L) (he : bytes e' = bytes e) : Stands g e' L := by
  obtain ⟨ts, hts, hw⟩ := h
  exact ⟨ts, hts.congr he, hw⟩

theorem Denotes.congr (h : Denotes g e L) (he : bytes e' = bytes e) : Denotes g e' L := by
  obtain ⟨ts, hts, hw⟩ := h
  exact ⟨ts, hts.congr he, hw⟩

theorem Denotes.mono_iff (h : Denotes g e L) (hLM : ∀ w, w ∈ L ↔ w ∈ M) : Denotes g e M := by
  obtain ⟨ts, hts, hw⟩ := h
  exact ⟨ts, hts, fun w => (hw w).trans (hLM w)⟩

/-- All spellings of a text are read as one node. -/
theorem altNode_unique {ts ts' : List Tok} (h : Spelled e ts) (h' : Spelled e ts') :
    altNode (alts ts) = altNode (alts ts') := by
  have hends : Ends [0x0a] := ⟨0x0a, [], rfl, by simp⟩
  obtain ⟨pos, hrun⟩ := runs_alternation h.2 hends le_rfl 0
  obtain ⟨pos', hrun'⟩ := runs_alternation h'.2 hends le_rfl 0
  rw [← h.1] at hrun
  rw [← h'.1, hrun] at hrun'
  exact congrArg Prod.fst (Except.ok.inj hrun')

/-- **A text denotes one language.** -/
theorem Denotes.unique (h : Denotes g e L) (h' : Denotes g e M) : L = M := by
  obtain ⟨ts, hts, hw⟩ := h
  obtain ⟨ts', hts', hw'⟩ := h'
  ext w
  show w ∈ L ↔ w ∈ M
  rw [← hw, ← hw', ← generates_altNode, ← generates_altNode, altNode_unique hts hts']

/-! ### Operations -/

theorem stands_empty : Stands g "" 1 := by
  refine ⟨[], spelled_empty, rfl, fun w => ?_⟩
  constructor
  · rintro ⟨items, hitems, h⟩
    obtain rfl := List.mem_singleton.mp hitems
    exact generates_sequence_nil.mp h
  · intro h
    exact ⟨[], List.mem_singleton.mpr rfl, generates_sequence_nil.mpr h⟩

theorem Stands.seq (h : Stands g a L) (h' : Stands g b M) : Stands g (a ++ " " ++ b) (L * M) := by
  obtain ⟨ts, hts, hplain, hw⟩ := h
  obtain ⟨ts', hts', hplain', hw'⟩ := h'
  refine ⟨_, hts.seq hts', hplain.append hplain', fun w => ?_⟩
  rw [lang_append hplain hplain', Language.mem_mul]
  constructor
  · rintro ⟨u, v, rfl, hu, hv⟩
    exact ⟨u, (hw u).mp hu, v, (hw' v).mp hv, rfl⟩
  · rintro ⟨u, hu, v, hv, rfl⟩
    exact ⟨u, v, rfl, (hw u).mpr hu, (hw' v).mpr hv⟩

theorem Denotes.alt (h : Denotes g a L) (h' : Denotes g b M) :
    Denotes g (a ++ " | " ++ b) (L + M) := by
  obtain ⟨ts, hts, hw⟩ := h
  obtain ⟨ts', hts', hw'⟩ := h'
  refine ⟨_, hts.alt hts', fun w => ?_⟩
  rw [lang_alt, hw, hw', Language.mem_add]

/-- A text that is one item denotes what the item generates. -/
theorem stands_item {t : List UInt8} (hs : Spelled e [.item t node])
    (hw : ∀ w, Generates g node w ↔ w ∈ L) : Stands g e L :=
  ⟨_, hs, rfl, fun w => lang_item.trans (hw w)⟩

theorem stands_literal (cs : Text) :
    Stands g ("\"" ++ String.ofList (cs.flatMap literalChar) ++ "\"") {encode cs} := by
  refine stands_item (spelled_literal cs) fun w => ?_
  constructor
  · intro h
    cases h
    rfl
  · rintro rfl
    exact .literal (encode cs)

/-- A rule generates what its body denotes. -/
theorem generates_ruleRef_iff {name body : String}
    (hl : ∀ ts, Spelled body ts → g.rules.lookup name = some (altNode (alts ts)))
    (h : Denotes g body L) (w : List UInt8) : Generates g (.ruleRef name) w ↔ w ∈ L := by
  obtain ⟨ts, hts, hw⟩ := h
  rw [← hw, ← generates_altNode]
  constructor
  · intro h
    cases h with
    | ruleRef hl' h =>
      obtain rfl := Option.some.inj ((hl ts hts).symm.trans hl')
      exact h
  · exact .ruleRef (hl ts hts)

theorem stands_ref {name body : String} (hname : IsIdent name)
    (hl : ∀ ts, Spelled body ts → g.rules.lookup name = some (altNode (alts ts)))
    (h : Denotes g body L) : Stands g name L :=
  stands_item (spelled_ref hname) (generates_ruleRef_iff hl h)

theorem Denotes.group (h : Denotes g e L) : Stands g ("(" ++ e ++ ")") L := by
  obtain ⟨ts, hts, hw⟩ := h
  exact stands_item hts.group fun w => generates_altNode.trans (hw w)

/-! ### Repetitions -/

section Node

variable (hnode : ∀ w, Generates g node w ↔ w ∈ L) (w : List UInt8)

include hnode

theorem generates_star : Generates g (.repeat node 0 none) w ↔ w ∈ L∗ := by
  rw [Language.mem_kstar]
  constructor
  · intro h
    cases h with
    | @«repeat» _ _ _ ws _ _ h => exact ⟨ws, rfl, fun u hu => (hnode u).mp (h u hu)⟩
  · rintro ⟨ws, rfl, h⟩
    exact .repeat (Nat.zero_le _) nofun fun u hu => (hnode u).mpr (h u hu)

theorem generates_opt : Generates g (.repeat node 0 (some 1)) w ↔ w ∈ 1 + L := by
  rw [Language.mem_add, Language.mem_one]
  constructor
  · intro h
    cases h with
    | @«repeat» _ _ _ ws _ hmax h =>
      match ws, hmax 1 rfl, h with
      | [], _, _ => exact .inl rfl
      | [u], _, h =>
        right
        rw [List.flatten_singleton]
        exact (hnode u).mp (h u List.mem_cons_self)
  · rintro (rfl | hL)
    · exact generates_repeat_nil rfl
    · have hone : Generates g (.repeat node 0 (some 1)) [w].flatten := by
        refine .repeat (Nat.zero_le _) (fun m hm => ?_) fun u hu => ?_
        · obtain rfl := Option.some.inj hm
          exact le_rfl
        · obtain rfl := List.mem_singleton.mp hu
          exact (hnode u).mpr hL
      rwa [List.flatten_singleton] at hone

theorem generates_plus : Generates g (.repeat node 1 none) w ↔ w ∈ L * L∗ := by
  rw [Language.mem_mul]
  constructor
  · intro h
    cases h with
    | @«repeat» _ _ _ ws hmin _ h =>
      match ws, hmin, h with
      | u :: us, _, h =>
        refine ⟨u, (hnode u).mp (h u List.mem_cons_self), us.flatten, ?_, rfl⟩
        exact Language.join_mem_kstar fun x hx => (hnode x).mp (h x (List.mem_cons_of_mem u hx))
  · rintro ⟨u, hu, v, hv, rfl⟩
    obtain ⟨us, rfl, hus⟩ := Language.mem_kstar.mp hv
    have hcons : Generates g (.repeat node 1 none) (u :: us).flatten := by
      refine .repeat (by simp) nofun fun x hx => ?_
      rcases List.mem_cons.mp hx with rfl | hx
      · exact (hnode x).mpr hu
      · exact (hnode x).mpr (hus x hx)
    exact hcons

end Node

theorem Denotes.star (h : Denotes g e L) : Stands g ("(" ++ e ++ ")*") L∗ := by
  obtain ⟨ts, hts, hw⟩ := h
  have hspelled := hts.quantified "*" 0x2a 0 none rfl (by simp)
  refine stands_item (hspelled.congr ?_) (generates_star fun w => generates_altNode.trans (hw w))
  simp only [bytes_append, List.append_assoc]
  rfl

theorem Denotes.opt (h : Denotes g e L) : Stands g ("(" ++ e ++ ")?") (1 + L) := by
  obtain ⟨ts, hts, hw⟩ := h
  have hspelled := hts.quantified "?" 0x3f 0 (some 1) rfl (by simp)
  refine stands_item (hspelled.congr ?_) (generates_opt fun w => generates_altNode.trans (hw w))
  simp only [bytes_append, List.append_assoc]
  rfl

/-! ### Atoms -/

/-- An atom of the grammar text: a literal, a class or a reference. -/
theorem stands_atom (hatom : ReadsAtom (bytes e) node)
    (hnode : ∀ w, Generates g node w ↔ w ∈ L) : Stands g e L :=
  stands_item (spelled_item hatom.item) hnode

/-- The bytes of a class, one at a time. -/
def classLang (ranges : List CharRange) (negated : Bool) : Language UInt8 :=
  {w | ∃ b, classMatches ranges negated b = true ∧ w = [b]}

theorem generates_charClass {ranges : List CharRange} {negated : Bool} (w : List UInt8) :
    Generates g (.charClass ranges negated) w ↔ w ∈ classLang ranges negated := by
  constructor
  · intro h
    cases h with
    | charClass hmatch => exact ⟨_, hmatch, rfl⟩
  · rintro ⟨b, hmatch, rfl⟩
    exact .charClass hmatch

end Languages

end Grammar

end Oxillama
