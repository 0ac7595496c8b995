/-
When a state is complete.

`is_complete` looks for a way to match the empty string.  It follows rules,
sequences and alternatives, but of a repetition it only asks whether its minimum
is zero; that the repeated node may itself match the empty string is not looked
at.  So `("a"?)+`, which the empty string belongs to, is never complete.

* `Skips` — the empty string is derived without an occurrence of any repetition;
* `isComplete_eq_true_iff` — where no depth limit is hit, that is what
  `is_complete` finds;
* `isComplete_exact_iff` — it is exact where the empty string is not derived
  through occurrences of a repetition only.
-/
import Oxillama.Grammar.Decoding

namespace Oxillama

namespace Grammar

/-! ### The search and its depth limit -/

/-- The search of `node_can_match_empty`, which ends without a verdict where it
hits the depth limit. -/
def nodeVerdict (g : Grammar) : ℕ → GrammarNode → Option Bool
  | 0, _ => none
  | levels + 1, node =>
    match node with
    | .literal bytes => some bytes.isEmpty
    | .charClass _ _ => some false
    | .ruleRef name =>
      match g.rules.lookup name with
      | some ruleNode => nodeVerdict g levels ruleNode
      | none => some false
    | .sequence items => items.allM fun n => nodeVerdict g levels n
    | .alternation alts => alts.anyM fun n => nodeVerdict g levels n
    | .repeat _ min _ => some (min == 0)

/-- The search of `can_match_empty_continuation`, likewise. -/
def contVerdict (g : Grammar) : ℕ → List GrammarNode → Option Bool
  | 0, _ => none
  | _ + 1, [] => some true
  | levels + 1, first :: rest => do
    if ← nodeVerdict g levels first then contVerdict g levels rest else return false

/-- `Skips g node`: the empty string is derived from `node`, with no occurrence
of any repetition on the way. -/
inductive Skips (g : Grammar) : GrammarNode → Prop
  | literal : Skips g (.literal [])
  | ruleRef {name : String} {node : GrammarNode} (hl : g.rules.lookup name = some node)
      (h : Skips g node) : Skips g (.ruleRef name)
  | sequence {items : List GrammarNode} (h : ∀ item ∈ items, Skips g item) :
      Skips g (.sequence items)
  | alternation {alts : List GrammarNode} {alt : GrammarNode} (hmem : alt ∈ alts)
      (h : Skips g alt) : Skips g (.alternation alts)
  | «repeat» {node : GrammarNode} {max : Option ℕ} : Skips g (.repeat node 0 max)

variable {g : Grammar}

theorem Skips.generates {node : GrammarNode} (h : Skips g node) : Generates g node [] := by
  induction h with
  | literal => exact .literal []
  | ruleRef hl _ ih => exact .ruleRef hl ih
  | @sequence items h ih =>
    induction items with
    | nil => exact .sequenceNil
    | cons item items ihs =>
      have hrest : Generates g (.sequence items) [] :=
        ihs (fun x hx => h x (by simp [hx])) fun x hx => ih x (by simp [hx])
      exact .sequenceCons (ih item (by simp)) hrest
  | alternation hmem _ ih => exact .alternation hmem ih
  | «repeat» => exact generates_repeat_nil rfl

/-! ### What the search finds -/

/-- A search through all elements that ends with a verdict has judged them all,
or one of them wanting. -/
theorem allM_verdict {α : Type} {f : α → Option Bool} {P : α → Prop} {l : List α} {x : Bool}
    (hf : ∀ a ∈ l, ∀ y, f a = some y → (y = true ↔ P a)) (h : l.allM f = some x) :
    x = true ↔ ∀ a ∈ l, P a := by
  induction l with
  | nil =>
    obtain rfl := Option.some.inj h
    simp
  | cons a l ih =>
    rw [List.allM_cons] at h
    obtain ⟨y, hy, h⟩ := Option.bind_eq_some_iff.mp h
    have ha := hf a (by simp) y hy
    rw [List.forall_mem_cons, ← ha]
    cases y with
    | false =>
      obtain rfl := Option.some.inj h
      simp
    | true =>
      rw [ih (fun b hb => hf b (by simp [hb])) h]
      simp

/-- A search for some element that ends with a verdict has found one, or judged
all of them. -/
theorem anyM_verdict {α : Type} {f : α → Option Bool} {P : α → Prop} {l : List α} {x : Bool}
    (hf : ∀ a ∈ l, ∀ y, f a = some y → (y = true ↔ P a)) (h : l.anyM f = some x) :
    x = true ↔ ∃ a ∈ l, P a := by
  induction l with
  | nil =>
    obtain rfl := Option.some.inj h
    simp
  | cons a l ih =>
    rw [List.anyM_cons] at h
    obtain ⟨y, hy, h⟩ := Option.bind_eq_some_iff.mp h
    have ha := hf a (by simp) y hy
    rw [List.exists_mem_cons_iff, ← ha]
    cases y with
    | true =>
      obtain rfl := Option.some.inj h
      simp
    | false =>
      rw [ih (fun b hb => hf b (by simp [hb])) h]
      simp

/-- Without the depth limit in the way, `node_can_match_empty` is the verdict. -/
theorem nodeCanMatchEmpty_of_nodeVerdict {levels : ℕ} {node : GrammarNode} {x : Bool}
    (h : nodeVerdict g levels node = some x) :
    x = true ↔ nodeCanMatchEmpty g levels node = true := by
  induction levels generalizing node x with
  | zero => cases h
  | succ levels ih =>
    cases node with
    | literal | charClass | «repeat» =>
      obtain rfl := Option.some.inj h
      exact Iff.rfl
    | ruleRef name =>
      simp only [nodeVerdict] at h
      simp only [nodeCanMatchEmpty]
      cases hl : g.rules.lookup name with
      | none =>
        rw [hl] at h
        obtain rfl := Option.some.inj h
        exact Iff.rfl
      | some ruleNode =>
        rw [hl] at h
        exact ih h
    | sequence items =>
      rw [nodeCanMatchEmpty, List.all_eq_true]
      exact allM_verdict (fun item _ y hy => ih hy) h
    | alternation alts =>
      rw [nodeCanMatchEmpty, List.any_eq_true]
      exact anyM_verdict (fun alt _ y hy => ih hy) h

/-- **A verdict says whether the empty string is derived with every repetition
skipped.** -/
theorem nodeVerdict_iff_skips {levels : ℕ} {node : GrammarNode} {x : Bool}
    (h : nodeVerdict g levels node = some x) : x = true ↔ Skips g node := by
  induction levels generalizing node x with
  | zero => cases h
  | succ levels ih =>
    cases node with
    | literal bytes =>
      obtain rfl := Option.some.inj h
      rw [List.isEmpty_iff]
      constructor
      · rintro rfl
        exact .literal
      · intro hs
        cases hs
        rfl
    | charClass =>
      obtain rfl := Option.some.inj h
      exact iff_of_false (by simp) (fun hs => by cases hs)
    | ruleRef name =>
      simp only [nodeVerdict] at h
      cases hl : g.rules.lookup name with
      | none =>
        rw [hl] at h
        obtain rfl := Option.some.inj h
        refine iff_of_false (by simp) fun hs => ?_
        cases hs with
        | ruleRef hl' => simp [hl] at hl'
      | some ruleNode =>
        rw [hl] at h
        rw [ih h]
        constructor
        · exact .ruleRef hl
        · intro hs
          cases hs with
          | ruleRef hl' hs =>
            obtain rfl := Option.some.inj (hl.symm.trans hl')
            exact hs
    | sequence items =>
      rw [allM_verdict (fun item _ y hy => ih hy) h]
      constructor
      · exact .sequence
      · intro hs
        cases hs with
        | sequence hall => exact hall
    | alternation alts =>
      rw [anyM_verdict (fun alt _ y hy => ih hy) h]
      constructor
      · rintro ⟨alt, hmem, halt⟩
        exact .alternation hmem halt
      · intro hs
        cases hs with
        | alternation hmem halt => exact ⟨_, hmem, halt⟩
    | «repeat» node min max =>
      obtain rfl := Option.some.inj h
      rw [beq_iff_eq]
      constructor
      · rintro rfl
        exact .repeat
      · intro hs
        cases hs
        rfl

theorem skips_sequence {items : List GrammarNode} :
    Skips g (.sequence items) ↔ ∀ item ∈ items, Skips g item := by
  constructor
  · intro hs
    cases hs with
    | sequence hall => exact hall
  · exact .sequence

theorem canMatchEmpty_of_contVerdict {levels : ℕ} {cont : List GrammarNode} {x : Bool}
    (h : contVerdict g levels cont = some x) :
    canMatchEmptyContinuation g levels cont = x ∧ (x = true ↔ Skips g (.sequence cont)) := by
  induction levels generalizing cont x with
  | zero => cases h
  | succ levels ih =>
    cases cont with
    | nil =>
      obtain rfl := Option.some.inj h
      exact ⟨rfl, iff_of_true rfl (.sequence (by simp))⟩
    | cons first rest =>
      obtain ⟨y, hy, h⟩ := Option.bind_eq_some_iff.mp h
      have hfirst := nodeVerdict_iff_skips hy
      have hsearch := nodeCanMatchEmpty_of_nodeVerdict hy
      rw [canMatchEmptyContinuation, skips_sequence, List.forall_mem_cons, ← hfirst]
      cases y with
      | false =>
        -- the first node settles it
        obtain rfl := Option.some.inj h
        have hnot : nodeCanMatchEmpty g levels first = false := by simpa using hsearch
        rw [hnot]
        simp
      | true =>
        obtain ⟨hrest, hskips⟩ := ih h
        rw [hsearch.mp rfl, Bool.true_and, ← skips_sequence]
        exact ⟨hrest, by simpa using hskips⟩

end Grammar

open Grammar

namespace GrammarState

/-! ### Exactness -/

/-- `is_complete` reaches its answer without hitting the depth limit. -/
def WithinDepth (s : GrammarState) : Prop :=
  ∃ x, contVerdict s.grammar (maxDepth + 1) s.continuation = some x

/-- `is_complete` says whether the empty string may end the text here. -/
def CompleteExact (s : GrammarState) : Prop :=
  s.isComplete = true ↔ Generates s.grammar (.sequence s.continuation) []

/-- The empty string may end the text here, but only through occurrences of some
repetition, which each match the empty string. -/
def EmptyOnlyByRepeating (s : GrammarState) : Prop :=
  Generates s.grammar (.sequence s.continuation) [] ∧
    ¬ Skips s.grammar (.sequence s.continuation)

theorem isComplete_eq_true_iff {s : GrammarState} (h : s.WithinDepth) :
    s.isComplete = true ↔ Skips s.grammar (.sequence s.continuation) := by
  obtain ⟨x, hx⟩ := h
  obtain ⟨heq, hskips⟩ := canMatchEmpty_of_contVerdict hx
  rw [isComplete, heq]
  exact hskips

/-- **When `is_complete` is exact.**  In every state reached, if no depth limit
is hit: exactly when the empty string does not end the text through occurrences
of a repetition only. -/
theorem isComplete_exact_iff (g : Grammar) (s : GrammarState) (_ : Reachable g s)
    (h : s.WithinDepth) : s.CompleteExact ↔ ¬ s.EmptyOnlyByRepeating := by
  rw [CompleteExact, isComplete_eq_true_iff h, EmptyOnlyByRepeating]
  constructor
  · rintro hexact ⟨hgen, hnot⟩
    exact hnot (hexact.mpr hgen)
  · intro hnot
    refine ⟨Skips.generates, fun hgen => ?_⟩
    by_contra hskips
    exact hnot ⟨hgen, hskips⟩

/-- The grammar `root ::= "a"*`. -/
def anyNumber : Grammar where
  rules := (∅ : AList fun _ : String => GrammarNode).insert "root"
    (.repeat (.literal [0x61]) 0 none)
  root := "root"
  source := "root ::= \"a\"*"

/-- `"a"*` is found complete at once. -/
theorem isComplete_exact_iff_anyNumber : anyNumber.initialState.CompleteExact := by
  refine (isComplete_exact_iff anyNumber _ ⟨[], rfl⟩ ⟨true, rfl⟩).mpr ?_
  rintro ⟨-, hnot⟩
  have hroot : Skips anyNumber (.ruleRef "root") := .ruleRef rfl .repeat
  refine hnot (skips_sequence.mpr fun item hitem => ?_)
  obtain rfl := List.mem_singleton.mp hitem
  exact hroot

/-- The grammar `root ::= ("a"?)+`. -/
def someOptionals : Grammar where
  rules := (∅ : AList fun _ : String => GrammarNode).insert "root"
    (.repeat (.repeat (.literal [0x61]) 0 (some 1)) 1 none)
  root := "root"
  source := "root ::= (\"a\"?)+"

theorem parse_someOptionals : Grammar.parse "root ::= (\"a\"?)+" = .ok someOptionals := by rfl

/-- `("a"?)+` generates the empty string and is not found complete. -/
theorem not_isComplete_exact_someOptionals :
    ¬ ∀ text g, Grammar.parse text = .ok g → ∀ s, Reachable g s → s.WithinDepth →
      s.CompleteExact := by
  intro h
  have hexact := h _ someOptionals parse_someOptionals _ ⟨[], rfl⟩ ⟨false, rfl⟩
  have hempty : Generates someOptionals (.repeat (.literal [0x61]) 0 (some 1)) [] :=
    generates_repeat_nil rfl
  have hroot : Generates someOptionals (.ruleRef "root") [[]].flatten :=
    .ruleRef rfl (.repeat (by simp) (by simp) (by simpa using hempty))
  cases hexact.mpr (generates_singleton.mpr hroot)

end GrammarState

end Oxillama
