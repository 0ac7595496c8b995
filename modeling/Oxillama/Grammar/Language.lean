/-
The language of a grammar.

`Generates g node w` is the usual inductive meaning of the six kinds of nodes: a
literal generates its bytes, a repetition the concatenation of an admissible
number of sentences of its node.  A continuation generates what the sequence of
its nodes does.

* `generates_residual` — when reading `w` from a continuation can stop in `r`,
  the continuation generates `w` followed by any sentence of `r`;
* `generates_of_canMatchEmpty` — a continuation that the machine finds able to
  match the empty string generates it.
-/
import Oxillama.Grammar.Reading

namespace Oxillama

namespace Grammar

/-- `Generates g node w`: `w` is a sentence of `node` under the rules of `g`. -/
inductive Generates (g : Grammar) : GrammarNode → List UInt8 → Prop
  | literal (bytes : List UInt8) : Generates g (.literal bytes) bytes
  | charClass {ranges : List CharRange} {negated : Bool} {b : UInt8}
      (h : classMatches ranges negated b = true) : Generates g (.charClass ranges negated) [b]
  | ruleRef {name : String} {node : GrammarNode} {w : List UInt8}
      (hl : g.rules.lookup name = some node) (h : Generates g node w) :
      Generates g (.ruleRef name) w
  | sequenceNil : Generates g (.sequence []) []
  | sequenceCons {item : GrammarNode} {items : List GrammarNode} {u v : List UInt8}
      (hu : Generates g item u) (hv : Generates g (.sequence items) v) :
      Generates g (.sequence (item :: items)) (u ++ v)
  | alternation {alts : List GrammarNode} {alt : GrammarNode} {w : List UInt8}
      (hmem : alt ∈ alts) (h : Generates g alt w) : Generates g (.alternation alts) w
  | «repeat» {node : GrammarNode} {min : ℕ} {max : Option ℕ} {ws : List (List UInt8)}
      (hmin : min ≤ ws.length) (hmax : ∀ m ∈ max, ws.length ≤ m)
      (h : ∀ w ∈ ws, Generates g node w) : Generates g (.repeat node min max) ws.flatten

variable {g : Grammar}

/-! ### Sequences -/

theorem generates_sequence_nil {w : List UInt8} : Generates g (.sequence []) w ↔ w = [] := by
  constructor
  · intro h
    cases h
    rfl
  · rintro rfl
    exact .sequenceNil

theorem generates_sequence_cons {item : GrammarNode} {items : List GrammarNode}
    {w : List UInt8} :
    Generates g (.sequence (item :: items)) w ↔
      ∃ u v, w = u ++ v ∧ Generates g item u ∧ Generates g (.sequence items) v := by
  constructor
  · intro h
    cases h with
    | sequenceCons hu hv => exact ⟨_, _, rfl, hu, hv⟩
  · rintro ⟨u, v, rfl, hu, hv⟩
    exact .sequenceCons hu hv

theorem generates_singleton {item : GrammarNode} {w : List UInt8} :
    Generates g (.sequence [item]) w ↔ Generates g item w := by
  rw [generates_sequence_cons]
  simp [generates_sequence_nil]

theorem generates_sequence_append {items tail : List GrammarNode} {w : List UInt8} :
    Generates g (.sequence (items ++ tail)) w ↔
      ∃ u v, w = u ++ v ∧ Generates g (.sequence items) u ∧ Generates g (.sequence tail) v := by
  induction items generalizing w with
  | nil => simp [generates_sequence_nil]
  | cons item items ih =>
    rw [List.cons_append, generates_sequence_cons]
    constructor
    · rintro ⟨u, v, rfl, hu, hv⟩
      obtain ⟨v₁, v₂, rfl, hv₁, hv₂⟩ := ih.mp hv
      exact ⟨u ++ v₁, v₂, (List.append_assoc ..).symm, .sequenceCons hu hv₁, hv₂⟩
    · rintro ⟨u, v, rfl, hu, hv⟩
      obtain ⟨u₁, u₂, rfl, hu₁, hu₂⟩ := generates_sequence_cons.mp hu
      exact ⟨u₁, u₂ ++ v, List.append_assoc .., hu₁, ih.mpr ⟨u₂, v, rfl, hu₂, hv⟩⟩

/-- Replacing the first node of a continuation by nodes that generate no more
than it does. -/
theorem generates_sequence_mono (items : List GrammarNode) {first : GrammarNode}
    {tail : List GrammarNode} {w : List UInt8}
    (hsub : ∀ u, Generates g (.sequence items) u → Generates g first u)
    (h : Generates g (.sequence (items ++ tail)) w) :
    Generates g (.sequence (first :: tail)) w := by
  obtain ⟨u, v, rfl, hu, hv⟩ := generates_sequence_append.mp h
  exact .sequenceCons (hsub u hu) hv

/-! ### Repetitions -/

theorem generates_repeat_nil {node : GrammarNode} {min : ℕ} {max : Option ℕ}
    (hmin : min = 0) : Generates g (.repeat node min max) [] := by
  have h : Generates g (.repeat node min max) ([] : List (List UInt8)).flatten :=
    .repeat (by simp [hmin]) (by simp) (by simp)
  exact h

/-- One more occurrence in front of what the unrolled repetition generates. -/
theorem generates_unroll {node : GrammarNode} {min : ℕ} {max : Option ℕ}
    {more : List GrammarNode} {w : List UInt8} (hmore : unroll node min max = some more)
    (h : Generates g (.sequence more) w) : Generates g (.repeat node min max) w := by
  obtain ⟨hmax, hnodes⟩ := Option.ite_none_right_eq_some.mp hmore
  obtain rfl := Option.some.inj hnodes
  obtain ⟨u, v, rfl, hu, hv⟩ := generates_sequence_cons.mp h
  obtain ⟨v₁, v₂, rfl, hv₁, hv₂⟩ := generates_sequence_cons.mp hv
  obtain rfl := generates_sequence_nil.mp hv₂
  cases hv₁ with
  | @«repeat» _ _ _ ws hlen hle hws =>
    have hcons : Generates g (.repeat node min max) (u :: ws).flatten := by
      refine .repeat ?_ ?_ ?_
      · rw [List.length_cons]
        omega
      · intro m hm
        subst hm
        have hpos : 0 < m := by simpa using hmax
        have hle' : ws.length ≤ m - 1 := hle _ rfl
        rw [List.length_cons]
        omega
      · intro x hx
        rcases List.mem_cons.mp hx with rfl | hx
        · exact hu
        · exact hws x hx
    simpa using hcons

/-! ### Continuations -/

theorem generates_eatByte {cont cont' : List GrammarNode} {b : UInt8} {w : List UInt8}
    (he : eatByte cont b = some cont') (h : Generates g (.sequence cont') w) :
    Generates g (.sequence cont) (b :: w) := by
  rcases cont with _ | ⟨first, tail⟩
  · cases he
  cases first with
  | literal bytes =>
    rcases bytes with _ | ⟨x, remainder⟩
    · cases he
    obtain ⟨rfl, hc⟩ := Option.ite_none_right_eq_some.mp he
    have hc := Option.some.inj hc
    -- the literal is used up, or its remainder stands first
    cases remainder with
    | nil =>
      obtain rfl : tail = cont' := hc
      exact .sequenceCons (.literal [x]) h
    | cons y ys =>
      obtain rfl : .literal (y :: ys) :: tail = cont' := hc
      obtain ⟨u, v, rfl, hu, hv⟩ := generates_sequence_cons.mp h
      cases hu
      exact .sequenceCons (.literal (x :: y :: ys)) hv
  | charClass ranges negated =>
    obtain ⟨hm, hc⟩ := Option.ite_none_right_eq_some.mp he
    obtain rfl : tail = cont' := Option.some.inj hc
    exact .sequenceCons (.charClass hm) h
  | ruleRef | sequence | alternation | «repeat» => cases he

theorem generates_expansions {cont cont' : List GrammarNode} {w : List UInt8}
    (hd : cont' ∈ expansions g cont) (h : Generates g (.sequence cont') w) :
    Generates g (.sequence cont) w := by
  rcases cont with _ | ⟨first, tail⟩
  · cases hd
  cases first with
  | literal bytes =>
    rcases bytes with _ | ⟨x, remainder⟩
    · obtain rfl := List.mem_singleton.mp hd
      exact .sequenceCons (.literal []) h
    · cases hd
  | charClass => cases hd
  | ruleRef name =>
    obtain ⟨node, hl, rfl⟩ := List.mem_map.mp hd
    refine generates_sequence_mono [node] (fun u hu => ?_) h
    exact .ruleRef (Option.mem_toList.mp hl) (generates_singleton.mp hu)
  | sequence items =>
    obtain rfl := List.mem_singleton.mp hd
    exact generates_sequence_mono items (fun _ hu => hu) h
  | alternation alts =>
    obtain ⟨alt, hmem, rfl⟩ := List.mem_map.mp hd
    refine generates_sequence_mono [alt] (fun u hu => ?_) h
    exact .alternation hmem (generates_singleton.mp hu)
  | «repeat» node min max =>
    rcases List.mem_append.mp hd with hstop | hmore
    · -- no further occurrence: the repetition generates the empty string
      obtain ⟨hmin, hmem⟩ := List.mem_ite_nil_right.mp hstop
      obtain rfl := List.mem_singleton.mp hmem
      exact .sequenceCons (generates_repeat_nil hmin) h
    · obtain ⟨more, hmem, rfl⟩ := List.mem_map.mp hmore
      exact generates_sequence_mono more
        (fun _ hu => generates_unroll (Option.mem_toList.mp hmem) hu) h

/-- **What can be read first is part of the sentence.** -/
theorem generates_residual {cont r : List GrammarNode} {w v : List UInt8}
    (hr : (reader g).Residual cont w r) (h : Generates g (.sequence r) v) :
    Generates g (.sequence cont) (w ++ v) := by
  induction hr with
  | nil => exact h
  | eat he _ ih => exact generates_eatByte he (ih h)
  | branch _ hd _ ih => exact generates_expansions hd (ih h)

/-! ### Empty matches -/

theorem generates_of_nodeCanMatchEmpty {levels : ℕ} {node : GrammarNode}
    (h : nodeCanMatchEmpty g levels node = true) : Generates g node [] := by
  induction levels generalizing node with
  | zero => cases h
  | succ levels ih =>
    cases node with
    | literal bytes =>
      obtain rfl := List.isEmpty_iff.mp h
      exact .literal []
    | charClass => cases h
    | ruleRef name =>
      simp only [nodeCanMatchEmpty] at h
      cases hl : g.rules.lookup name with
      | none =>
        rw [hl] at h
        cases h
      | some node =>
        rw [hl] at h
        exact .ruleRef hl (ih h)
    | sequence items =>
      simp only [nodeCanMatchEmpty, List.all_eq_true] at h
      -- all items are tested at the same depth
      induction items with
      | nil => exact .sequenceNil
      | cons item items ihs =>
        exact .sequenceCons (ih (h item (by simp))) (ihs fun x hx => h x (by simp [hx]))
    | alternation alts =>
      simp only [nodeCanMatchEmpty, List.any_eq_true] at h
      obtain ⟨alt, hmem, halt⟩ := h
      exact .alternation hmem (ih halt)
    | «repeat» node min max =>
      exact generates_repeat_nil (by simpa [nodeCanMatchEmpty] using h)

theorem generates_of_canMatchEmpty {levels : ℕ} {cont : List GrammarNode}
    (h : canMatchEmptyContinuation g levels cont = true) : Generates g (.sequence cont) [] := by
  induction levels generalizing cont with
  | zero => cases h
  | succ levels ih =>
    cases cont with
    | nil => exact .sequenceNil
    | cons first rest =>
      obtain ⟨hfirst, hrest⟩ := Bool.and_eq_true_iff.mp h
      exact .sequenceCons (generates_of_nodeCanMatchEmpty hfirst) (ih hrest)

end Grammar

end Oxillama
