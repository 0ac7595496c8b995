/-
The grammar machine as a backtracking reader.

`reader g` is the reader whose states are continuations: a literal or a
character class reads a byte, every other node offers continuations to go on
with, in the order in which the machine tries them.

* `tryConsumeByte_eq` — `try_consume_byte` is the reader's search;
* `advanceOneByte_toOption` — `advance_one_byte` is the reader's commitment, up
  to which error it reports.
-/
import Oxillama.Grammar.Machine
import Oxillama.Lib.Backtrack

namespace Oxillama

namespace Grammar

/-- The continuation after reading `b` with the first node. -/
def eatByte : List GrammarNode → UInt8 → Option (List GrammarNode)
  | .literal (x :: remainder) :: tail, b =>
    if x = b then some (if remainder.isEmpty then tail else .literal remainder :: tail) else none
  | .charClass ranges negated :: tail, b =>
    if classMatches ranges negated b then some tail else none
  | _, _ => none

/-- The continuations the first node can be replaced by, in order. -/
def expansions (g : Grammar) : List GrammarNode → List (List GrammarNode)
  | .literal [] :: tail => [tail]
  | .ruleRef name :: tail => (g.rules.lookup name).toList.map (· :: tail)
  | .sequence items :: tail => [items ++ tail]
  | .alternation alts :: tail => alts.map (· :: tail)
  | .repeat node min max :: tail =>
    (if min = 0 then [tail] else []) ++ (unroll node min max).toList.map (· ++ tail)
  | _ => []

/-- The reader of continuations of `g`. -/
def reader (g : Grammar) : Reader (List GrammarNode) UInt8 where
  eat := eatByte
  branches := expansions g

variable {g : Grammar}

/-! ### Simulation -/

private theorem anyM_singleton {ε σ : Type} (p : σ → Except ε Bool) (a : σ) :
    [a].anyM p = p a := by
  rw [List.anyM]
  cases p a with
  | error e => rfl
  | ok x => cases x <;> rfl

private theorem anyM_map {ε σ τ : Type} (p : σ → Except ε Bool) (f : τ → σ) (l : List τ) :
    (l.map f).anyM p = l.anyM fun t => p (f t) := by
  induction l with
  | nil => rfl
  | cons a l ih => simp only [List.map_cons, List.anyM, ih]

/-- **`try_consume_byte` is the search of the reader.** -/
theorem tryConsumeByte_eq (levels : ℕ) (cont : List GrammarNode) (b : UInt8)
    (rest : List UInt8) :
    tryConsumeByte g levels cont b rest =
      (reader g).search (.recursionLimit "(allows_token)") levels cont b rest := by
  induction levels generalizing cont b rest with
  | zero => rfl
  | succ levels ih =>
    have hsim : ∀ c, simulateBytes (tryConsumeByte g levels) c rest =
        (reader g).searchFrom (.recursionLimit "(allows_token)") levels c rest := by
      intro c
      cases rest with
      | nil => rfl
      | cons b' rest' => exact ih c b' rest'
    rcases cont with _ | ⟨first, tail⟩
    · rfl
    -- the first node reads `b`, or is replaced
    cases he : eatByte (first :: tail) b with
    | some c' =>
      rw [Reader.search_of_eat (m := reader g) he, ← hsim]
      cases first with
      | literal bytes =>
        rcases bytes with _ | ⟨x, remainder⟩
        · cases he
        · obtain ⟨hx, hc⟩ := Option.ite_none_right_eq_some.mp he
          obtain rfl := Option.some.inj hc
          rw [tryConsumeByte, if_pos hx]
          split <;> rfl
      | charClass ranges negated =>
        obtain ⟨hm, hc⟩ := Option.ite_none_right_eq_some.mp he
        obtain rfl : tail = c' := Option.some.inj hc
        rw [tryConsumeByte, if_pos hm]
      | ruleRef | sequence | alternation | «repeat» => cases he
    | none =>
      rw [Reader.search_of_branch (m := reader g) he]
      show _ = (expansions g (first :: tail)).anyM _
      simp only [← ih]
      cases first with
      | literal bytes =>
        rcases bytes with _ | ⟨x, remainder⟩
        · rw [tryConsumeByte, expansions, anyM_singleton]
        · rw [tryConsumeByte, if_neg (by rintro rfl; simp [eatByte] at he)]
          rfl
      | charClass ranges negated =>
        rw [tryConsumeByte, if_neg fun hm => by simp [eatByte, hm] at he]
        rfl
      | ruleRef name =>
        rw [tryConsumeByte, expansions]
        cases g.rules.lookup name with
        | none => rfl
        | some ruleNode => exact (anyM_singleton _ _).symm
      | sequence items => rw [tryConsumeByte, expansions, anyM_singleton]
      | alternation alts => rw [tryConsumeByte, expansions, anyM_map]
      | «repeat» node min max =>
        rw [tryConsumeByte, expansions]
        have hmore : (((unroll node min max).toList.map (· ++ tail)).anyM fun d =>
            tryConsumeByte g levels d b rest) =
            (unroll node min max).elim (.ok false) fun more =>
              tryConsumeByte g levels (more ++ tail) b rest := by
          cases unroll node min max with
          | none => rfl
          | some more => exact anyM_singleton _ _
        -- at the minimum, stopping is tried in front of one more occurrence
        by_cases hmin : min = 0
        · rw [if_pos hmin, if_pos hmin, List.singleton_append, List.anyM, hmore]
          cases tryConsumeByte g levels tail b rest with
          | error e => rfl
          | ok x => cases x <;> cases unroll node min max <;> rfl
        · rw [if_neg hmin, if_neg hmin, List.nil_append, hmore]
          cases unroll node min max <;> rfl

/-! ### Commitment -/

/-- **`advance_one_byte` is the commitment of the reader.** -/
theorem advanceOneByte_toOption (levels : ℕ) (cont : List GrammarNode) (b : UInt8)
    (rest : List UInt8) :
    (advanceOneByte g levels cont b rest).toOption = (reader g).commit levels cont b rest := by
  induction levels generalizing cont b rest with
  | zero => rfl
  | succ levels ih =>
    have hadv : ∀ c, (advanceBytes (advanceOneByte g levels) c rest).toOption =
        (reader g).commitFrom levels c rest := by
      intro c
      cases rest with
      | nil => rfl
      | cons b' rest' => exact ih c b' rest'
    rcases cont with _ | ⟨first, tail⟩
    · rfl
    cases he : eatByte (first :: tail) b with
    | some c' =>
      rw [Reader.commit_of_eat (m := reader g) he, ← hadv]
      cases first with
      | literal bytes =>
        rcases bytes with _ | ⟨x, remainder⟩
        · cases he
        · obtain ⟨hx, hc⟩ := Option.ite_none_right_eq_some.mp he
          obtain rfl := Option.some.inj hc
          rw [advanceOneByte, if_pos hx]
          split <;> rfl
      | charClass ranges negated =>
        obtain ⟨hm, hc⟩ := Option.ite_none_right_eq_some.mp he
        obtain rfl : tail = c' := Option.some.inj hc
        rw [advanceOneByte, if_pos hm]
      | ruleRef | sequence | alternation | «repeat» => cases he
    | none =>
      rw [Reader.commit_of_branch (m := reader g) he]
      show _ = (expansions g (first :: tail)).findSome? _
      simp only [← ih]
      cases first with
      | literal bytes =>
        rcases bytes with _ | ⟨x, remainder⟩
        · rw [advanceOneByte, expansions, List.findSome?_singleton]
        · rw [advanceOneByte, if_neg (by rintro rfl; simp [eatByte] at he)]
          rfl
      | charClass ranges negated =>
        rw [advanceOneByte, if_neg fun hm => by simp [eatByte, hm] at he]
        rfl
      | ruleRef name =>
        rw [advanceOneByte, expansions]
        cases g.rules.lookup name with
        | none => rfl
        | some ruleNode => exact List.findSome?_singleton.symm
      | sequence items => rw [advanceOneByte, expansions, List.findSome?_singleton]
      | alternation alts =>
        rw [advanceOneByte, expansions, List.findSome?_map]
        show _ = alts.findSome? fun alt => (advanceOneByte g levels (alt :: tail) b rest).toOption
        split
        · next c hc => rw [hc]; rfl
        · next hc => rw [hc]; rfl
      | «repeat» node min max =>
        rw [advanceOneByte, expansions, List.findSome?_append]
        have hmore : (((unroll node min max).toList.map (· ++ tail)).findSome? fun d =>
            (advanceOneByte g levels d b rest).toOption) =
            (unroll node min max).elim none fun more =>
              (advanceOneByte g levels (more ++ tail) b rest).toOption := by
          cases unroll node min max with
          | none => rfl
          | some more => exact List.findSome?_singleton
        have hstop : ((if min = 0 then [tail] else []).findSome? fun d =>
            (advanceOneByte g levels d b rest).toOption) =
            if min = 0 then (advanceOneByte g levels tail b rest).toOption else none := by
          split
          · exact List.findSome?_singleton
          · rfl
        rw [hmore, hstop]
        -- an error of either branch counts as a branch that does not work
        cases (if min = 0 then (advanceOneByte g levels tail b rest).toOption else none) with
        | some c => rfl
        | none =>
          cases unroll node min max with
          | none => rfl
          | some more =>
            simp only [Option.none_or, Option.elim_some]
            cases advanceOneByte g levels (more ++ tail) b rest <;> rfl

end Grammar

end Oxillama
