/-
Constrained decoding token by token.

A generated text is fed to the grammar one token after the other.  `advance`
keeps one continuation, the one its first successful choice leads to, while
`allows_token` tries every choice; so what a state allows may be more than what
it allows after part of it has been consumed.

* `generates_of_advanceAll` — whatever is accepted token by token up to a
  complete state is a sentence of the grammar;
* `splitIndependent_iff` — when splitting a text between two tokens does not
  matter: exactly when the leftmost reading of the first part can be continued;
* `not_splitIndependent_commonHead` — it does matter for `"a" | "ab"`;
* `commit_of_advance_eq_ok`, `commit_of_advance_eq_error` — the state that `advance` leaves
  behind;
* `commit_of_verdict` — where the mask reaches a verdict, the commit follows it:
  an allowed token is consumed, a refused one is an error that leaves the state
  as it was.
-/
import Oxillama.Grammar.Language

namespace Oxillama

open Grammar

namespace GrammarState

/-! ### Tokens and readings -/

/-- The bytes `w` can be read from the state. -/
def Reads (s : GrammarState) (w : List UInt8) : Prop :=
  (reader s.grammar).Reads s.continuation w

/-- A verdict on a non-empty token is one of the reader's search. -/
theorem search_of_allowsTokenChecked {s : GrammarState} {b : UInt8} {w : List UInt8} {x : Bool}
    (h : s.allowsTokenChecked (b :: w) = .ok x) :
    (reader s.grammar).search (GrammarError.recursionLimit "(allows_token)") maxDepth
      s.continuation b w = .ok x := by
  rw [allowsTokenChecked, if_neg (by simp)] at h
  split at h
  · cases h
  · rw [← tryConsumeByte_eq]
    exact h

/-- **A verdict on a token is right.** -/
theorem allowsTokenChecked_iff {s : GrammarState} {w : List UInt8} {x : Bool}
    (h : s.allowsTokenChecked w = .ok x) : x = true ↔ s.Reads w := by
  cases w with
  | nil =>
    obtain rfl : true = x := Except.ok.inj h
    exact iff_of_true rfl (Reader.reads_nil _)
  | cons b w => exact Reader.search_eq_true_iff (search_of_allowsTokenChecked h)

theorem allowsToken_iff {s : GrammarState} {w : List UInt8} {x : Bool}
    (h : s.allowsTokenChecked w = .ok x) : s.allowsToken w = true ↔ s.Reads w := by
  rw [← allowsTokenChecked_iff h, allowsToken, h]

/-- When the simulator reaches a verdict on a token, it reaches one on the first
part of it. -/
theorem allowsTokenChecked_append {s : GrammarState} {u v : List UInt8} {x : Bool}
    (h : s.allowsTokenChecked (u ++ v) = .ok x) : ∃ y, s.allowsTokenChecked u = .ok y := by
  cases u with
  | nil => exact ⟨true, rfl⟩
  | cons b u =>
    obtain ⟨y, hy⟩ := Reader.search_append (search_of_allowsTokenChecked h)
    refine ⟨y, ?_⟩
    rw [List.cons_append, allowsTokenChecked, if_neg (by simp)] at h
    rw [allowsTokenChecked, if_neg (by simp)]
    split at h
    · cases h
    · next hlen =>
      rw [if_neg (by simp only [List.length_cons, List.length_append] at hlen ⊢; omega)]
      exact (tryConsumeByte_eq ..).trans hy

/-- `advance` by a non-empty token is the reader's commitment. -/
theorem advance_cons_eq_ok {s s' : GrammarState} {b : UInt8} {w : List UInt8} :
    s.advance (b :: w) = .ok s' ↔
      ∃ r, (reader s.grammar).commit maxDepth s.continuation b w = some r ∧
        { s with continuation := r } = s' := by
  rw [advance, if_neg (by simp), ← advanceOneByte_toOption]
  show (advanceOneByte s.grammar maxDepth s.continuation b w >>= _) = _ ↔ _
  cases advanceOneByte s.grammar maxDepth s.continuation b w with
  | error e =>
    constructor
    · intro h
      cases h
    · rintro ⟨r, hr, -⟩
      cases hr
  | ok r =>
    constructor
    · intro h
      exact ⟨r, rfl, Except.ok.inj h⟩
    · rintro ⟨r', hr, rfl⟩
      obtain rfl := Option.some.inj hr
      rfl

theorem advance_residual {s s' : GrammarState} {w : List UInt8} (h : s.advance w = .ok s') :
    s'.grammar = s.grammar ∧
      (reader s.grammar).Residual s.continuation w s'.continuation := by
  cases w with
  | nil =>
    obtain rfl : s = s' := Except.ok.inj h
    exact ⟨rfl, .nil _⟩
  | cons b w =>
    obtain ⟨r, hr, rfl⟩ := advance_cons_eq_ok.mp h
    exact ⟨rfl, Reader.commit_eq_some hr⟩

/-- **Where the simulator allows a token, `advance` commits to the leftmost
reading of it.** -/
theorem advance_leftmost {s : GrammarState} {w : List UInt8}
    (h : s.allowsTokenChecked w = .ok true) :
    ∃ r, s.advance w = .ok { s with continuation := r } ∧
      (reader s.grammar).Leftmost s.continuation w r := by
  cases w with
  | nil => exact ⟨s.continuation, rfl, .nil _⟩
  | cons b w =>
    obtain ⟨r, hr, hleft⟩ := Reader.exists_commit_leftmost (search_of_allowsTokenChecked h)
    exact ⟨r, advance_cons_eq_ok.mpr ⟨r, hr, rfl⟩, hleft⟩

/-! ### A grammar with a common head -/

/-- The grammar `root ::= "a" | "ab"`. -/
def commonHead : Grammar where
  rules := (∅ : AList fun _ : String => GrammarNode).insert "root"
    (.alternation [.literal [0x61], .literal [0x61, 0x62]])
  root := "root"
  source := "root ::= \"a\" | \"ab\""

theorem parse_commonHead : Grammar.parse "root ::= \"a\" | \"ab\"" = .ok commonHead := by rfl

/-! ### Soundness -/

/-- What the state still generates, it generated after any token it has been
advanced by. -/
theorem generates_of_advanceAll_continuation {s s' : GrammarState}
    {tokens : List (List UInt8)} {v : List UInt8} (h : s.advanceAll tokens = .ok s')
    (hv : Generates s'.grammar (.sequence s'.continuation) v) :
    Generates s.grammar (.sequence s.continuation) (tokens.flatten ++ v) := by
  induction tokens generalizing s with
  | nil =>
    obtain rfl : s = s' := Except.ok.inj h
    exact hv
  | cons t tokens ih =>
    rw [advanceAll, List.foldlM_cons] at h
    cases ht : s.advance t with
    | error e =>
      rw [ht] at h
      cases h
    | ok s₁ =>
      rw [ht] at h
      -- the rest is generated from where the first token leads
      obtain ⟨hg, hr⟩ := advance_residual ht
      have hrest := ih h
      rw [hg] at hrest
      rw [List.flatten_cons, List.append_assoc]
      exact generates_residual hr hrest

/-- **Constrained decoding is sound**: tokens that are all accepted, up to a
state that is complete, spell a sentence of the root rule. -/
theorem generates_of_advanceAll (g : Grammar) (tokens : List (List UInt8)) (s : GrammarState)
    (h : g.initialState.advanceAll tokens = .ok s) (hcomplete : s.isComplete = true) :
    Generates g (.ruleRef g.root) tokens.flatten := by
  have hend : Generates s.grammar (.sequence s.continuation) [] :=
    generates_of_canMatchEmpty hcomplete
  have hall := generates_of_advanceAll_continuation h hend
  rw [List.append_nil] at hall
  exact generates_singleton.mp hall

/-- The token `a` ends `"a" | "ab"`, and is a sentence of it. -/
theorem generates_of_advanceAll_commonHead :
    Generates commonHead (.ruleRef "root") [[0x61]].flatten :=
  generates_of_advanceAll commonHead [[0x61]] ⟨[], commonHead⟩ rfl rfl

/-! ### Splitting a text into tokens -/

/-- No simulator limit is hit on `u ++ v`, nor on `v` once `u` is consumed. -/
def WithinSimLimits (s : GrammarState) (u v : List UInt8) : Prop :=
  (∃ x, s.allowsTokenChecked (u ++ v) = .ok x) ∧
    ∀ s', s.advance u = .ok s' → ∃ x, s'.allowsTokenChecked v = .ok x

/-- What the state allows in one token, it allows in two. -/
def SplitIndependent (s : GrammarState) (u v : List UInt8) : Prop :=
  s.allowsToken (u ++ v) = true →
    s.allowsToken u = true ∧ ∃ s', s.advance u = .ok s' ∧ s'.allowsToken v = true

/-- The leftmost reading of `u`, the one that prefers earlier alternatives and
fewer repetitions, can be continued by a reading of `v`. -/
def LeftmostExtends (s : GrammarState) (u v : List UInt8) : Prop :=
  ∃ r, (reader s.grammar).Leftmost s.continuation u r ∧ (reader s.grammar).Reads r v

/-- The tokens are allowed and consumed one after the other, and nothing more is
needed in the end. -/
def Produces (s : GrammarState) : List (List UInt8) → Prop
  | [] => Generates s.grammar (.sequence s.continuation) []
  | t :: ts => s.allowsToken t = true ∧ ∃ s', s.advance t = .ok s' ∧ s'.Produces ts

/-- No simulator limit is hit on the way through the tokens. -/
def TokensWithinLimits (s : GrammarState) : List (List UInt8) → Prop
  | [] => True
  | t :: ts => (∃ x, s.allowsTokenChecked t = .ok x) ∧
      ∀ s', s.advance t = .ok s' → s'.TokensWithinLimits ts

/-- The leftmost readings of the tokens, one after the other, end where the
empty string is generated. -/
def LeftmostThroughout (s : GrammarState) : List (List UInt8) → Prop
  | [] => Generates s.grammar (.sequence s.continuation) []
  | t :: ts => ∃ r, (reader s.grammar).Leftmost s.continuation t r ∧
      LeftmostThroughout { s with continuation := r } ts

/-- One step of constrained decoding: allowed and consumed means that the state
afterwards is the leftmost residual. -/
theorem allows_and_advance_iff {s : GrammarState} {w : List UInt8} {x : Bool}
    (hx : s.allowsTokenChecked w = .ok x) (P : GrammarState → Prop) :
    (s.allowsToken w = true ∧ ∃ s', s.advance w = .ok s' ∧ P s') ↔
      ∃ r, (reader s.grammar).Leftmost s.continuation w r ∧ P { s with continuation := r } := by
  constructor
  · rintro ⟨hw, s', hadv, hP⟩
    have htrue := (allowsTokenChecked_iff hx).mpr ((allowsToken_iff hx).mp hw)
    rw [htrue] at hx
    obtain ⟨r, hr, hleft⟩ := advance_leftmost hx
    obtain rfl := Except.ok.inj (hr.symm.trans hadv)
    exact ⟨r, hleft, hP⟩
  · rintro ⟨r, hleft, hP⟩
    have hreads : s.Reads w := ⟨r, hleft.residual⟩
    have htrue := (allowsTokenChecked_iff hx).mpr hreads
    rw [htrue] at hx
    -- there is one leftmost reading, and `advance` follows it
    obtain ⟨r', hr', hleft'⟩ := advance_leftmost hx
    obtain rfl := hleft.unique hleft'
    exact ⟨(allowsToken_iff hx).mpr hreads, _, hr', hP⟩

theorem splitIndependent_step {s : GrammarState} {u v : List UInt8}
    (h : s.WithinSimLimits u v) :
    s.SplitIndependent u v ↔ (s.Reads (u ++ v) → s.LeftmostExtends u v) := by
  obtain ⟨⟨x, hx⟩, hv⟩ := h
  obtain ⟨y, hy⟩ := allowsTokenChecked_append hx
  -- the verdict on `v` is taken where `advance` ends, at the leftmost residual
  have hverdict : ∀ r, (reader s.grammar).Leftmost s.continuation u r →
      (({ s with continuation := r } : GrammarState).allowsToken v = true ↔
        (reader s.grammar).Reads r v) := by
    intro r hleft
    obtain ⟨-, s', hadv, rfl⟩ :=
      (allows_and_advance_iff hy (· = { s with continuation := r })).mpr ⟨r, hleft, rfl⟩
    obtain ⟨z, hz⟩ := hv _ hadv
    exact allowsToken_iff hz
  rw [SplitIndependent, allowsToken_iff hx, allows_and_advance_iff hy (·.allowsToken v = true)]
  refine imp_congr_right fun _ => exists_congr fun r => ?_
  exact and_congr_right fun hleft => hverdict r hleft

theorem produces_iff {s : GrammarState} {tokens : List (List UInt8)}
    (h : s.TokensWithinLimits tokens) : s.Produces tokens ↔ s.LeftmostThroughout tokens := by
  induction tokens generalizing s with
  | nil => exact Iff.rfl
  | cons t ts ih =>
    obtain ⟨⟨x, hx⟩, hrest⟩ := h
    rw [Produces, allows_and_advance_iff hx (·.Produces ts), LeftmostThroughout]
    refine exists_congr fun r => and_congr_right fun hleft => ?_
    obtain ⟨-, s', hadv, rfl⟩ :=
      (allows_and_advance_iff hx (· = { s with continuation := r })).mpr ⟨r, hleft, rfl⟩
    exact ih (hrest _ hadv)

/-- **When the split into tokens does not matter.**  In every state reached, a
text allowed in one token is allowed in two exactly when it cannot be read or
the leftmost reading of its first part can be continued; and a token sequence
produces a sentence exactly when the leftmost readings of its tokens, one after
the other, do. -/
theorem splitIndependent_iff (g : Grammar) :
    (∀ s, Reachable g s → ∀ u v, s.WithinSimLimits u v →
      (s.SplitIndependent u v ↔ (s.Reads (u ++ v) → s.LeftmostExtends u v))) ∧
    ∀ tokens, g.initialState.TokensWithinLimits tokens →
      (g.initialState.Produces tokens ↔ g.initialState.LeftmostThroughout tokens) :=
  ⟨fun _ _ _ _ h => splitIndependent_step h, fun _ h => produces_iff h⟩

/-- `ab` is allowed by `"a" | "ab"`, but not `a` followed by `b`: consuming `a`
commits to the first alternative. -/
theorem not_splitIndependent_commonHead :
    ¬ ∀ text g, Grammar.parse text = .ok g → ∀ s, Reachable g s → ∀ u v,
      s.WithinSimLimits u v → s.SplitIndependent u v := by
  intro h
  have hlimits : commonHead.initialState.WithinSimLimits [0x61] [0x62] := by
    refine ⟨⟨true, rfl⟩, fun s' hs' => ?_⟩
    obtain rfl := Except.ok.inj hs'
    exact ⟨false, rfl⟩
  obtain ⟨-, s', hadv, hallows⟩ :=
    h _ commonHead parse_commonHead _ ⟨[], rfl⟩ [0x61] [0x62] hlimits rfl
  obtain rfl := Except.ok.inj hadv
  exact absurd hallows (by decide)

/-- The same alternatives, the longer one first. -/
def longerFirst : Grammar where
  rules := (∅ : AList fun _ : String => GrammarNode).insert "root"
    (.alternation [.literal [0x61, 0x62], .literal [0x61]])
  root := "root"
  source := "root ::= \"ab\" | \"a\""

/-- With the longer alternative first, `ab` can be split after `a`. -/
theorem splitIndependent_iff_longerFirst :
    longerFirst.initialState.SplitIndependent [0x61] [0x62] ∧
      longerFirst.initialState.Produces [[0x61], [0x62]] := by
  have hroot : (reader longerFirst).branches [.ruleRef "root"] =
      [] ++ [.alternation [.literal [0x61, 0x62], .literal [0x61]]] :: [] := rfl
  have halts : (reader longerFirst).branches
      [.alternation [.literal [0x61, 0x62], .literal [0x61]]] =
        [] ++ [.literal [0x61, 0x62]] :: [[.literal [0x61]]] := rfl
  have hleft : (reader longerFirst).Leftmost [.ruleRef "root"] [0x61] [.literal [0x62]] :=
    .branch rfl hroot (by simp) (.branch rfl halts (by simp) (.eat rfl (.nil _)))
  have hleft' : (reader longerFirst).Leftmost [.literal [0x62]] [0x62] [] := .eat rfl (.nil _)
  constructor
  · refine ((splitIndependent_iff longerFirst).1 _ ⟨[], rfl⟩ _ _ ?_).mpr fun _ => ?_
    · refine ⟨⟨true, rfl⟩, fun s' hs' => ?_⟩
      obtain rfl := Except.ok.inj hs'
      exact ⟨true, rfl⟩
    · exact ⟨_, hleft, _, hleft'.residual⟩
  · refine ((splitIndependent_iff longerFirst).2 _ ?_).mpr ?_
    · refine ⟨⟨true, rfl⟩, fun s₁ h₁ => ?_⟩
      obtain rfl := Except.ok.inj h₁
      refine ⟨⟨true, rfl⟩, fun s₂ _ => trivial⟩
    · exact ⟨_, hleft, _, hleft', generates_sequence_nil.mpr rfl⟩

/-! ### Consuming in place -/

/-- `GrammarState::advance` on the state behind `&mut self`: the outcome, and the
state left behind.  The continuation is stored to only when the simulator has
returned one. -/
def commit (s : GrammarState) (tokenBytes : List UInt8) : GrammarResult Unit × GrammarState :=
  if tokenBytes.isEmpty then (.ok (), s)
  else
    match advanceBytes (advanceOneByte s.grammar maxDepth) s.continuation tokenBytes with
    | .error e => (.error e, s)
    | .ok newCont => (.ok (), { s with continuation := newCont })

theorem commit_of_advance_eq_ok {s s' : GrammarState} {w : List UInt8}
    (h : s.advance w = .ok s') : s.commit w = (.ok (), s') := by
  rw [advance] at h
  rw [commit]
  split at h
  · obtain rfl := Except.ok.inj h
    rw [if_pos (by assumption)]
  · rw [if_neg (by assumption)]
    cases hc : advanceBytes (advanceOneByte s.grammar maxDepth) s.continuation w with
    | error e =>
      rw [hc] at h
      cases h
    | ok newCont =>
      rw [hc] at h
      obtain rfl := Except.ok.inj h
      rfl

theorem commit_of_advance_eq_error {s : GrammarState} {w : List UInt8} {e : GrammarError}
    (h : s.advance w = .error e) : s.commit w = (.error e, s) := by
  rw [advance] at h
  rw [commit]
  split at h
  · cases h
  · rw [if_neg (by assumption)]
    cases hc : advanceBytes (advanceOneByte s.grammar maxDepth) s.continuation w with
    | error e' =>
      rw [hc] at h
      obtain rfl := Except.error.inj h
      rfl
    | ok newCont =>
      rw [hc] at h
      cases h

/-! ### Agreement -/

/-- What `advance` consumes could be read. -/
theorem reads_of_advance_eq_ok {s s' : GrammarState} {w : List UInt8}
    (h : s.advance w = .ok s') : s.Reads w :=
  ⟨s'.continuation, (advance_residual h).2⟩

/-- A refused token has no reading, so no choice of `advance` works either. -/
theorem advance_of_refused {s : GrammarState} {w : List UInt8}
    (h : s.allowsTokenChecked w = .ok false) : ∃ e, s.advance w = .error e := by
  cases hadv : s.advance w with
  | error e => exact ⟨e, rfl⟩
  | ok s' =>
    have htrue : false = true := (allowsTokenChecked_iff h).mpr (reads_of_advance_eq_ok hadv)
    cases htrue

/-- **The mask and the commit agree.**  In every state reached and for every
non-empty token of at most `MAX_SIM_BYTES` bytes, a token found allowed is
consumed; a token found not allowed is an error of `advance`, which leaves the
state as it was. -/
theorem commit_of_verdict (g : Grammar) (s : GrammarState) (_ : Reachable g s)
    (token : List UInt8) (_ : token ≠ []) (_ : token.length ≤ maxSimBytes) :
    (s.allowsTokenChecked token = .ok true → (s.commit token).1 = .ok ()) ∧
      (s.allowsTokenChecked token = .ok false →
        (∃ e, (s.commit token).1 = .error e) ∧ (s.commit token).2 = s) := by
  constructor
  · intro hallowed
    obtain ⟨r, hr, -⟩ := advance_leftmost hallowed
    rw [commit_of_advance_eq_ok hr]
  · intro hrefused
    obtain ⟨e, he⟩ := advance_of_refused hrefused
    rw [commit_of_advance_eq_error he]
    exact ⟨⟨e, rfl⟩, rfl⟩

/-- `"a" | "ab"` consumes `a` and refuses `b`. -/
theorem commit_of_verdict_commonHead :
    (commonHead.initialState.commit [0x61]).1 = .ok () ∧
      (commonHead.initialState.commit [0x62]).2 = commonHead.initialState :=
  ⟨(commit_of_verdict commonHead _ ⟨[], rfl⟩ [0x61] (by simp) (by decide)).1 rfl,
    ((commit_of_verdict commonHead _ ⟨[], rfl⟩ [0x62] (by simp) (by decide)).2 rfl).2⟩

end GrammarState

end Oxillama
