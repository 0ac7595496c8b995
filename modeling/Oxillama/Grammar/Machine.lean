/-
The grammar state machine (`oxillama-runtime/src/sampling/grammar/machine.rs`).

A `GrammarState` is the list of grammar nodes still to be matched.
`allows_token` simulates a token from it through every choice; `advance`
consumes the token along the first choice that works and keeps what is then
left to match.

Each recursive call of the source counts against `MAX_DEPTH`; here the functions
take the number of calls still allowed as `levels` and recurse on it.  The
wrapper `ContNode` holds a node and nothing else, so a continuation is a list of
nodes.
-/
import Oxillama.Grammar.Parser

namespace Oxillama

namespace Grammar

/-- `MAX_DEPTH`. -/
def maxDepth : ℕ := 128

/-- `MAX_SIM_BYTES`. -/
def maxSimBytes : ℕ := 64

/-- Whether a character class takes `b`. -/
def classMatches (ranges : List CharRange) (negated : Bool) (b : UInt8) : Bool :=
  let inClass := ranges.any (·.contains b)
  if negated then !inClass else inClass

/-- One more occurrence of a repetition, and the repetition that is left after
it; `none` when no more occurrences are allowed. -/
def unroll (node : GrammarNode) (min : ℕ) (max : Option ℕ) : Option (List GrammarNode) :=
  if max.all (0 < ·) then some [node, .repeat node (min - 1) (max.map (· - 1))] else none

/-! ### Empty matches -/

/-- `GrammarState::node_can_match_empty`. -/
def nodeCanMatchEmpty (g : Grammar) : ℕ → GrammarNode → Bool
  | 0, _ => false
  | levels + 1, node =>
    match node with
    | .literal bytes => bytes.isEmpty
    | .charClass _ _ => false
    | .ruleRef name =>
      match g.rules.lookup name with
      | some ruleNode => nodeCanMatchEmpty g levels ruleNode
      | none => false
    | .sequence items => items.all fun n => nodeCanMatchEmpty g levels n
    | .alternation alts => alts.any fun n => nodeCanMatchEmpty g levels n
    | .repeat _ min _ => min == 0

/-- `GrammarState::can_match_empty_continuation`. -/
def canMatchEmptyContinuation (g : Grammar) : ℕ → List GrammarNode → Bool
  | 0, _ => false
  | _ + 1, [] => true
  | levels + 1, first :: rest =>
    nodeCanMatchEmpty g levels first && canMatchEmptyContinuation g levels rest

/-! ### Simulation -/

/-- `SimState::simulate_bytes`; `consume` is `try_consume_byte`. -/
def simulateBytes (consume : List GrammarNode → UInt8 → List UInt8 → GrammarResult Bool)
    (cont : List GrammarNode) : List UInt8 → GrammarResult Bool
  | [] => .ok true
  | b :: rest => consume cont b rest

/-- `SimState::try_consume_byte`. -/
def tryConsumeByte (g : Grammar) :
    ℕ → List GrammarNode → UInt8 → List UInt8 → GrammarResult Bool
  | 0, _, _, _ => .error (.recursionLimit "(allows_token)")
  | _ + 1, [], _, _ => .ok false
  | levels + 1, first :: tail, b, rest =>
    match first with
    | .literal [] => tryConsumeByte g levels tail b rest
    | .literal (x :: remainder) =>
      if x = b then
        if remainder.isEmpty then simulateBytes (tryConsumeByte g levels) tail rest
        else simulateBytes (tryConsumeByte g levels) (.literal remainder :: tail) rest
      else .ok false
    | .charClass ranges negated =>
      if classMatches ranges negated b then simulateBytes (tryConsumeByte g levels) tail rest
      else .ok false
    | .ruleRef name =>
      match g.rules.lookup name with
      | some ruleNode => tryConsumeByte g levels (ruleNode :: tail) b rest
      | none => .ok false
    | .sequence items => tryConsumeByte g levels (items ++ tail) b rest
    | .alternation alts => alts.anyM fun alt => tryConsumeByte g levels (alt :: tail) b rest
    | .repeat node min max => do
      -- no further occurrence, allowed when the minimum is reached
      if min = 0 then
        if ← tryConsumeByte g levels tail b rest then return true
      match unroll node min max with
      | some more => tryConsumeByte g levels (more ++ tail) b rest
      | none => return false

/-- `SimState::advance_bytes`; `advanceOne` is `advance_one_byte`. -/
def advanceBytes
    (advanceOne : List GrammarNode → UInt8 → List UInt8 → GrammarResult (List GrammarNode))
    (cont : List GrammarNode) : List UInt8 → GrammarResult (List GrammarNode)
  | [] => .ok cont
  | b :: rest => advanceOne cont b rest

/-- `SimState::advance_one_byte`. -/
def advanceOneByte (g : Grammar) :
    ℕ → List GrammarNode → UInt8 → List UInt8 → GrammarResult (List GrammarNode)
  | 0, _, _, _ => .error (.recursionLimit "(advance)")
  | _ + 1, [], _, _ => .error .stuck
  | levels + 1, first :: tail, b, rest =>
    match first with
    | .literal [] => advanceOneByte g levels tail b rest
    | .literal (x :: remainder) =>
      if x = b then
        if remainder.isEmpty then advanceBytes (advanceOneByte g levels) tail rest
        else advanceBytes (advanceOneByte g levels) (.literal remainder :: tail) rest
      else .error .stuck
    | .charClass ranges negated =>
      if classMatches ranges negated b then advanceBytes (advanceOneByte g levels) tail rest
      else .error .stuck
    | .ruleRef name =>
      match g.rules.lookup name with
      | some ruleNode => advanceOneByte g levels (ruleNode :: tail) b rest
      | none => .error (.unknownRule name)
    | .sequence items => advanceOneByte g levels (items ++ tail) b rest
    | .alternation alts =>
      -- the first alternative that works; the errors of the others are dropped
      match alts.findSome? fun alt => (advanceOneByte g levels (alt :: tail) b rest).toOption with
      | some c => .ok c
      | none => .error .stuck
    | .repeat node min max =>
      let stop := if min = 0 then (advanceOneByte g levels tail b rest).toOption else none
      match stop with
      | some c => .ok c
      | none =>
        match unroll node min max with
        | some more =>
          match advanceOneByte g levels (more ++ tail) b rest with
          | .ok c => .ok c
          | .error _ => .error .stuck
        | none => .error .stuck

end Grammar

open Grammar

/-! ### States -/

/-- `GrammarState`: the nodes still to be matched, the soonest first. -/
structure GrammarState where
  continuation : List GrammarNode
  grammar : Grammar

namespace GrammarState

/-- `GrammarState::new`. -/
def new (grammar : Grammar) : GrammarState where
  continuation := [.ruleRef grammar.root]
  grammar := grammar

/-- `GrammarState::is_complete`. -/
def isComplete (s : GrammarState) : Bool :=
  canMatchEmptyContinuation s.grammar (maxDepth + 1) s.continuation

/-- `GrammarState::allows_token_checked`. -/
def allowsTokenChecked (s : GrammarState) (tokenBytes : List UInt8) : GrammarResult Bool :=
  if tokenBytes.isEmpty then .ok true
  else if tokenBytes.length > maxSimBytes then
    .error (.tokenTooLong tokenBytes.length maxSimBytes)
  else simulateBytes (tryConsumeByte s.grammar maxDepth) s.continuation tokenBytes

/-- `GrammarState::allows_token`. -/
def allowsToken (s : GrammarState) (tokenBytes : List UInt8) : Bool :=
  match s.allowsTokenChecked tokenBytes with
  | .ok allowed => allowed
  | .error _ => false

/-- `GrammarState::advance`: the state afterwards; on an error the state stays
what it was. -/
def advance (s : GrammarState) (tokenBytes : List UInt8) : GrammarResult GrammarState :=
  if tokenBytes.isEmpty then .ok s
  else do
    let newCont ← advanceBytes (advanceOneByte s.grammar maxDepth) s.continuation tokenBytes
    return { s with continuation := newCont }

/-- Advance by several tokens, one after the other. -/
def advanceAll (s : GrammarState) (tokens : List (List UInt8)) : GrammarResult GrammarState :=
  tokens.foldlM advance s

end GrammarState

/-- `Grammar::initial_state`. -/
def Grammar.initialState (g : Grammar) : GrammarState := .new g

/-- `s` is reached from the initial state of its grammar by advancing. -/
def GrammarState.Reachable (g : Grammar) (s : GrammarState) : Prop :=
  ∃ tokens, g.initialState.advanceAll tokens = .ok s

end Oxillama
