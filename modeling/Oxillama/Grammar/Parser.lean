/-
The GBNF parser (`oxillama-runtime/src/sampling/grammar/parser.rs`, `error.rs`).

`GbnfParser` keeps what is left of the input and the number of bytes read, so
`peek` is the head of the list.  The parser is recursive descent: the functions
below an alternation take as `group` the parser for what stands between
parentheses, and `parseAlternation` ties the knot.  The loops of the source
count down from the number of bytes left, plus one: every round of each of them
reads a byte.
-/
import Mathlib.Data.List.AList

namespace Oxillama

namespace Grammar

/-! ### Errors -/

/-- `GrammarError`. -/
inductive GrammarError
  /-- Syntax error at byte `pos` of the grammar text. -/
  | parseError (pos : ℕ) (msg : String)
  | stuck
  | unknownRule (rule : String)
  | recursionLimit (rule : String)
  | tokenTooLong (len max : ℕ)
  | unsupportedKeyword (keyword reason : String)
  deriving DecidableEq, Repr

/-- `GrammarResult`. -/
abbrev GrammarResult (α : Type) := Except GrammarError α

/-! ### Grammars -/

/-- `CharRange`: an inclusive range of bytes. -/
structure CharRange where
  lo : UInt8
  hi : UInt8
  deriving DecidableEq, Repr

namespace CharRange

/-- `CharRange::single`. -/
def single (b : UInt8) : CharRange := ⟨b, b⟩

/-- `CharRange::range`. -/
def range (lo hi : UInt8) : CharRange := ⟨lo, hi⟩

/-- `CharRange::contains`. -/
def contains (r : CharRange) (b : UInt8) : Bool := r.lo ≤ b && b ≤ r.hi

end CharRange

/-- `GrammarNode`. -/
inductive GrammarNode
  | literal (bytes : List UInt8)
  | charClass (ranges : List CharRange) (negated : Bool)
  | ruleRef (name : String)
  | sequence (items : List GrammarNode)
  | alternation (alts : List GrammarNode)
  | «repeat» (node : GrammarNode) (min : ℕ) (max : Option ℕ)

end Grammar

open Grammar in
/-- `Grammar`: rules by name, the name of the root rule, and the text the
grammar was read from. -/
structure Grammar where
  rules : AList fun _ : String => GrammarNode
  root : String
  source : String

namespace Grammar

/-! ### The cursor -/

/-- `GbnfParser`: the input from `pos` on, and `pos`. -/
structure GbnfParser where
  rest : List UInt8
  pos : ℕ

/-- A function on `&mut GbnfParser`. -/
abbrev ParseM := StateT GbnfParser GrammarResult

/-- `b as char`. -/
def asChar (b : UInt8) : Char := Char.ofNat b.toNat

/-- `GbnfParser::parse_error`, raised. -/
def parseError {α : Type} (msg : String) : ParseM α := do
  throw (.parseError (← get).pos msg)

/-- `GbnfParser::peek`. -/
def peek : ParseM (Option UInt8) := do return (← get).rest[0]?

/-- `GbnfParser::peek2`. -/
def peek2 : ParseM (Option UInt8) := do return (← get).rest[1]?

/-- `GbnfParser::advance`. -/
def advance : ParseM Unit := modify fun p => ⟨p.rest.tail, p.pos + 1⟩

/-- `GbnfParser::consume`. -/
def consume : ParseM (Option UInt8) := do
  match ← peek with
  | none => return none
  | some b =>
    advance
    return some b

/-- `GbnfParser::expect`. -/
def expect (expected : Char) : ParseM Unit := do
  match ← consume with
  | some b =>
    if asChar b = expected then return
    else parseError ("expected '" ++ expected.toString ++ "' but got '" ++
      (asChar b).toString ++ "'")
  | none => parseError ("expected '" ++ expected.toString ++ "' but reached end of input")

/-- The loops of the source that advance while `peek` satisfies `p`; answers
the bytes passed over. -/
def advanceWhile (p : UInt8 → Bool) : ParseM (List UInt8) := do
  let skipped := (← get).rest.takeWhile p
  modify fun s => ⟨s.rest.dropWhile p, s.pos + skipped.length⟩
  return skipped

/-- More rounds than a loop that reads a byte in each can make. -/
def rounds : ParseM ℕ := do return (← get).rest.length + 1

/-! ### Whitespace and identifiers -/

/-- `GbnfParser::is_ident_start`. -/
def isIdentStart (b : UInt8) : Bool := (asChar b).isAlpha || asChar b == '_'

/-- `GbnfParser::is_ident_cont`. -/
def isIdentCont (b : UInt8) : Bool :=
  (asChar b).isAlphanum || asChar b == '_' || asChar b == '-'

/-- `GbnfParser::skip_inline_ws`. -/
def skipInlineWs : ParseM Unit := do
  let _ ← advanceWhile fun b => asChar b == ' ' || asChar b == '\t'

/-- The loop of `GbnfParser::skip_ws_and_comments`. -/
def skipWsAndCommentsLoop : ℕ → ParseM Unit
  | 0 => return
  | n + 1 => do
    match (← peek).map asChar with
    | some ' ' | some '\t' | some '\r' | some '\n' =>
      advance
      skipWsAndCommentsLoop n
    | some '#' =>
      let _ ← advanceWhile fun b => asChar b != '\n'
      skipWsAndCommentsLoop n
    | _ => return

/-- `GbnfParser::skip_ws_and_comments`. -/
def skipWsAndComments : ParseM Unit := do skipWsAndCommentsLoop (← rounds)

/-- `GbnfParser::parse_ident`.  The bytes of an identifier are ASCII, so the
lossy conversion of the source loses nothing. -/
def parseIdent : ParseM String := do
  match ← peek with
  | some b =>
    if isIdentStart b then
      advance
      let more ← advanceWhile isIdentCont
      return String.ofList ((b :: more).map asChar)
    else parseError "expected identifier"
  | none => parseError "expected identifier"

/-! ### Literals and character classes -/

/-- `GbnfParser::consume_hex_digit`. -/
def consumeHexDigit : ParseM UInt8 := do
  match ← consume with
  | some b =>
    if 0x30 ≤ b && b ≤ 0x39 then return b - 0x30
    else if 0x61 ≤ b && b ≤ 0x66 then return b - 0x61 + 10
    else if 0x41 ≤ b && b ≤ 0x46 then return b - 0x41 + 10
    else parseError ("expected hex digit, got '" ++ (asChar b).toString ++ "'")
  | none => parseError "expected hex digit, reached end of input"

/-- `\xHH`: two hex digits, the high one first. -/
def parseHexByte : ParseM UInt8 := do
  let hi ← consumeHexDigit
  let lo ← consumeHexDigit
  return (hi <<< 4) ||| lo

/-- The loop that reads the digits of a Unicode escape up to its closing
brace: at most six of them. -/
def parseCodepoint : ℕ → UInt32 → ℕ → ParseM UInt32
  | 0, codepoint, _ => return codepoint
  | n + 1, codepoint, digits => do
    if (← peek).map asChar = some '\x7d' then return codepoint
    let d ← consumeHexDigit
    let codepoint := (codepoint <<< 4) ||| d.toUInt32
    if digits + 1 > 6 then parseError "\\u\x7b...\x7d codepoint too large"
    else parseCodepoint n codepoint (digits + 1)

/-- `char::from_u32`. -/
def charFromU32 (codepoint : UInt32) : Option Char :=
  if h : codepoint.isValidChar then some ⟨codepoint, h⟩ else none

/-- `GbnfParser::parse_escape_sequence`. -/
def parseEscapeSequence : ParseM (List UInt8) := do
  match ← consume with
  | none => parseError "truncated escape sequence"
  | some b =>
    match asChar b with
    | 'n' => return [0x0a]
    | 'r' => return [0x0d]
    | 't' => return [0x09]
    | '\\' => return [0x5c]
    | '"' => return [0x22]
    | '\'' => return [0x27]
    | '0' => return [0x00]
    | 'x' => return [← parseHexByte]
    | 'u' =>
      expect '\x7b'
      let codepoint ← parseCodepoint (← rounds) 0 0
      expect '\x7d'
      match charFromU32 codepoint with
      | some ch => return String.utf8EncodeChar ch
      | none => parseError "invalid Unicode codepoint"
    | c => parseError ("unknown escape sequence '\\" ++ c.toString ++ "'")

/-- The loop of `GbnfParser::parse_string_literal`. -/
def parseStringBytes : ℕ → List UInt8 → ParseM (List UInt8)
  | 0, bytes => return bytes
  | n + 1, bytes => do
    match ← consume with
    | none => parseError "unterminated string literal"
    | some b =>
      match asChar b with
      | '"' => return bytes
      | '\\' =>
        let escaped ← parseEscapeSequence
        parseStringBytes n (bytes ++ escaped)
      | _ => parseStringBytes n (bytes ++ [b])

/-- `GbnfParser::parse_string_literal`. -/
def parseStringLiteral : ParseM GrammarNode := do
  expect '"'
  let bytes ← parseStringBytes (← rounds) []
  return .literal bytes

/-- `GbnfParser::parse_class_escape`. -/
def parseClassEscape : ParseM UInt8 := do
  match ← consume with
  | none => parseError "truncated class escape"
  | some b =>
    match asChar b with
    | 'n' => return 0x0a
    | 'r' => return 0x0d
    | 't' => return 0x09
    | '\\' => return 0x5c
    | ']' => return 0x5d
    | '-' => return 0x2d
    | '^' => return 0x5e
    | 'x' => parseHexByte
    | c => parseError ("unknown class escape '\\" ++ c.toString ++ "'")

/-- `GbnfParser::parse_class_byte`. -/
def parseClassByte : ParseM UInt8 := do
  match ← peek with
  | some b =>
    advance
    if asChar b = '\\' then parseClassEscape else return b
  | none => parseError "unexpected end inside character class"

/-- The range or single byte that starts with `lo`: a `-` makes a range unless
the class ends right after it. -/
def parseClassRange (lo : UInt8) : ParseM CharRange := do
  if (← peek).map asChar = some '-' ∧ (← peek2).map asChar ≠ some ']' then
    advance
    let hi ← parseClassByte
    return .range lo hi
  else return .single lo

/-- The loop of `GbnfParser::parse_char_class`. -/
def parseClassRanges : ℕ → List CharRange → ParseM (List CharRange)
  | 0, ranges => return ranges
  | n + 1, ranges => do
    match (← peek).map asChar with
    | none => parseError "unterminated character class"
    | some ']' =>
      advance
      return ranges
    | some '\\' =>
      advance
      let b ← parseClassEscape
      let range ← parseClassRange b
      parseClassRanges n (ranges ++ [range])
    | some _ =>
      let lo ← parseClassByte
      let range ← parseClassRange lo
      parseClassRanges n (ranges ++ [range])

/-- `GbnfParser::parse_char_class`. -/
def parseCharClass : ParseM GrammarNode := do
  expect '['
  let negated := (← peek).map asChar = some '^'
  if negated then advance
  let ranges ← parseClassRanges (← rounds) []
  return .charClass ranges negated

/-! ### Atoms, sequences and alternations -/

/-- `GbnfParser::parse_atom`. -/
def parseAtom (group : ParseM GrammarNode) : ParseM GrammarNode := do
  match ← peek with
  | none => parseError "unexpected end of input"
  | some b =>
    match asChar b with
    | '"' => parseStringLiteral
    | '[' => parseCharClass
    | '(' =>
      advance
      skipInlineWs
      let inner ← group
      skipInlineWs
      expect ')'
      return inner
    | c =>
      if isIdentStart b then return .ruleRef (← parseIdent)
      else parseError ("unexpected character '" ++ c.toString ++ "' in grammar")

/-- `GbnfParser::parse_quantifier`. -/
def parseQuantifier (base : GrammarNode) : ParseM GrammarNode := do
  match (← peek).map asChar with
  | some '*' =>
    advance
    return .repeat base 0 none
  | some '+' =>
    advance
    return .repeat base 1 none
  | some '?' =>
    advance
    return .repeat base 0 (some 1)
  | _ => return base

/-- `GbnfParser::parse_item`. -/
def parseItem (group : ParseM GrammarNode) : ParseM GrammarNode := do
  parseQuantifier (← parseAtom group)

/-- The loop of `GbnfParser::parse_sequence`. -/
def parseItems (group : ParseM GrammarNode) : ℕ → List GrammarNode → ParseM (List GrammarNode)
  | 0, items => return items
  | n + 1, items => do
    skipInlineWs
    match (← peek).map asChar with
    | none | some '\n' | some '\r' | some '|' | some ')' | some '#' => return items
    | some _ =>
      let item ← parseItem group
      parseItems group n (items ++ [item])

/-- `GbnfParser::parse_sequence`. -/
def parseSequence (group : ParseM GrammarNode) : ParseM GrammarNode := do
  match ← parseItems group (← rounds) [] with
  | [] => return .literal []
  | [item] => return item
  | items => return .sequence items

/-- The loop of `GbnfParser::parse_alternation`. -/
def parseAlternatives (group : ParseM GrammarNode) :
    ℕ → List GrammarNode → ParseM (List GrammarNode)
  | 0, alternatives => return alternatives
  | n + 1, alternatives => do
    if (← peek).map asChar = some '|' then
      advance
      skipInlineWs
      let alternative ← parseSequence group
      skipInlineWs
      parseAlternatives group n (alternatives ++ [alternative])
    else return alternatives

/-- `GbnfParser::parse_alternation`, up to `n` levels of parentheses deep. -/
def parseAlternation : ℕ → ParseM GrammarNode
  | 0 => parseError "unexpected end of input"
  | n + 1 => do
    let group := parseAlternation n
    let first ← parseSequence group
    skipInlineWs
    if (← peek).map asChar = some '|' then
      return .alternation (← parseAlternatives group (← rounds) [first])
    else return first

/-! ### Grammars -/

/-- The loop of `GbnfParser::parse_grammar`. -/
def parseRules : ℕ → AList (fun _ : String => GrammarNode) → Option String →
    ParseM (AList (fun _ : String => GrammarNode) × Option String)
  | 0, rules, firstRule => return (rules, firstRule)
  | n + 1, rules, firstRule => do
    if (← get).rest = [] then return (rules, firstRule)
    let name ← parseIdent
    skipInlineWs
    if ((← get).rest.take 3).map asChar = [':', ':', '='] then
      modify fun p => ⟨p.rest.drop 3, p.pos + 3⟩
      skipInlineWs
      let node ← parseAlternation (← rounds)
      skipWsAndComments
      parseRules n (rules.insert name node) (firstRule.or (some name))
    else parseError "expected '::=' after rule name"

/-- `GbnfParser::parse_grammar`. -/
def parseGrammar : ParseM Grammar := do
  skipWsAndComments
  let (rules, firstRule) ← parseRules (← rounds) ∅ none
  if rules.keys = [] then throw (.parseError 0 "grammar has no rules")
  let root := if rules.lookup "root" |>.isSome then "root" else firstRule.getD ""
  return { rules := rules, root := root, source := "" }

/-- `Grammar::parse`. -/
def parse (input : String) : GrammarResult Grammar := do
  let (grammar, _) ← parseGrammar ⟨input.toUTF8.data.toList, 0⟩
  return { grammar with source := input }

/-- `Grammar::root_node`. -/
def rootNode (g : Grammar) : GrammarResult GrammarNode :=
  match g.rules.lookup g.root with
  | some node => .ok node
  | none => .error (.unknownRule g.root)

end Grammar

end Oxillama
