/-
The JSON-Schema compiler
(`oxillama-runtime/src/sampling/grammar/json_schema.rs`).

`SchemaCompiler` collects rules as text, and `compile_schema` answers the text of an
expression.  The functions it calls on parts of a schema take it as `compile`;
`compileSchema` ties the knot, for schemas nested no deeper than it is told.
-/
import Oxillama.Grammar.Parser
import Oxillama.Schema.Value

namespace Oxillama

namespace Schema

open Grammar (GrammarError GrammarResult)

/-- `SchemaCompiler`. -/
structure SchemaCompiler where
  rules : List (String × String)
  counter : ℕ

/-- A method of `&mut SchemaCompiler`. -/
abbrev CompileM := StateT SchemaCompiler GrammarResult

/-- `Map::contains_key`. -/
def Object.containsKey (obj : Object) (name : String) : Bool := (obj.get name).isSome

/-! ### Rules -/

/-- `next_rule_name`. -/
def nextRuleName : CompileM String := do
  let c ← get
  set { c with counter := c.counter + 1 }
  return "rule-" ++ Nat.repr c.counter

/-- `add_rule`. -/
def addRule (name body : String) : CompileM String := do
  modify fun c => { c with rules := c.rules ++ [(name, body)] }
  return name

/-- `has_rule`. -/
def hasRule (name : String) : CompileM Bool := do
  return (← get).rules.any fun r => r.1 == name

/-- A helper rule that is added unless it is there: what `ensure_ws_rule` and its likes do. -/
def ensureRule (name body : String) : CompileM Unit := do
  if !(← hasRule name) then
    let _ ← addRule name body

/-- `ensure_ws_rule`. -/
def ensureWsRule : CompileM String := do
  ensureRule "ws" "[ \\t\\n\\r]*"
  return "ws"

/-- `ensure_string_char_rule`. -/
def ensureStringCharRule : CompileM Unit := ensureRule "string-char" "[^\\x00-\\x1f\"\\\\]"

/-- `ensure_number_rule`. -/
def ensureNumberRule : CompileM Unit :=
  ensureRule "json-number" "\"-\"? [0-9]+ (\".\" [0-9]+)?"

/-- `ensure_integer_rule`. -/
def ensureIntegerRule : CompileM Unit := ensureRule "json-integer" "\"-\"? [0-9]+"

/-- `any_json_expr`. -/
def anyJsonExpr : CompileM String := do
  ensureStringCharRule
  ensureNumberRule
  ensureRule "json-value"
    "\"\\\"\" string-char* \"\\\"\" | json-number | \"true\" | \"false\" | \"null\""
  return "json-value"

/-! ### Utility functions -/

/-- `[String]::join`. -/
def join (sep : String) : List String → String
  | [] => ""
  | [s] => s
  | s :: s' :: parts => s ++ sep ++ join sep (s' :: parts)

/-- `is_inline_expr`. -/
def isInlineExpr (expr : String) : Bool := expr.utf8ByteSize < 64 && !expr.toList.contains '\n'

/-- The expression itself, or a new rule for it: what every user of `is_inline_expr` does. -/
def inlineOrRule (expr : String) : CompileM String :=
  if isInlineExpr expr then return expr
  else do
    let name ← nextRuleName
    addRule name expr

/-- How `escape_gbnf_literal` writes a character. -/
def escapeGbnfChar (c : Char) : Text :=
  match c with
  | '"' => ['\\', '"']
  | '\\' => ['\\', '\\']
  | '\n' => ['\\', 'n']
  | '\r' => ['\\', 'r']
  | '\t' => ['\\', 't']
  | c => [c]

/-- `escape_gbnf_literal`. -/
def escapeGbnfLiteral (s : String) : String := String.ofList (s.toList.flatMap escapeGbnfChar)

/-- `reject_unsupported_numeric_range`. -/
def rejectUnsupportedNumericRange (obj : Object) : GrammarResult Unit :=
  match ["minimum", "maximum", "exclusiveMinimum", "exclusiveMaximum"].find? obj.containsKey with
  | some kw => throw (.unsupportedKeyword kw ("numeric range constraints cannot be expressed as " ++
      "a regular (GBNF) grammar; omit the keyword and validate the range downstream of " ++
      "generation instead"))
  | none => return

/-- The nested optional copies of `bounded_repeat`. -/
def optionalTail (atom : String) : ℕ → String
  | 0 => ""
  | 1 => "(" ++ atom ++ ")?"
  | n + 2 => "(" ++ atom ++ " " ++ optionalTail atom (n + 1) ++ ")?"

/-- `bounded_repeat`. -/
def boundedRepeat (atom : String) (min : ℕ) (max : Option ℕ) : String :=
  let tail := match max with
    | some max => if min < max then [optionalTail atom (max - min)] else []
    | none => ["(" ++ atom ++ ")*"]
  join " " (List.replicate min atom ++ tail)

/-- `bounded_list`. -/
def boundedList (item ws : String) (min : ℕ) (max : Option ℕ) : String :=
  let sepItem := ws ++ " \",\" " ++ ws ++ " " ++ item
  if max = some 0 then ""
  else if min = 0 then
    let rest := match max with
      | some m => boundedRepeat sepItem 0 (some (m - 1))
      | none => "(" ++ sepItem ++ ")*"
    let body := if rest.isEmpty then item else item ++ " " ++ rest
    "(" ++ body ++ ")?"
  else
    let rest := boundedRepeat sepItem (min - 1) (max.map (· - 1))
    if rest.isEmpty then item else item ++ " " ++ rest

/-! ### Constants and enumerations -/

/-- `compile_const`. -/
def compileConst : Value → String
  | .string s => "\"\\\"\" \"" ++ escapeGbnfLiteral s ++ "\" \"\\\"\""
  | .null => "\"null\""
  | .bool b => "\"" ++ toString b ++ "\""
  | .number n => "\"" ++ String.ofList n.toText ++ "\""
  | v => "\"" ++ escapeGbnfLiteral v.display ++ "\""

/-- One alternative of `compile_enum`. -/
def enumAlternative : Value → GrammarResult String
  | .string s => return "\"\\\"\" \"" ++ escapeGbnfLiteral s ++ "\" \"\\\"\""
  | .null => return "\"null\""
  | .bool b => return "\"" ++ toString b ++ "\""
  | .number n => return "\"" ++ String.ofList n.toText ++ "\""
  | other => throw (.parseError 0 ("unsupported enum value type: " ++ other.display))

/-- `compile_enum`. -/
def compileEnum : Value → GrammarResult String
  | .array [] => throw (.parseError 0 "`enum` array must not be empty")
  | .array variants => return join " | " (← variants.mapM enumAlternative)
  | other => throw (.parseError 0 ("`enum` must be an array, got " ++ other.display))

/-! ### Strings and numbers -/

/-- The characters that `compile_string_type` takes for regular expressions. -/
def metacharacters : List Char :=
  ['.', '*', '+', '?', '(', ')', '[', ']', '\x7b', '\x7d', '^', '$', '|', '\\']

/-- `compile_string_type`. -/
def compileStringType (obj : Object) : CompileM String :=
  match obj.get "pattern" with
  | some (.string pattern) =>
    if pattern.toList.any metacharacters.contains then
      throw (.parseError 0 ("schema `pattern` with regex metacharacters is not supported; " ++
        "only literal strings are allowed"))
    else return "\"" ++ escapeGbnfLiteral pattern ++ "\""
  | _ => do
    ensureStringCharRule
    let minLength := (obj.get "minLength").bind Value.asU64
    let maxLength := (obj.get "maxLength").bind Value.asU64
    if minLength.isSome || maxLength.isSome then
      match minLength, maxLength with
      | some min, some max =>
        if max < min then
          throw (.parseError 0 ("minLength (" ++ Nat.repr min ++ ") > maxLength (" ++
            Nat.repr max ++ ")"))
      | _, _ => pure ()
      return "\"\\\"\" " ++ boundedRepeat "string-char" (minLength.getD 0) maxLength ++ " \"\\\"\""
    else return "\"\\\"\" string-char* \"\\\"\""

/-- `compile_number_type`. -/
def compileNumberType (obj : Object) : CompileM String := do
  rejectUnsupportedNumericRange obj
  ensureNumberRule
  return "json-number"

/-- `compile_integer_type`. -/
def compileIntegerType (obj : Object) : CompileM String := do
  rejectUnsupportedNumericRange obj
  ensureIntegerRule
  return "json-integer"

/-! ### Objects -/

section Compile

variable (compile : Value → CompileM String)

/-- `"key" : value`, with `ws` around the colon. -/
def memberExpr (ws key valRule : String) : String :=
  "\"\\\"\" \"" ++ escapeGbnfLiteral key ++ "\" \"\\\"\" " ++ ws ++ " \":\" " ++ ws ++ " " ++
    valRule

/-- The part of a required property. -/
def requiredPart (ws : String) (prop : String × Value) : CompileM String := do
  let valRule ← inlineOrRule (← compile prop.2)
  return memberExpr ws prop.1 valRule

/-- The part of an optional property. -/
def optionalPart (ws : String) (prop : String × Value) : CompileM String := do
  let valRule ← inlineOrRule (← compile prop.2)
  let name ← nextRuleName
  let name ← addRule name (memberExpr ws prop.1 valRule)
  return "(" ++ name ++ ")?"

/-- The names in `required`. -/
def requiredSet (obj : Object) : GrammarResult (List String) :=
  match obj.get "required" with
  | some (.array names) => return names.filterMap Value.asStr
  | some other => throw (.parseError 0 ("`required` must be an array, got " ++ other.display))
  | none => return []

/-- The rule for an additional property, if there may be any. -/
def extraPairRule (ws : String) (obj : Object) : CompileM (Option String) := do
  let valExpr ← match obj.get "additionalProperties" with
    | none | some (.bool false) => return none
    | some (.bool true) => anyJsonExpr
    | some schema => compile schema
  ensureStringCharRule
  let valRule ← inlineOrRule valExpr
  let name ← nextRuleName
  let name ← addRule name
    ("\"\\\"\" string-char* \"\\\"\" " ++ ws ++ " \":\" " ++ ws ++ " " ++ valRule)
  return some name

/-- The body of an object: its parts between commas, then the additional properties. -/
def objectBody (ws : String) (parts : List String) (extra : Option String) : String :=
  let joined := match parts, extra with
    | [], some extra => "(" ++ extra ++ " (" ++ ws ++ " \",\" " ++ ws ++ " " ++ extra ++ ")*)?"
    | [], none => ""
    | parts, some extra => join (" " ++ ws ++ " \",\" " ++ ws ++ " ") parts ++
        " (" ++ ws ++ " \",\" " ++ ws ++ " " ++ extra ++ ")*"
    | parts, none => join (" " ++ ws ++ " \",\" " ++ ws ++ " ") parts
  if joined.isEmpty then "\"\x7b\" " ++ ws ++ " \"\x7d\""
  else "\"\x7b\" " ++ ws ++ " " ++ joined ++ " " ++ ws ++ " \"\x7d\""

/-- The order in which properties are compiled. -/
def sortByKey (props : Object) : Object := props.mergeSort fun a b => decide (a.1 ≤ b.1)

/-- `compile_object_type`. -/
def compileObjectType (obj : Object) : CompileM String := do
  let ws ← ensureWsRule
  match obj.get "properties" with
  | some (.object props) =>
    let required ← requiredSet obj
    let requiredParts ← (sortByKey (props.filter fun p => required.contains p.1)).mapM
      (requiredPart compile ws)
    let optionalParts ← (sortByKey (props.filter fun p => !required.contains p.1)).mapM
      (optionalPart compile ws)
    let extra ← extraPairRule compile ws obj
    return objectBody ws (requiredParts ++ optionalParts) extra
  | some other => throw (.parseError 0 ("`properties` must be an object, got " ++ other.display))
  | none =>
    ensureStringCharRule
    let anyVal ← anyJsonExpr
    ensureRule "json-pair"
      ("\"\\\"\" string-char* \"\\\"\" " ++ ws ++ " \":\" " ++ ws ++ " " ++ anyVal)
    return "\"\x7b\" " ++ ws ++ " \"\x7d\" | \"\x7b\" " ++ ws ++ " json-pair (" ++ ws ++
      " \",\" " ++
      ws ++ " json-pair)* " ++ ws ++ " \"\x7d\""

/-! ### Arrays and combinators -/

/-- `compile_array_type`. -/
def compileArrayType (obj : Object) : CompileM String := do
  let ws ← ensureWsRule
  let itemsExpr ← match obj.get "items" with
    | some itemSchema => compile itemSchema
    | none => anyJsonExpr
  let itemsRule ← inlineOrRule itemsExpr
  let minItems := ((obj.get "minItems").bind Value.asU64).getD 0
  let maxItems := (obj.get "maxItems").bind Value.asU64
  match maxItems with
  | some max =>
    if max < minItems then
      throw (.parseError 0 ("minItems (" ++ Nat.repr minItems ++ ") > maxItems (" ++
        Nat.repr max ++ ")"))
  | none => pure ()
  return "\"[\" " ++ ws ++ " " ++ boundedList itemsRule ws minItems maxItems ++ " " ++ ws ++
    " \"]\""

/-- `compile_any_of`. -/
def compileAnyOf (variants : List Value) : CompileM String := do
  if variants.isEmpty then throw (.parseError 0 "`anyOf`/`oneOf` array must not be empty")
  let alts ← variants.mapM fun variant => do inlineOrRule (← compile variant)
  return "(" ++ join " | " alts ++ ")"

/-- The properties and the required names of the branches of `allOf`, merged. -/
def mergeBranches : List Value → Object → List Value → GrammarResult (Object × List Value)
  | [], props, required => return (props, required)
  | .object members :: schemas, props, required =>
    let obj : Object := members
    let isObjectLike := (match obj.get "type" with
      | some (.string t) => t == "object"
      | _ => false) || obj.containsKey "properties"
    if !isObjectLike then
      throw (.unsupportedKeyword "allOf" ("combining non-object schemas (e.g. numeric/string " ++
        "constraints) is not expressible as a regular grammar"))
    else
      let props := match obj.get "properties" with
        | some (.object new) => new.foldl (fun props m => props.insert m.1 m.2) props
        | _ => props
      let required := match obj.get "required" with
        | some (.array names) => required ++ names
        | _ => required
      mergeBranches schemas props required
  | _ :: _, _, _ => throw (.unsupportedKeyword "allOf"
      "only object-schema branches can be merged into a single grammar rule")

/-- The object schema that branches are merged into. -/
def mergedObject (props : Object) (required : List Value) : Object :=
  [("type", .string "object"), ("properties", .object props), ("required", .array required)]

/-- `compile_all_of`. -/
def compileAllOf : List Value → CompileM String
  | [] => throw (.parseError 0 "`allOf` array must not be empty")
  | [schema] => compile schema
  | schemas => do
    let (props, required) ← mergeBranches schemas [] []
    compileObjectType compile (mergedObject props required)

end Compile

/-! ### Schemas -/

/-- How `compile_schema` goes on with a schema. -/
inductive Kind
  | any
  | never
  | invalid (e : GrammarError)
  | const (v : Value)
  | enum (v : Value)
  | anyOf (variants : List Value)
  | allOf (schemas : List Value)
  | string (obj : Object)
  | number (obj : Object)
  | integer (obj : Object)
  | boolean
  | null
  | object (obj : Object)
  | array (obj : Object)

/-- The last step of `compile_schema`: by the name of the type. -/
def kindOfType (obj : Object) : String → Kind
  | "string" => .string obj
  | "number" => .number obj
  | "integer" => .integer obj
  | "boolean" => .boolean
  | "null" => .null
  | "object" => .object obj
  | "array" => .array obj
  | unknown => .invalid (.parseError 0 ("unsupported JSON Schema type: `" ++ unknown ++ "`"))

/-- The step before: a type that is given, or inferred. -/
def kindOfObject (obj : Object) : Kind :=
  match obj.get "type" with
  | some (.string t) => kindOfType obj t
  | some (.array _) => .any
  | some other => .invalid (.parseError 0 ("`type` must be a string, got " ++ other.display))
  | none =>
    if obj.containsKey "properties" then .object obj
    else if obj.containsKey "items" then .array obj
    else .any

/-- The checks of `compile_schema`, in their order. -/
def kind : Value → Kind
  | .object members =>
    let obj : Object := members
    if obj.containsKey "$ref" then
      .invalid (.unknownRule "$ref (JSON Schema $ref is not supported — use inline schemas)")
    else match obj.get "const" with
    | some v => .const v
    | none => match obj.get "enum" with
    | some v => .enum v
    | none => match obj.get "anyOf" with
    | some (.array variants) => .anyOf variants
    | _ => match obj.get "oneOf" with
    | some (.array variants) => .anyOf variants
    | _ => match obj.get "allOf" with
    | some (.array schemas) => .allOf schemas
    | _ => kindOfObject obj
  | .bool true => .any
  | .bool false => .never
  | other => .invalid (.parseError 0 ("schema must be a JSON object, got " ++ other.display))

/-- `compile_schema`, where `compile` compiles the schemas inside. -/
def compileKind (compile : Value → CompileM String) : Kind → CompileM String
  | .any => anyJsonExpr
  | .never => return "\"__never__\""
  | .invalid e => throw e
  | .const v => return compileConst v
  | .enum v => compileEnum v
  | .anyOf variants => compileAnyOf compile variants
  | .allOf schemas => compileAllOf compile schemas
  | .string obj => compileStringType obj
  | .number obj => compileNumberType obj
  | .integer obj => compileIntegerType obj
  | .boolean => return "\"true\" | \"false\""
  | .null => return "\"null\""
  | .object obj => compileObjectType compile obj
  | .array obj => compileArrayType compile obj

/-- `compile_schema`, for schemas nested less than `n` deep. -/
def compileSchema : ℕ → Value → CompileM String
  | 0, _ => throw (.recursionLimit "compile_schema")
  | n + 1, schema => compileKind (compileSchema n) (kind schema)

mutual

/-- How deep a value is nested. -/
def Value.depth : Value → ℕ
  | .array items => itemsDepth items + 1
  | .object members => membersDepth members + 1
  | _ => 0

def itemsDepth : List Value → ℕ
  | [] => 0
  | v :: items => max v.depth (itemsDepth items)

def membersDepth : List (String × Value) → ℕ
  | [] => 0
  | (_, v) :: members => max v.depth (membersDepth members)

end

/-- `compile_root`. -/
def compileRoot (schema : Value) : CompileM Unit := do
  let body ← compileSchema (schema.depth + 1) schema
  modify fun c => { c with rules := ("root", body) :: c.rules }

/-- `build_gbnf`, of rules. -/
def buildGbnf : List (String × String) → String
  | [] => ""
  | (name, body) :: rules => name ++ " ::= " ++ body ++ "\n" ++ buildGbnf rules

/-- `JsonSchemaCompiler::compile_value_to_gbnf`. -/
def compileValueToGbnf (schema : Value) : GrammarResult String := do
  let (_, c) ← (compileRoot schema).run ⟨[], 0⟩
  return buildGbnf c.rules

/-- `JsonSchemaCompiler::compile_value`. -/
def compileValue (schema : Value) : GrammarResult Grammar := do
  Grammar.parse (← compileValueToGbnf schema)

end Schema

end Oxillama
