/-
Tool definitions, their grammar and the calls read back
(`oxillama-server/src/routes/tools.rs`).

A grammar is text that grows at its end.  `generate_object_rule` and
`generate_value_rule` call each other: the former takes as `value` the function for the
schemas inside of its own, and `generateValueRule` ties the knot, for schemas nested no
deeper than it is told.
-/
import Oxillama.Lib.Str
import Oxillama.Schema.Compiler

namespace Oxillama

namespace Server

open Schema (Value Object join)

/-! ### Requests and responses -/

/-- `FunctionDef`. -/
structure FunctionDef where
  name : String
  parameters : Value

/-- `Tool`. -/
structure Tool where
  function : FunctionDef

/-- `ToolChoice`: a mode, or the name of a function. -/
inductive ToolChoice
  | mode (m : String)
  | specific (name : String)

/-- `FunctionCall`. -/
structure FunctionCall where
  name : String
  arguments : String

/-- `ToolCall`. -/
structure ToolCall where
  id : String
  toolType : String
  function : FunctionCall

/-! ### Rules -/

/-- `Value::get`, of a name. -/
def getMember (v : Value) (name : String) : Option Value := v.asObject.bind (·.get name)

/-- The marker of `append_generic_json_rules`. -/
def marker : String := "json-value ::="

/-- What `append_generic_json_rules` appends. -/
def genericJsonRules : String :=
  "json-value ::= json-string | json-number | json-object | json-array | \"true\" | " ++
    "\"false\" | \"null\"\n" ++
  "json-string ::= \"\\\"\" ([^\"\\\\] | \"\\\\\" [\"\\\\/bfnrt] | \"\\\\u\" [0-9a-fA-F] " ++
    "[0-9a-fA-F] [0-9a-fA-F] [0-9a-fA-F])* \"\\\"\"\n" ++
  "json-number ::= \"-\"? [0-9]+ (\".\" [0-9]+)? ([eE] [\"+\\-\"]? [0-9]+)?\n" ++
  "json-object ::= \"\x7b\" ws (json-string ws \":\" ws json-value (\",\" ws json-string ws " ++
    "\":\" ws json-value)*)? ws \"\x7d\"\n" ++
  "json-array ::= \"[\" ws (json-value (\",\" ws json-value)*)? ws \"]\"\n"

/-- `append_generic_json_rules`. -/
def appendGenericJsonRules (grammar : String) : String :=
  if (Text.find grammar.toList marker.toList).isSome then grammar else grammar ++ genericJsonRules

/-- A string literal in which a string stands between quotation marks: what the format
string `"\"\\\"{}\\\"\""` makes of it. -/
def quotedLiteral (s : String) : String := "\"\\\"" ++ s ++ "\\\"\""

/-- `properties`, if it is an object. -/
def properties (schema : Value) : Option Object :=
  (getMember schema "properties").bind Value.asObject

/-- `required`: the strings in it. -/
def required (schema : Value) : List String :=
  (((getMember schema "required").bind Value.asArray).map (·.filterMap Value.asStr)).getD []

/-- `type`, which is a string if nothing is said. -/
def typeOf (schema : Value) : String := ((getMember schema "type").bind Value.asStr).getD "string"

section Rules

variable (isAlphanumeric : Char → Bool)

/-- `sanitize_rule_name`. -/
def sanitizeRuleName (name : String) : String :=
  String.ofList (name.toList.map fun c => if isAlphanumeric c || c == '-' then c else '-')

/-- The rule for the value of a property. -/
def valRule (ruleName key : String) : String :=
  ruleName ++ "-" ++ sanitizeRuleName isAlphanumeric key

/-- The part for a property: optional ones are in a group. -/
def part (ruleName : String) (required : List String) (key : String) : String :=
  let kv := quotedLiteral key ++ " ws \":\" ws " ++ valRule isAlphanumeric ruleName key
  if required.contains key then kv else "(" ++ kv ++ ")?"

/-- `generate_object_rule`. -/
def generateObjectRule (value : String → String → Value → String)
    (grammar ruleName : String) (schema : Value) : String :=
  match properties schema with
  | none => appendGenericJsonRules (grammar ++ ruleName ++ " ::= json-object\n")
  | some [] => grammar ++ ruleName ++ " ::= \"\x7b\x7d\" | \"\x7b\" ws \"\x7d\"\n"
  | some props =>
    let grammar := props.foldl
      (fun grammar prop => value grammar (valRule isAlphanumeric ruleName prop.1) prop.2) grammar
    let parts := props.map fun prop => part isAlphanumeric ruleName (required schema) prop.1
    grammar ++ ruleName ++ " ::= \"\x7b\" ws " ++ join " \",\" ws " parts ++ " ws \"\x7d\"\n"

/-- `generate_value_rule`. -/
def generateValueRule : ℕ → String → String → Value → String
  | 0, grammar, _, _ => grammar
  | n + 1, grammar, ruleName, schema =>
    match typeOf schema with
    | "string" =>
      match (getMember schema "enum").bind Value.asArray with
      | some enumVals =>
        let alts := (enumVals.filterMap Value.asStr).map quotedLiteral
        if alts.isEmpty then grammar ++ ruleName ++ " ::= json-string\n"
        else grammar ++ ruleName ++ " ::= " ++ join " | " alts ++ "\n"
      | none => grammar ++ ruleName ++ " ::= json-string\n"
    | "integer" => grammar ++ ruleName ++ " ::= \"-\"? [0-9]+\n"
    | "number" => grammar ++ ruleName ++ " ::= \"-\"? [0-9]+ (\".\" [0-9]+)?\n"
    | "boolean" => grammar ++ ruleName ++ " ::= \"true\" | \"false\"\n"
    | "array" =>
      let itemRule := ruleName ++ "-item"
      let grammar :=
        match getMember schema "items" with
        | some itemsSchema => generateValueRule n grammar itemRule itemsSchema
        | none => appendGenericJsonRules (grammar ++ itemRule ++ " ::= json-value\n")
      grammar ++ ruleName ++ " ::= \"[\" ws (" ++ itemRule ++ " (\",\" ws " ++ itemRule ++
        ")*)? ws \"]\"\n"
    | "object" => generateObjectRule isAlphanumeric (generateValueRule n) grammar ruleName schema
    | _ => appendGenericJsonRules (grammar ++ ruleName ++ " ::= json-value\n")

/-! ### Grammars -/

/-- The tools that may be called. -/
def eligible (tools : List Tool) : Option ToolChoice → List Tool
  | some (.specific name) => tools.filter fun t => t.function.name == name
  | _ => tools

/-- The mode that a choice stands for. -/
def modeOf : Option ToolChoice → String
  | some (.mode m) => m
  | some (.specific _) => "specific"
  | none => "auto"

/-- The rule for the arguments of a tool. -/
def argsRule (tool : Tool) : String :=
  "args-" ++ sanitizeRuleName isAlphanumeric tool.function.name

/-- The rules for the arguments of one tool more. -/
def appendArgsRule (grammar : String) (tool : Tool) : String :=
  let parameters := tool.function.parameters
  generateObjectRule isAlphanumeric (generateValueRule isAlphanumeric (parameters.depth + 1))
    grammar (argsRule isAlphanumeric tool) parameters

/-- `tools_to_gbnf`. -/
def toolsToGbnf (tools : List Tool) (toolChoice : Option ToolChoice) : String :=
  if tools.isEmpty then ""
  else if modeOf toolChoice = "none" then ""
  else
    let eligible := eligible tools toolChoice
    if eligible.isEmpty then ""
    else
      let grammar :=
        if modeOf toolChoice = "auto" then
          "root ::= tool-call | free-text\n" ++ "free-text ::= [^\x7b] [^\\x00]*\n"
        else "root ::= tool-call\n"
      let grammar := grammar ++ "tool-call ::= \"\x7b\" ws \"\\\"name\\\"\" ws \":\" ws " ++
        "function-name ws \",\" ws \"\\\"arguments\\\"\" ws \":\" ws arguments ws \"\x7d\"\n"
      let grammar := grammar ++ "function-name ::= " ++
        join " | " (eligible.map fun tool => quotedLiteral tool.function.name) ++ "\n"
      let grammar := eligible.foldl (appendArgsRule isAlphanumeric) grammar
      let grammar :=
        match eligible with
        | [tool] => grammar ++ "arguments ::= " ++ argsRule isAlphanumeric tool ++ "\n"
        | _ => appendGenericJsonRules (grammar ++ "arguments ::= json-object\n")
      grammar ++ "ws ::= [ \\t\\n]*\n"

end Rules

/-! ### Calls -/

/-- `parse_tool_call_output`. -/
def parseToolCallOutput (fromStr : Text → Option Value) (raw : Text) (callId : String) :
    Option ToolCall := do
  let parsed ← fromStr raw.trim
  let name ← (← getMember parsed "name").asStr
  let arguments ← getMember parsed "arguments"
  return ⟨callId, "function", ⟨name, arguments.display⟩⟩

end Server

end Oxillama
