/-
The schema compiler with another answer to `is_inline_expr`.

Whether an expression is put into its parent as text or gets a rule of its own is decided
in one place.  Here the compiler is repeated with that decision as a parameter; everything
else is as it is in the compiler.

* `compileSchemaWith inline` — `compile_schema`, with `inline` in place of `is_inline_expr`;
* `compileSchemaWith_isInlineExpr` — with `is_inline_expr` itself it is `compile_schema`.
-/
import Oxillama.Schema.Compiler

namespace Oxillama

namespace Schema

open Grammar (GrammarResult)

section Inline

variable (inline : String → Bool)

/-- `inlineOrRule`, by `inline`. -/
def inlineOrRuleWith (expr : String) : CompileM String :=
  if inline expr then return expr
  else do
    let name ← nextRuleName
    addRule name expr

section Compile

variable (compile : Value → CompileM String)

/-- The part of a required property. -/
def requiredPartWith (ws : String) (prop : String × Value) : CompileM String := do
  let valRule ← inlineOrRuleWith inline (← compile prop.2)
  return memberExpr ws prop.1 valRule

/-- The part of an optional property. -/
def optionalPartWith (ws : String) (prop : String × Value) : CompileM String := do
  let valRule ← inlineOrRuleWith inline (← compile prop.2)
  let name ← nextRuleName
  let name ← addRule name (memberExpr ws prop.1 valRule)
  return "(" ++ name ++ ")?"

/-- The rule for an additional property, if there may be any. -/
def extraPairRuleWith (ws : String) (obj : Object) : CompileM (Option String) := do
  let valExpr ← match obj.get "additionalProperties" with
    | none | some (.bool false) => return none
    | some (.bool true) => anyJsonExpr
    | some schema => compile schema
  ensureStringCharRule
  let valRule ← inlineOrRuleWith inline valExpr
  let name ← nextRuleName
  let name ← addRule name
    ("\"\\\"\" string-char* \"\\\"\" " ++ ws ++ " \":\" " ++ ws ++ " " ++ valRule)
  return some name

/-- `compile_object_type`. -/
def compileObjectTypeWith (obj : Object) : CompileM String := do
  let ws ← ensureWsRule
  match obj.get "properties" with
  | some (.object props) =>
    let required ← requiredSet obj
    let requiredParts ← (sortByKey (props.filter fun p => required.contains p.1)).mapM
      (requiredPartWith inline compile ws)
    let optionalParts ← (sortByKey (props.filter fun p => !required.contains p.1)).mapM
      (optionalPartWith inline compile ws)
    let extra ← extraPairRuleWith inline compile ws obj
    return objectBody ws (requiredParts ++ optionalParts) extra
  | some other => throw (.parseError 0 ("`properties` must be an object, got " ++ other.display))
  | none =>
    ensureStringCharRule
    let anyVal ← anyJsonExpr
    ensureRule "json-pair"
      ("\"\\\"\" string-char* \"\\\"\" " ++ ws ++ " \":\" " ++ ws ++ " " ++ anyVal)
    return "\"\x7b\" " ++ ws ++ " \"\x7d\" | \"\x7b\" " ++ ws ++ " json-pair (" ++ ws ++
      " \",\" " ++
      ws ++ " json-pair)* " ++ ws ++ " \"\x7d\""

/-- `compile_array_type`. -/
def compileArrayTypeWith (obj : Object) : CompileM String := do
  let ws ← ensureWsRule
  let itemsExpr ← match obj.get "items" with
    | some itemSchema => compile itemSchema
    | none => anyJsonExpr
  let itemsRule ← inlineOrRuleWith inline itemsExpr
  let minItems := ((obj.get "minItems").bind Value.asU64).getD 0
  let maxItems := (obj.get "maxItems").bind Value.asU64
  match maxItems with
  | some max =>
    if max < minItems then
      throw (.parseError 0 ("minItems (" ++ Nat.repr minItems ++ ") > maxItems (" ++
        Nat.repr max ++ ")"))
  | none => pure ()
  return "\"[\" " ++ ws ++ " " ++ boundedList itemsRule ws minItems maxItems ++ " " ++ ws ++
    " \"]\""

/-- `compile_any_of`. -/
def compileAnyOfWith (variants : List Value) : CompileM String := do
  if variants.isEmpty then throw (.parseError 0 "`anyOf`/`oneOf` array must not be empty")
  let alts ← variants.mapM fun variant => do inlineOrRuleWith inline (← compile variant)
  return "(" ++ join " | " alts ++ ")"

/-- `compile_all_of`. -/
def compileAllOfWith : List Value → CompileM String
  | [] => throw (.parseError 0 "`allOf` array must not be empty")
  | [schema] => compile schema
  | schemas => do
    let (props, required) ← mergeBranches schemas [] []
    compileObjectTypeWith inline compile (mergedObject props required)

/-- `compile_schema`, where `compile` compiles the schemas inside. -/
def compileKindWith : Kind → CompileM String
  | .anyOf variants => compileAnyOfWith inline compile variants
  | .allOf schemas => compileAllOfWith inline compile schemas
  | .object obj => compileObjectTypeWith inline compile obj
  | .array obj => compileArrayTypeWith inline compile obj
  -- the other kinds have no schemas inside
  | kind => compileKind compile kind

end Compile

/-- `compile_schema`, for schemas nested less than `n` deep. -/
def compileSchemaWith : ℕ → Value → CompileM String
  | 0, _ => throw (.recursionLimit "compile_schema")
  | n + 1, schema => compileKindWith inline (compileSchemaWith n) (kind schema)

/-- `compile_root`. -/
def compileRootWith (schema : Value) : CompileM Unit := do
  let body ← compileSchemaWith inline (schema.depth + 1) schema
  modify fun c => { c with rules := ("root", body) :: c.rules }

/-- `JsonSchemaCompiler::compile_value_to_gbnf`. -/
def compileValueToGbnfWith (schema : Value) : GrammarResult String := do
  let (_, c) ← (compileRootWith inline schema).run ⟨[], 0⟩
  return buildGbnf c.rules

end Inline

/-! ### The compiler itself -/

theorem compileKindWith_isInlineExpr (compile : Value → CompileM String) (k : Kind) :
    compileKindWith isInlineExpr compile k = compileKind compile k := by
  cases k with
  | allOf schemas =>
    rcases schemas with - | ⟨_, - | ⟨_, _⟩⟩ <;> rfl
  | _ => rfl

/-- **With `is_inline_expr` it is the compiler.** -/
theorem compileSchemaWith_isInlineExpr (n : ℕ) (schema : Value) :
    compileSchemaWith isInlineExpr n schema = compileSchema n schema := by
  induction n generalizing schema with
  | zero => rfl
  | succ n ih =>
    have hcompile : compileSchemaWith isInlineExpr n = compileSchema n := funext ih
    rw [compileSchemaWith, compileSchema, hcompile]
    exact compileKindWith_isInlineExpr _ _

theorem compileValueToGbnfWith_isInlineExpr (schema : Value) :
    compileValueToGbnfWith isInlineExpr schema = compileValueToGbnf schema := by
  rw [compileValueToGbnfWith, compileRootWith, compileSchemaWith_isInlineExpr]
  rfl

end Schema

end Oxillama
