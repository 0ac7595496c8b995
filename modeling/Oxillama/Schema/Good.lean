/-
Schemas whose grammars generate JSON only.

The compiler splices texts, and puts a comma between all parts of an object.  So a schema
has to avoid the alternatives that are taken apart, the members that leave their commas
behind, the strings that are not quoted or escaped, and the classes that take more than
JSON allows.

* `Alternates` — the text of the schema has a bar, and is put next to others as it is;
* `Good` — every sentence of the grammar is a JSON text;
* `Carries key` — every sentence is an object with this key.
-/
import Oxillama.Schema.Compiler

namespace Oxillama

namespace Schema

/-- The object schema that a schema is compiled as, by itself or merged from branches. -/
def objectOf (schema : Value) : Option Object :=
  match kind schema with
  | .object obj => some obj
  | .allOf (s :: s' :: schemas) =>
    match mergeBranches (s :: s' :: schemas) [] [] with
    | .ok (props, required) => some (mergedObject props required)
    | .error _ => none
  | _ => none

/-- The names in `required`, where it is an array. -/
def requiredNames (obj : Object) : List String :=
  match obj.get "required" with
  | some (.array names) => names.filterMap Value.asStr
  | _ => []

/-- `minItems`, or its default. -/
def minItems (obj : Object) : ℕ := ((obj.get "minItems").bind Value.asU64).getD 0

/-- `maxItems`, if it is a number of items. -/
def maxItems (obj : Object) : Option ℕ := (obj.get "maxItems").bind Value.asU64

/-- The text of the schema has a bar outside parentheses, and is short enough to be inlined. -/
inductive Alternates : Value → Prop
  | boolean {v : Value} (hk : kind v = .boolean) : Alternates v
  | enum {v : Value} {variants : List Value} (hk : kind v = .enum (.array variants))
      (hlen : 2 ≤ variants.length)
      (hinline : ∀ e, compileEnum (.array variants) = .ok e → isInlineExpr e = true) : Alternates v
  | allOf {v schema : Value} (hk : kind v = .allOf [schema]) (h : Alternates schema) :
      Alternates v

/-- The string may stand between quotation marks as it is. -/
def IsStringBody (s : String) : Prop := ∃ us, Json.Spells s.toList us

/-- A constant: strings are not escaped. -/
def GoodConst (v : Value) : Prop := ∀ s, v = .string s → IsStringBody s

/-- Every sentence of the grammar of the schema is a JSON text. -/
inductive Good : Value → Prop
  | const {v c : Value} (hk : kind v = .const c) (hc : GoodConst c) : Good v
  | enum {v : Value} {variants : List Value} (hk : kind v = .enum (.array variants))
      (h : ∀ c ∈ variants, GoodConst c) : Good v
  | anyOf {v : Value} {variants : List Value} (hk : kind v = .anyOf variants)
      (h : ∀ x ∈ variants, Good x) : Good v
  | allOf {v schema : Value} (hk : kind v = .allOf [schema]) (h : Good schema) : Good v
  | boolean {v : Value} (hk : kind v = .boolean) : Good v
  | null {v : Value} (hk : kind v = .null) : Good v
  /-- A pattern is not quoted. -/
  | pattern {v : Value} {obj : Object} {p : String} (hk : kind v = .string obj)
      (hp : obj.get "pattern" = some (.string p)) (h : Json.IsText p.toList) : Good v
  /-- The characters of other strings need not be UTF-8. -/
  | emptyString {v : Value} {obj : Object} (hk : kind v = .string obj)
      (hp : ∀ p, obj.get "pattern" ≠ some (.string p))
      (hmax : (obj.get "maxLength").bind Value.asU64 = some 0) : Good v
  | emptyArray {v : Value} {obj : Object} (hk : kind v = .array obj)
      (hmax : maxItems obj = some 0) : Good v
  | array {v item : Value} {obj : Object} (hk : kind v = .array obj)
      (hitem : obj.get "items" = some item) (h : Good item)
      (halt : Alternates item → minItems obj = 0 ∧ maxItems obj = some 1) : Good v
  /-- The comma next to an optional member stays when the member goes. -/
  | object {v : Value} {obj props : Object} (ho : objectOf v = some obj)
      (hprops : obj.get "properties" = some (.object props))
      (hextra : ∀ extra, obj.get "additionalProperties" = some extra → extra = .bool false)
      (hkeys : ∀ p ∈ props, IsStringBody p.1) (h : ∀ p ∈ props, Good p.2)
      (halt : ∀ p ∈ props, ¬ Alternates p.2)
      (hoptional : (∀ p ∈ props, p.1 ∈ requiredNames obj) ∨ props.length ≤ 1) : Good v

/-- Every sentence of the grammar of the schema is an object with this key. -/
inductive Carries (key : Text) : Value → Prop
  | const {v c : Value} {members : List (String × Value)} {name : String}
      (hk : kind v = .const (.object members)) (hmem : (name, c) ∈ members)
      (hname : name.toList = key) : Carries key v
  | anyOf {v : Value} {variants : List Value} (hk : kind v = .anyOf variants)
      (h : ∀ x ∈ variants, Carries key x) : Carries key v
  | allOf {v schema : Value} (hk : kind v = .allOf [schema]) (h : Carries key schema) :
      Carries key v
  | object {v : Value} {obj props : Object} {p : String × Value} (ho : objectOf v = some obj)
      (hprops : obj.get "properties" = some (.object props)) (hmem : p ∈ props)
      (hrequired : p.1 ∈ requiredNames obj)
      (hkey : Json.Spells p.1.toList (Json.units key)) : Carries key v

/-! ### Where keys come from -/

section Carries

variable {key : Text} {v : Value}

/-- A required property of the object schema that `v` is compiled as, with a name that
spells the key. -/
def RequiresKey (key : Text) (v : Value) : Prop :=
  ∃ obj props p, objectOf v = some obj ∧ obj.get "properties" = some (.object props) ∧
    p ∈ props ∧ p.1 ∈ requiredNames obj ∧ Json.Spells p.1.toList (Json.units key)

/-- What carries a key, by the kind of the schema. -/
theorem Carries.inv (h : Carries key v) : match kind v with
    | .const (.object members) => ∃ m ∈ members, m.1.toList = key
    | .anyOf variants => ∀ x ∈ variants, Carries key x
    | .allOf [schema] => Carries key schema
    | .allOf _ => RequiresKey key v
    | .object _ => RequiresKey key v
    | _ => False := by
  cases h with
  | const hk hmem hname =>
    rw [hk]
    exact ⟨_, hmem, hname⟩
  | anyOf hk h =>
    rw [hk]
    exact h
  | allOf hk h =>
    rw [hk]
    exact h
  | object ho hprops hmem hrequired hkey =>
    have hrequires : RequiresKey key v := ⟨_, _, _, ho, hprops, hmem, hrequired, hkey⟩
    unfold objectOf at ho
    split at ho
    · rename_i hk
      rw [hk]
      exact hrequires
    · rename_i hk
      rw [hk]
      exact hrequires
    · cases ho

/-- What carries a key in the object schema that `v` is compiled as. -/
theorem Carries.of_object {obj : Object} (ho : objectOf v = some obj) (h : Carries key v) :
    RequiresKey key v := by
  have hinv := h.inv
  unfold objectOf at ho
  split at ho
  · rename_i hk
    rwa [hk] at hinv
  · rename_i hk
    rwa [hk] at hinv
  · cases ho

end Carries

end Schema

end Oxillama
