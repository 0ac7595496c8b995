/-
JSON values as `serde_json` represents them, and their canonical text.

* `Number`, `Value` — the representation; the text of a floating-point number is a part
  of it, because it is all that the schema compiler sees of one;
* `toText` — `serde_json::to_string`, which is also how values are displayed;
* `value_toText` — the canonical text is a JSON value.
-/
import Oxillama.Lib.Json

namespace Oxillama

namespace Schema

/-- `serde_json::Number`: a `u64`, the magnitude of a negative `i64`, or the text of a
finite `f64`. -/
inductive Number
  | posInt (n : ℕ)
  | negInt (magnitude : ℕ)
  | float (text : Text) (h : Json.Number text)

/-- `serde_json::Value`; the members of an object have different names. -/
inductive Value
  | null
  | bool (b : Bool)
  | number (n : Number)
  | string (s : String)
  | array (items : List Value)
  | object (members : List (String × Value))

/-- `serde_json::Map`. -/
abbrev Object := List (String × Value)

/-! ### Access -/

/-- `Value::as_str`. -/
def Value.asStr : Value → Option String
  | .string s => some s
  | _ => none

/-- `Value::as_u64`. -/
def Value.asU64 : Value → Option ℕ
  | .number (.posInt n) => some n
  | _ => none

/-- `Value::as_array`. -/
def Value.asArray : Value → Option (List Value)
  | .array items => some items
  | _ => none

/-- `Value::as_object`. -/
def Value.asObject : Value → Option Object
  | .object members => some members
  | _ => none

/-- `Map::get`. -/
def Object.get (obj : Object) (name : String) : Option Value := obj.lookup name

/-- `Map::insert`. -/
def Object.insert (obj : Object) (name : String) (v : Value) : Object :=
  if obj.any (·.1 == name) then obj.map fun m => if m.1 == name then (name, v) else m
  else obj ++ [(name, v)]

/-! ### The canonical text -/

/-- `Number`'s `Display`. -/
def Number.toText : Number → Text
  | .posInt n => Nat.toDigits 10 n
  | .negInt n => '-' :: Nat.toDigits 10 n
  | .float text _ => text

/-- How a character of a string is written. -/
def escapeChar (c : Char) : Text :=
  match c with
  | '"' => ['\\', '"']
  | '\\' => ['\\', '\\']
  | '\x08' => ['\\', 'b']
  | '\x0c' => ['\\', 'f']
  | '\n' => ['\\', 'n']
  | '\r' => ['\\', 'r']
  | '\t' => ['\\', 't']
  | c =>
    if c.toNat < 0x20 then
      ['\\', 'u', '0', '0', Nat.digitChar (c.toNat / 16), Nat.digitChar (c.toNat % 16)]
    else [c]

/-- How a string is written. -/
def stringText (s : String) : Text := '"' :: (s.toList.flatMap escapeChar ++ ['"'])

mutual

/-- `serde_json::to_string`. -/
def Value.toText : Value → Text
  | .null => "null".toList
  | .bool true => "true".toList
  | .bool false => "false".toList
  | .number n => n.toText
  | .string s => stringText s
  | .array items => '[' :: (itemsText items ++ [']'])
  | .object members => '\x7b' :: (membersText members ++ ['\x7d'])

/-- The items of an array, between commas. -/
def itemsText : List Value → Text
  | [] => []
  | [v] => v.toText
  | v :: v' :: items => v.toText ++ ',' :: itemsText (v' :: items)

/-- The members of an object, between commas. -/
def membersText : List (String × Value) → Text
  | [] => []
  | [m] => stringText m.1 ++ ':' :: m.2.toText
  | m :: m' :: members =>
    stringText m.1 ++ ':' :: m.2.toText ++ ',' :: membersText (m' :: members)

end

/-- `Value`'s `Display`. -/
def Value.display (v : Value) : String := String.ofList v.toText

/-! ### The canonical text is JSON -/

theorem intPart_toDigits (n : ℕ) : Json.IntPart (Nat.toDigits 10 n) := by
  by_cases hzero : n = 0
  · subst hzero
    exact .inl (Nat.toDigits_zero 10)
  · refine .inr ⟨⟨Nat.toDigits_ne_nil, ?_⟩, ?_⟩
    · intro c hc
      exact Nat.isDigit_of_mem_toDigits (by omega) (by omega) hc
    · induction n using Nat.strong_induction_on with
      | _ n ih =>
        rcases Nat.lt_or_ge n 10 with hlt | hge
        · rw [Nat.toDigits_of_lt_base hlt]
          simpa using hzero
        · rw [Nat.toDigits_of_base_le (by omega) hge,
            List.head?_append_of_ne_nil _ Nat.toDigits_ne_nil]
          exact ih (n / 10) (by omega) (by omega)

theorem number_toText (n : Number) : Json.Number n.toText := by
  cases n with
  | posInt n =>
    have h : Json.Number ([] ++ Nat.toDigits 10 n ++ [] ++ []) :=
      .mk (.inl rfl) (intPart_toDigits n) (.inl rfl) (.inl rfl)
    simpa [Number.toText] using h
  | negInt n =>
    have h := Json.Number.mk (.inr rfl) (intPart_toDigits n) (.inl rfl) (.inl rfl)
    simpa [Number.toText] using h
  | float text h => exact h

theorem hexValue_digitChar : ∀ d < 16, Json.hexValue (Nat.digitChar d) = some d := by decide

theorem spells_escapeChar (c : Char) : Json.Spells (escapeChar c) (Json.utf16 c) := by
  have hone : ∀ {u}, Json.escapeUnit c = some u → Json.Spells ['\\', c] [u] :=
    fun h => .escape h .nil
  unfold escapeChar
  split
  · exact .escape rfl .nil
  · exact .escape rfl .nil
  · exact .escape rfl .nil
  · exact .escape rfl .nil
  · exact .escape rfl .nil
  · exact .escape rfl .nil
  · exact .escape rfl .nil
  · rename_i hq hb _ _ _ _ _
    split
    · rename_i hlt
      have hunits : Json.utf16 c = [((0 * 16 + 0) * 16 + c.toNat / 16) * 16 + c.toNat % 16] := by
        rw [Json.utf16, if_pos (by omega)]
        congr 1
        omega
      rw [hunits]
      exact .unicode rfl rfl (hexValue_digitChar _ (by omega))
        (hexValue_digitChar _ (by omega)) .nil
    · rename_i hge
      have h := Json.Spells.unescaped (t := []) ⟨by omega, hq, hb⟩ .nil
      rwa [List.append_nil] at h

theorem spells_flatMap (t : Text) : Json.Spells (t.flatMap escapeChar) (Json.units t) := by
  induction t with
  | nil => exact .nil
  | cons c t ih => exact (spells_escapeChar c).append ih

theorem members_of_text (name : String) {t : Text} (h : Json.Value t) :
    Json.Members [Json.units name.toList] (stringText name ++ ':' :: t) := by
  have hm := Json.members_single Json.ws_nil (spells_flatMap name.toList) Json.ws_nil
    (Json.isText_of_value h)
  simpa [stringText] using hm

mutual

/-- **The canonical text is a JSON value.** -/
theorem value_toText : (v : Value) → Json.Value v.toText
  | .null => .null
  | .bool true => .true
  | .bool false => .false
  | .number n => .number (number_toText n)
  | .string s => .string (spells_flatMap s.toList)
  | .array items => by
    rcases elements_itemsText items with h | rfl
    · exact .array h
    · exact .emptyArray Json.ws_nil
  | .object members => by
    rcases members_membersText members with h | rfl
    · exact .object h
    · exact .emptyObject Json.ws_nil

theorem elements_itemsText : (items : List Value) →
    Json.Elements (itemsText items) ∨ items = []
  | [] => .inr rfl
  | [v] => .inl (Json.elements_single (Json.isText_of_value (value_toText v)))
  | v :: v' :: items => by
    have hv := Json.isText_of_value (value_toText v)
    rcases elements_itemsText (v' :: items) with h | h
    · exact .inl (Json.elements_cons hv h)
    · cases h

theorem members_membersText : (members : List (String × Value)) →
    Json.Members (members.map fun m => Json.units m.1.toList) (membersText members) ∨ members = []
  | [] => .inr rfl
  | [(name, v)] => .inl (members_of_text name (value_toText v))
  | (name, v) :: m' :: members => by
    have hm := members_of_text name (value_toText v)
    rcases members_membersText (m' :: members) with h | h
    · exact .inl (Json.members_cons hm h)
    · cases h

end

end Schema

end Oxillama
