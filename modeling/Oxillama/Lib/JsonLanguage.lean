/-
JSON texts as languages.

The grammar of JSON in the algebra of languages: what is read off a concatenation, a
choice or an iteration is again a text, or a part of one.

* `ws`, `texts`, `elements`, `members keys`, `objects keys` — the languages;
* `elements_list` — texts between commas are elements;
* `array_le`, `string_le`, `member_le`, `object_le` — brackets, quotation marks, colons
  and braces.
-/
import Mathlib
import Oxillama.Lib.Json

namespace Oxillama

namespace Json

open scoped Computability

/-! ### Languages -/

/-- Whitespace. -/
def ws : Language Char := {t | Ws t}

/-- JSON texts. -/
def texts : Language Char := {t | IsText t}

/-- Values between commas. -/
def elements : Language Char := {t | Elements t}

/-- Members with these keys, between commas. -/
def members (keys : List (List ℕ)) : Language Char := {t | Members keys t}

/-- Members, or nothing. -/
def memberList (keys : List (List ℕ)) : Language Char := {t | Members keys t ∨ keys = [] ∧ Ws t}

/-- Objects with these keys. -/
def objects (keys : List (List ℕ)) : Language Char := {t | Object keys t}

/-- A comma between whitespace. -/
def comma : Language Char := ws * {[',']} * ws

variable {k : Text} {us : List ℕ} {keys : List (List ℕ)}

theorem mem_ws_mul {L : Language Char} {t : Text} :
    t ∈ ws * L * ws ↔ ∃ a u b, Ws a ∧ u ∈ L ∧ Ws b ∧ t = a ++ u ++ b := by
  simp only [Language.mem_mul]
  constructor
  · rintro ⟨_, ⟨a, ha, u, hu, rfl⟩, b, hb, rfl⟩
    exact ⟨a, u, b, ha, hu, hb, rfl⟩
  · rintro ⟨a, u, b, ha, hu, hb, rfl⟩
    exact ⟨a ++ u, ⟨a, ha, u, hu, rfl⟩, b, hb, rfl⟩

theorem texts_of_value {t : Text} (h : Value t) : ({t} : Language Char) ≤ texts := by
  rintro _ rfl
  exact isText_of_value h

/-- Quotation marks around the body of a string. -/
theorem string_le (h : Spells k us) : ({['"']} * {k} * {['"']} : Language Char) ≤ texts := by
  intro t ht
  obtain ⟨_, hu, _, rfl, rfl⟩ := Language.mem_mul.mp ht
  obtain ⟨_, rfl, _, rfl, rfl⟩ := Language.mem_mul.mp hu
  exact isText_of_value (.string h)

/-! ### Arrays -/

theorem elements_append : ∀ {t b t' : Text}, Elements t → Ws b → IsText t' →
    Elements (t ++ b ++ ',' :: t')
  | _, b, t', .single (a := x) (v := v) (b := y) hx hv hy, hb, h' => by
    have h := Elements.cons hx hv (ws_append hy hb) (elements_single h')
    rwa [List.append_assoc (x ++ v) y b]
  | _, b, t', .cons (a := x) (v := v) (b := y) (t := t) hx hv hy h, hb, h' => by
    have h := Elements.cons hx hv hy (elements_append h hb h')
    simpa only [List.append_assoc, List.cons_append] using h

theorem elements_comma_le : elements * (comma * texts) ≤ elements := by
  intro t ht
  obtain ⟨e, he, _, hrest, rfl⟩ := Language.mem_mul.mp ht
  obtain ⟨_, hcomma, u, hu, rfl⟩ := Language.mem_mul.mp hrest
  obtain ⟨a, _, b, ha, rfl, hb, rfl⟩ := mem_ws_mul.mp hcomma
  have htext := hu.ws hb ws_nil
  have h : Elements (e ++ a ++ ',' :: (b ++ u ++ [])) := elements_append he ha htext
  rw [List.append_nil] at h
  show Elements (e ++ (a ++ [','] ++ b ++ u))
  simpa using h

/-- **Texts between commas are elements.** -/
theorem elements_list : texts * (comma * texts)∗ ≤ elements :=
  mul_kstar_le (fun _ h => elements_single h) elements_comma_le

theorem elements_ws_left {t a : Text} (ha : Ws a) (h : Elements t) : Elements (a ++ t) := by
  cases h with
  | single hx hv hy => simpa only [List.append_assoc] using Elements.single (ws_append ha hx) hv hy
  | cons hx hv hy h =>
    simpa only [List.append_assoc] using Elements.cons (ws_append ha hx) hv hy h

theorem elements_ws_right : ∀ {t b : Text}, Elements t → Ws b → Elements (t ++ b)
  | _, b, .single (a := x) (v := v) (b := y) hx hv hy, hb => by
    rw [List.append_assoc (x ++ v) y b]
    exact .single hx hv (ws_append hy hb)
  | _, b, .cons (a := x) (v := v) (b := y) (t := t) hx hv hy h, hb => by
    rw [List.append_assoc (x ++ v ++ y) (',' :: t) b]
    exact .cons hx hv hy (elements_ws_right h hb)

/-- Brackets around elements, or around whitespace. -/
theorem array_le {L : Language Char} (hL : L ≤ 1 + elements) :
    ({['[']} * ws * L * ws * {[']']} : Language Char) ≤ texts := by
  intro t ht
  obtain ⟨_, h₁, _, rfl, rfl⟩ := Language.mem_mul.mp ht
  obtain ⟨_, h₂, b, hb, rfl⟩ := Language.mem_mul.mp h₁
  obtain ⟨_, h₃, u, hu, rfl⟩ := Language.mem_mul.mp h₂
  obtain ⟨_, rfl, a, ha, rfl⟩ := Language.mem_mul.mp h₃
  have hvalue : Value ('[' :: (a ++ u ++ b ++ [']'])) := by
    rcases hL hu with rfl | he
    · refine .emptyArray (ws_append ?_ hb)
      exact ws_append ha ws_nil
    · exact .array (elements_ws_right (elements_ws_left ha he) hb)
  show IsText (['['] ++ a ++ u ++ b ++ [']'])
  simpa using isText_of_value hvalue

/-! ### Objects -/

/-- A key, a colon and a value. -/
theorem member_le (h : Spells k us) :
    ({['"']} * {k} * {['"']} * (ws * {[':']} * ws) * texts : Language Char) ≤ members [us] := by
  intro t ht
  obtain ⟨_, h₁, v, hv, rfl⟩ := Language.mem_mul.mp ht
  obtain ⟨_, h₂, _, hcolon, rfl⟩ := Language.mem_mul.mp h₁
  obtain ⟨b, _, c, hb, rfl, hc, rfl⟩ := mem_ws_mul.mp hcolon
  obtain ⟨_, h₃, _, rfl, rfl⟩ := Language.mem_mul.mp h₂
  obtain ⟨_, rfl, k, rfl, rfl⟩ := Language.mem_mul.mp h₃
  have hmember := members_single ws_nil h hb (IsText.ws hv hc ws_nil)
  show Members [us] (['"'] ++ k ++ ['"'] ++ (b ++ [':'] ++ c) ++ v)
  simpa using hmember

theorem members_ws_left {t a : Text} (ha : Ws a) (h : Members keys t) : Members keys (a ++ t) := by
  cases h with
  | single hx hk hb hc hv hd =>
    simpa only [List.append_assoc] using Members.single (ws_append ha hx) hk hb hc hv hd
  | cons hx hk hb hc hv hd h =>
    simpa only [List.append_assoc] using Members.cons (ws_append ha hx) hk hb hc hv hd h

theorem members_ws_right : ∀ {keys : List (List ℕ)} {t b : Text}, Members keys t → Ws b →
    Members keys (t ++ b)
  | _, _, b, .single hx hk hb hc hv hd, hw => by
    simpa only [List.append_assoc, List.cons_append] using
      Members.single hx hk hb hc hv (ws_append hd hw)
  | _, _, b, .cons hx hk hb hc hv hd h, hw => by
    simpa only [List.append_assoc, List.cons_append] using
      Members.cons hx hk hb hc hv hd (members_ws_right h hw)

/-- A member, a comma and members. -/
theorem members_comma_le : members [us] * (comma * members keys) ≤ members (us :: keys) := by
  intro t ht
  obtain ⟨m, hm, _, hrest, rfl⟩ := Language.mem_mul.mp ht
  obtain ⟨_, hcomma, u, hu, rfl⟩ := Language.mem_mul.mp hrest
  obtain ⟨a, _, b, ha, rfl, hb, rfl⟩ := mem_ws_mul.mp hcomma
  have h := members_cons (members_ws_right hm ha) (members_ws_left hb hu)
  show Members (us :: keys) (m ++ (a ++ [','] ++ b ++ u))
  simpa using h

/-- Braces around members, or around nothing. -/
theorem object_le : ({['\x7b']} * ws * memberList keys * ws * {['\x7d']} : Language Char) ≤
    objects keys := by
  intro t ht
  obtain ⟨_, h₁, _, rfl, rfl⟩ := Language.mem_mul.mp ht
  obtain ⟨_, h₂, b, hb, rfl⟩ := Language.mem_mul.mp h₁
  obtain ⟨_, h₃, m, hm, rfl⟩ := Language.mem_mul.mp h₂
  obtain ⟨_, rfl, a, ha, rfl⟩ := Language.mem_mul.mp h₃
  refine ⟨[], a ++ m ++ b, [], ws_nil, ws_nil, ?_, by simp⟩
  rcases hm with hm | ⟨rfl, hm⟩
  · exact .inl (members_ws_right (members_ws_left ha hm) hb)
  · exact .inr ⟨rfl, ws_append (ws_append ha hm) hb⟩

theorem objects_le : objects keys ≤ texts := fun _ h => Object.isText h

end Json

end Oxillama
