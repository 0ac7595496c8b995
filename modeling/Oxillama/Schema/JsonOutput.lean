/-
What the grammar of a schema constrains its output to.

* `GeneratesJson` — the grammar generates JSON texts only, with all required keys;
* `generatesJson_of_good` — **it does for good schemas whose required keys are carried**;
* `not_generatesJson_hello` — and it does not for a pattern, whose text is not quoted.
-/
import Oxillama.Schema.Sound

namespace Oxillama

namespace Schema

open Grammar (Generates)

/-- The required properties of an object schema that lists properties. -/
def requiredKeys : Value → List String
  | .object members =>
    let obj : Object := members
    match kindOfObject obj, obj.get "properties" with
    | .object _, some (.object _) => requiredNames obj
    | _, _ => []
  | _ => []

/-- Whatever grammar the schema is compiled to generates JSON texts only, and the required
properties occur in them as keys. -/
def GeneratesJson (schema : Value) : Prop :=
  ∀ text, compileValueToGbnf schema = .ok text → ∃ g, Grammar.parse text = .ok g ∧
    ∀ w, Generates g (.ruleRef g.root) w →
      Json.WellFormed w ∧ ∀ key ∈ requiredKeys schema, Json.HasKey key.toList w

/-- **Good schemas constrain their output to JSON.** -/
theorem generatesJson_of_good {schema : Value} (hgood : Good schema)
    (hkeys : ∀ key ∈ requiredKeys schema, Carries key.toList schema) : GeneratesJson schema := by
  intro text htext
  obtain ⟨g, body, c, hparse, hroot, hrun, hdefines⟩ := parse_of_compileValueToGbnf htext
  refine ⟨g, hparse, fun w hw => ?_⟩
  have hinv : Inv c := (keeps_compileSchema _ schema hrun).2.1 inv_empty
  have hfits : Fits g c.rules := ⟨hdefines.subset (List.subset_cons_self _ _), hinv.ws⟩
  obtain ⟨ts, hts, hsentences⟩ :=
    ((yields_compileSchema _ schema hrun hfits).2 hgood).covers
  have hlookup := hdefines _ List.mem_cons_self ts hts
  rw [hroot] at hw
  cases hw with
  | ruleRef hl h =>
    cases hlookup.symm.trans hl
    obtain ⟨t, ⟨htext, hobject⟩, rfl⟩ := hsentences w (Grammar.generates_altNode.mp h)
    refine ⟨⟨t, htext, rfl⟩, fun key hkey => ?_⟩
    obtain ⟨keys, hkeys, hmem⟩ := hobject _ (hkeys key hkey)
    exact ⟨keys, t, hkeys, hmem, rfl⟩

/-- An object with a required property. -/
def nullObject : Value :=
  .object [("type", .string "object"),
    ("properties", .object [("a", .object [("type", .string "null")])]),
    ("required", .array [.string "a"])]

theorem generatesJson_nullObject : GeneratesJson nullObject := by
  have hspells : Json.Spells "a".toList (Json.units "a".toList) :=
    Json.spells_self fun c hc => by
      obtain rfl := List.mem_singleton.mp hc
      exact ⟨by decide, by decide, by decide⟩
  refine generatesJson_of_good ?_ ?_
  · refine .object rfl rfl nofun ?_ ?_ ?_ (.inr le_rfl)
    · intro p hp
      obtain rfl := List.mem_singleton.mp hp
      exact ⟨_, hspells⟩
    · intro p hp
      obtain rfl := List.mem_singleton.mp hp
      exact .null rfl
    · intro p hp halt
      obtain rfl := List.mem_singleton.mp hp
      cases halt with
      | boolean hk | enum hk | allOf hk => cases hk
  · intro key hkey
    obtain rfl : key = "a" := List.mem_singleton.mp hkey
    exact .object rfl rfl List.mem_cons_self List.mem_cons_self hspells

/-- A string with a pattern. -/
def helloSchema : Value :=
  .object [("type", .string "string"), ("pattern", .string "hello")]

theorem not_generatesJson_hello : ¬ GeneratesJson helloSchema := by
  intro h
  obtain ⟨g, hparse, hjson⟩ := h "root ::= \"hello\"\n" rfl
  have hgrammar : Grammar.parse "root ::= \"hello\"\n" = .ok
      { rules := (∅ : AList fun _ : String => Grammar.GrammarNode).insert "root"
          (.literal (encode "hello".toList)),
        root := "root", source := "root ::= \"hello\"\n" } := rfl
  obtain rfl := Except.ok.inj (hgrammar.symm.trans hparse)
  obtain ⟨t, ht, heq⟩ := (hjson _ (.ruleRef (AList.lookup_insert _) (.literal _))).1
  obtain rfl := encode_injective heq
  -- a JSON text does not begin with `h`
  obtain ⟨c, rest, hcons, hc⟩ := ht.head
  obtain ⟨rfl, -⟩ := List.cons.inj hcons
  revert hc
  decide

end Schema

end Oxillama
