/-
The rules that are generated for the parameters of a tool.

* `ObjectFits k schema`, `ValueFits k schema` — **the schemas whose rules generate JSON
  values only**: booleans, strings that are enumerated, arrays and objects of such, an
  object with more than one property having no optional one; rule names grow by `k`
  segments at most;
* `Entry names most r` — what a rule for such a schema is: it refers to rules with `names`;
* `appends_generateValueRule`, `appends_appendArgsRule` — the text appended for such a schema
  is that of rules which are entries.

A rule name spells the path to the schema and each character of a key that is not
alphanumeric as a hyphen, so two paths may have one name; the last rule of a name is the
one that counts.  As a reference goes to a name with more hyphens, the hyphens bound how
deep a sentence nests, which the nesting of the schema does not.
-/
import Oxillama.Lib.Json
import Oxillama.Schema.Parsed
import Oxillama.Server.Tools

namespace Oxillama

namespace Server

open Schema (Value Object join buildGbnf)
open Grammar (IsIdent)

/-! ### Schemas -/

/-- A string that is written in JSON as it is. -/
def PlainText (s : String) : Prop := ∀ c ∈ s.toList, Json.Unescaped c

instance (c : Char) : Decidable (Json.Unescaped c) := inferInstanceAs (Decidable (_ ∧ _ ∧ _))

instance (s : String) : Decidable (PlainText s) := List.decidableBAll _ s.toList

section Names

variable (isAlphanumeric : Char → Bool)

/-- A name that is written as it is, and of which the grammar parser reads the rule name. -/
def PlainName (s : String) : Prop :=
  PlainText s ∧ ∀ c ∈ s.toList, isAlphanumeric c = true → c.toNat < 0x80

instance (s : String) : Decidable (PlainName isAlphanumeric s) :=
  @instDecidableAnd _ _ _ (List.decidableBAll _ s.toList)

/-- The hyphens by which the rule name of a property is longer than that of its object. -/
def segments (key : String) : ℕ := 1 + key.toList.countP fun c => !isAlphanumeric c

mutual

/-- Rules for such an object generate JSON objects, with names of at most `k` segments more. -/
inductive ObjectFits : ℕ → Value → Prop
  | empty {k : ℕ} {schema : Value} (hprops : properties schema = some []) :
      ObjectFits (k + 1) schema
  | members {k : ℕ} {schema : Value} {props : Object} (hprops : properties schema = some props)
      (hne : props ≠ [])
      (hcommas : (∀ prop ∈ props, prop.1 ∈ required schema) ∨ props.length = 1)
      (hkeys : ∀ prop ∈ props, PlainName isAlphanumeric prop.1)
      (hsegments : ∀ prop ∈ props, segments isAlphanumeric prop.1 ≤ k)
      (hvalues : ∀ prop ∈ props, ValueFits (k - segments isAlphanumeric prop.1) prop.2) :
      ObjectFits k schema

/-- Rules for such a value generate JSON values, with names of at most `k` segments more. -/
inductive ValueFits : ℕ → Value → Prop
  | boolean {k : ℕ} {schema : Value} (htype : typeOf schema = "boolean") : ValueFits k schema
  | enum {k : ℕ} {schema : Value} {vals : List Value} (htype : typeOf schema = "string")
      (hvals : (getMember schema "enum").bind Value.asArray = some vals)
      (hne : vals.filterMap Value.asStr ≠ [])
      (hplain : ∀ s ∈ vals.filterMap Value.asStr, PlainText s) : ValueFits k schema
  | array {k : ℕ} {schema items : Value} (htype : typeOf schema = "array")
      (hitems : getMember schema "items" = some items) (h : ValueFits k items) :
      ValueFits (k + 1) schema
  | object {k : ℕ} {schema : Value} (htype : typeOf schema = "object")
      (h : ObjectFits k schema) : ValueFits k schema

end

/-! ### Rule names -/

/-- The hyphens in a name. -/
def hyphens (name : String) : ℕ := name.toList.count '-'

/-- A name for a rule that belongs to the parameters of a tool. -/
def IsArgsName (name : String) : Prop := IsIdent name ∧ "args-".toList <+: name.toList

end Names

/-- `is_alphanumeric` is as expected of ASCII characters. -/
def AgreesOnAscii (isAlphanumeric : Char → Bool) : Prop :=
  ∀ c : Char, c.toNat < 0x80 → isAlphanumeric c = c.isAlphanum

section RuleNames

variable {isAlphanumeric : Char → Bool} {name key : String}

theorem hyphens_append (a b : String) : hyphens (a ++ b) = hyphens a + hyphens b := by
  rw [hyphens, String.toList_append, List.count_append]
  rfl

theorem hyphens_sanitizeRuleName (hascii : AgreesOnAscii isAlphanumeric) (key : String) :
    hyphens (sanitizeRuleName isAlphanumeric key) =
      key.toList.countP fun c => !isAlphanumeric c := by
  rw [hyphens, sanitizeRuleName, String.toList_ofList, List.count, List.countP_map]
  refine List.countP_congr fun c _ => ?_
  have hhyphen : isAlphanumeric '-' = false := hascii '-' (by decide)
  simp only [Function.comp_apply, beq_iff_eq, Bool.not_eq_eq_eq_not, Bool.not_true]
  by_cases hc : isAlphanumeric c = true
  · have hne : c ≠ '-' := by
      rintro rfl
      rw [hhyphen] at hc
      cases hc
    simp [hc, hne]
  · simp [hc]

theorem hyphens_valRule (hascii : AgreesOnAscii isAlphanumeric) (name key : String) :
    hyphens (valRule isAlphanumeric name key) = hyphens name + segments isAlphanumeric key := by
  rw [valRule, hyphens_append, hyphens_append, hyphens_sanitizeRuleName hascii, segments,
    Nat.add_assoc]
  rfl

/-- Characters of identifiers after a name that is one. -/
theorem isIdent_append {name more : String} (h : IsIdent name)
    (hmore : ∀ d ∈ more.toList, (d.isAlphanum || d == '_' || d == '-') = true) :
    IsIdent (name ++ more) := by
  obtain ⟨c, cs, hname, hc, hcs⟩ := h
  refine ⟨c, cs ++ more.toList, by rw [String.toList_append, hname]; rfl, hc, fun d hd => ?_⟩
  rcases List.mem_append.mp hd with hd | hd
  · exact hcs d hd
  · exact hmore d hd

theorem ident_sanitizeRuleName (hascii : AgreesOnAscii isAlphanumeric)
    (h : PlainName isAlphanumeric key) :
    ∀ d ∈ (sanitizeRuleName isAlphanumeric key).toList,
      (d.isAlphanum || d == '_' || d == '-') = true := by
  intro d hd
  rw [sanitizeRuleName, String.toList_ofList] at hd
  obtain ⟨c, hc, rfl⟩ := List.mem_map.mp hd
  by_cases halnum : isAlphanumeric c = true
  · have hc' : c.isAlphanum = true := by rw [← hascii c (h.2 c hc halnum), halnum]
    simp [halnum, hc']
  · by_cases hhyphen : c = '-'
    · subst hhyphen
      simp
    · simp [halnum, hhyphen]

theorem isArgsName_append {more : String} (h : IsArgsName name)
    (hmore : ∀ d ∈ more.toList, (d.isAlphanum || d == '_' || d == '-') = true) :
    IsArgsName (name ++ more) := by
  refine ⟨isIdent_append h.1 hmore, ?_⟩
  rw [String.toList_append]
  exact h.2.trans (List.prefix_append _ _)

theorem isArgsName_valRule (hascii : AgreesOnAscii isAlphanumeric) (h : IsArgsName name)
    (hkey : PlainName isAlphanumeric key) : IsArgsName (valRule isAlphanumeric name key) :=
  isArgsName_append (isArgsName_append h (List.all_eq_true.mp rfl))
    (ident_sanitizeRuleName hascii hkey)

theorem isArgsName_item (h : IsArgsName name) : IsArgsName (name ++ "-item") :=
  isArgsName_append h (List.all_eq_true.mp rfl)

theorem isArgsName_argsRule (hascii : AgreesOnAscii isAlphanumeric) {tool : Tool}
    (h : PlainName isAlphanumeric tool.function.name) :
    IsArgsName (argsRule isAlphanumeric tool) := by
  have hargs : IsArgsName "args-" := ⟨Grammar.isIdent_of_all rfl rfl rfl, List.prefix_rfl⟩
  exact isArgsName_append hargs (ident_sanitizeRuleName hascii h)

end RuleNames

/-! ### Rules -/

/-- The body of the rule for an array. -/
def arrayBody (item : String) : String :=
  "\"[\" ws (" ++ item ++ " (\",\" ws " ++ item ++ ")*)? ws \"]\""

/-- The body of the rule for an object without properties. -/
def emptyObjectBody : String := "\"\x7b\x7d\" | \"\x7b\" ws \"\x7d\""

/-- The body of the rule for an object with properties. -/
def objectBody (parts : List String) : String :=
  "\"\x7b\" ws " ++ join " \",\" ws " parts ++ " ws \"\x7d\""

/-- What a rule for the parameters of a tool is: no name has more hyphens than `most`, and it
refers to rules with `names`. -/
inductive Entry (isAlphanumeric : Char → Bool) (names : List String) (most : ℕ) :
    String × String → Prop
  | boolean {name : String} (hname : IsArgsName name) (hmost : hyphens name ≤ most) :
      Entry isAlphanumeric names most (name, "\"true\" | \"false\"")
  | enum {name : String} {strings : List String} (hname : IsArgsName name)
      (hmost : hyphens name ≤ most) (hne : strings ≠ []) (hplain : ∀ s ∈ strings, PlainText s) :
      Entry isAlphanumeric names most (name, join " | " (strings.map quotedLiteral))
  | array {name : String} (hname : IsArgsName name) (hmost : hyphens name + 1 ≤ most)
      (hitem : name ++ "-item" ∈ names) :
      Entry isAlphanumeric names most (name, arrayBody (name ++ "-item"))
  | emptyObject {name : String} (hname : IsArgsName name) (hmost : hyphens name + 1 ≤ most) :
      Entry isAlphanumeric names most (name, emptyObjectBody)
  | object {name : String} {keys needed : List String} (hname : IsArgsName name)
      (hmost : hyphens name + 1 ≤ most) (hne : keys ≠ [])
      (hcommas : (∀ key ∈ keys, key ∈ needed) ∨ keys.length = 1)
      (hkeys : ∀ key ∈ keys, PlainName isAlphanumeric key)
      (hrefs : ∀ key ∈ keys, valRule isAlphanumeric name key ∈ names) :
      Entry isAlphanumeric names most
        (name, objectBody (keys.map (part isAlphanumeric name needed)))

section Rules

variable {isAlphanumeric : Char → Bool} {names names' : List String} {most : ℕ}
  {r : String × String}

theorem Entry.mono (h : Entry isAlphanumeric names most r) (hsub : names ⊆ names') :
    Entry isAlphanumeric names' most r := by
  cases h with
  | boolean hname hmost => exact .boolean hname hmost
  | enum hname hmost hne hplain => exact .enum hname hmost hne hplain
  | array hname hmost hitem => exact .array hname hmost (hsub hitem)
  | emptyObject hname hmost => exact .emptyObject hname hmost
  | object hname hmost hne hcommas hkeys hrefs =>
    exact .object hname hmost hne hcommas hkeys fun key hkey => hsub (hrefs key hkey)

theorem Entry.isArgsName (h : Entry isAlphanumeric names most r) : IsArgsName r.1 := by
  cases h <;> assumption

theorem buildGbnf_append (rules rules' : List (String × String)) :
    buildGbnf (rules ++ rules') = buildGbnf rules ++ buildGbnf rules' := by
  induction rules with
  | nil => exact (String.empty_append).symm
  | cons r rules ih =>
    show _ ++ buildGbnf (rules ++ rules') = _ ++ buildGbnf rules ++ buildGbnf rules'
    rw [ih, ← String.append_assoc]

theorem append_buildGbnf_single (grammar name body : String) :
    grammar ++ name ++ " ::= " ++ body ++ "\n" = grammar ++ buildGbnf [(name, body)] := by
  simp only [buildGbnf, String.append_assoc, String.append_empty]

/-- The text that `append` appends, whatever it is appended to, is that of rules which are
entries, and one of them has the name. -/
def Appends (isAlphanumeric : Char → Bool) (most : ℕ) (append : String → String) (name : String) :
    Prop :=
  ∃ rules : List (String × String), (∀ grammar, append grammar = grammar ++ buildGbnf rules) ∧
    name ∈ rules.map Prod.fst ∧ ∀ r ∈ rules, Entry isAlphanumeric (rules.map Prod.fst) most r

/-- A rule that refers to none. -/
theorem appends_single {append : String → String} {name body : String}
    (hentry : Entry isAlphanumeric [name] most (name, body))
    (happend : ∀ grammar, append grammar = grammar ++ name ++ " ::= " ++ body ++ "\n") :
    Appends isAlphanumeric most append name := by
  refine ⟨[(name, body)], fun grammar => ?_, List.mem_singleton.mpr rfl, fun r hr => ?_⟩
  · rw [happend, append_buildGbnf_single]
  · obtain rfl := List.mem_singleton.mp hr
    exact hentry

/-- A rule after the rules it refers to. -/
theorem appends_last {before : List (String × String)} {append : String → String}
    {name body : String}
    (hbefore : ∀ r ∈ before, Entry isAlphanumeric (before.map Prod.fst) most r)
    (hentry : Entry isAlphanumeric (before.map Prod.fst) most (name, body))
    (happend : ∀ grammar,
      append grammar = grammar ++ buildGbnf before ++ name ++ " ::= " ++ body ++ "\n") :
    Appends isAlphanumeric most append name := by
  have hsub : before.map Prod.fst ⊆ (before ++ [(name, body)]).map Prod.fst := by
    rw [List.map_append]
    exact List.subset_append_left _ _
  refine ⟨before ++ [(name, body)], fun grammar => ?_, ?_, fun r hr => ?_⟩
  · rw [happend, append_buildGbnf_single, buildGbnf_append, String.append_assoc]
  · rw [List.map_append]
    exact List.mem_append_right _ (List.mem_singleton.mpr rfl)
  · rcases List.mem_append.mp hr with hr | hr
    · exact (hbefore r hr).mono hsub
    · obtain rfl := List.mem_singleton.mp hr
      exact hentry.mono hsub

/-- The rules for properties, one after the other. -/
theorem appends_foldl {value : String → String → Value → String} {name : String} {props : Object}
    (h : ∀ prop ∈ props, Appends isAlphanumeric most
      (fun grammar => value grammar (valRule isAlphanumeric name prop.1) prop.2)
      (valRule isAlphanumeric name prop.1)) :
    ∃ rules : List (String × String),
      (∀ grammar, props.foldl (fun grammar prop =>
        value grammar (valRule isAlphanumeric name prop.1) prop.2) grammar =
          grammar ++ buildGbnf rules) ∧
      (∀ prop ∈ props, valRule isAlphanumeric name prop.1 ∈ rules.map Prod.fst) ∧
      ∀ r ∈ rules, Entry isAlphanumeric (rules.map Prod.fst) most r := by
  induction props with
  | nil => exact ⟨[], fun grammar => String.append_empty.symm, nofun, nofun⟩
  | cons prop props ih =>
    obtain ⟨first, hfirst, hname, hentries⟩ := h prop List.mem_cons_self
    have hfirst : ∀ grammar, value grammar (valRule isAlphanumeric name prop.1) prop.2 =
        grammar ++ buildGbnf first := hfirst
    obtain ⟨rest, hrest, hnames, hentries'⟩ := ih fun p hp => h p (List.mem_cons_of_mem prop hp)
    refine ⟨first ++ rest, fun grammar => ?_, ?_, ?_⟩
    · rw [List.foldl_cons, hfirst, hrest, buildGbnf_append, String.append_assoc]
    · rw [List.map_append]
      intro p hp
      rcases List.mem_cons.mp hp with rfl | hp
      · exact List.mem_append_left _ hname
      · exact List.mem_append_right _ (hnames p hp)
    · rw [List.map_append]
      intro r hr
      rcases List.mem_append.mp hr with hr | hr
      · exact (hentries r hr).mono (List.subset_append_left _ _)
      · exact (hentries' r hr).mono (List.subset_append_right _ _)

end Rules

/-! ### The rules of a schema -/

section Depth

/-- What is found in an object nests less deep. -/
theorem depth_lt_of_getMember {schema v : Value} {name : String}
    (h : getMember schema name = some v) : v.depth < schema.depth := by
  obtain ⟨members, hobject, hget⟩ := Option.bind_eq_some_iff.mp h
  have hmem : ∀ members : Object, members.get name = some v →
      v.depth ≤ Schema.membersDepth members := by
    intro members hget
    induction members with
    | nil => cases hget
    | cons m members ih =>
      rw [Object.get, List.lookup_cons] at hget
      rw [Schema.membersDepth]
      split at hget
      · obtain rfl := Option.some.inj hget
        exact le_max_left _ _
      · exact (ih hget).trans (le_max_right _ _)
  cases schema with
  | object members' =>
    obtain rfl := Option.some.inj hobject
    exact Nat.lt_succ_of_le (hmem members' hget)
  | null | bool | number | string | array => cases hobject

theorem depth_lt_of_properties {schema : Value} {props : Object}
    (h : properties schema = some props) {prop : String × Value} (hprop : prop ∈ props) :
    prop.2.depth < schema.depth := by
  obtain ⟨v, hv, hobject⟩ := Option.bind_eq_some_iff.mp h
  have hmem : ∀ members : Object, prop ∈ members →
      prop.2.depth ≤ Schema.membersDepth members := by
    intro members hprop
    induction members with
    | nil => cases hprop
    | cons m members ih =>
      rw [Schema.membersDepth]
      rcases List.mem_cons.mp hprop with rfl | hprop
      · exact le_max_left _ _
      · exact (ih hprop).trans (le_max_right _ _)
  cases v with
  | object members' =>
    obtain rfl := Option.some.inj hobject
    refine lt_trans ?_ (depth_lt_of_getMember hv)
    exact Nat.lt_succ_of_le (hmem members' hprop)
  | null | bool | number | string | array => cases hobject

end Depth

section Generating

variable {isAlphanumeric : Char → Bool} {most k : ℕ} {name : String} {schema : Value}

/-- The rules for an object, given those for the values in it. -/
theorem appends_generateObjectRule (hascii : AgreesOnAscii isAlphanumeric)
    {value : String → String → Value → String} (h : ObjectFits isAlphanumeric k schema)
    (hname : IsArgsName name) (hmost : hyphens name + k ≤ most)
    (hvalue : ∀ {j : ℕ} {v : Value} {valName : String}, v.depth < schema.depth →
      ValueFits isAlphanumeric j v → IsArgsName valName → hyphens valName + j ≤ most →
      Appends isAlphanumeric most (fun grammar => value grammar valName v) valName) :
    Appends isAlphanumeric most
      (fun grammar => generateObjectRule isAlphanumeric value grammar name schema) name := by
  cases h with
  | empty hprops =>
    refine appends_single (.emptyObject hname (by omega)) fun grammar => ?_
    rw [generateObjectRule, hprops]
    simp only [emptyObjectBody, String.append_assoc]
    rfl
  | @members _ _ props hprops hne hcommas hkeys hsegments hvalues =>
    have hone : hyphens name + 1 ≤ most := by
      obtain ⟨prop, props', rfl⟩ := List.exists_cons_of_ne_nil hne
      have hle := hsegments prop List.mem_cons_self
      rw [segments] at hle
      omega
    obtain ⟨rules, happend, hnames, hentries⟩ := @appends_foldl isAlphanumeric most value name
      props fun prop hprop => by
        refine hvalue (depth_lt_of_properties hprops hprop) (hvalues prop hprop)
          (isArgsName_valRule hascii hname (hkeys prop hprop)) ?_
        have hle := hsegments prop hprop
        rw [hyphens_valRule hascii]
        omega
    have hentry : Entry isAlphanumeric (rules.map Prod.fst) most
        (name, objectBody ((props.map Prod.fst).map
          (part isAlphanumeric name (required schema)))) := by
      refine .object hname hone (mt List.map_eq_nil_iff.mp hne) ?_ ?_ ?_
      · rw [List.length_map]
        exact hcommas.imp_left fun hall => List.forall_mem_map.mpr hall
      · exact List.forall_mem_map.mpr hkeys
      · exact List.forall_mem_map.mpr hnames
    refine appends_last hentries hentry fun grammar => ?_
    obtain ⟨prop, props', rfl⟩ := List.exists_cons_of_ne_nil hne
    rw [generateObjectRule, hprops]
    show _ ++ name ++ " ::= \"\x7b\" ws " ++ _ ++ " ws \"\x7d\"\n" = _
    rw [happend, objectBody, List.map_map]
    simp only [String.append_assoc]
    rfl

/-- **The rules for a value**, if it is nested no deeper than the generator is told. -/
theorem appends_generateValueRule (hascii : AgreesOnAscii isAlphanumeric) {n : ℕ}
    (h : ValueFits isAlphanumeric k schema) (hdepth : schema.depth < n) (hname : IsArgsName name)
    (hmost : hyphens name + k ≤ most) :
    Appends isAlphanumeric most
      (fun grammar => generateValueRule isAlphanumeric n grammar name schema) name := by
  induction n generalizing k name schema with
  | zero => omega
  | succ n ih =>
    cases h with
    | boolean htype =>
      refine appends_single (.boolean hname (by omega)) fun grammar => ?_
      rw [generateValueRule, htype]
      simp only [String.append_assoc]
      rfl
    | @enum _ _ vals htype hvals hne hplain =>
      refine appends_single (.enum hname (by omega) hne hplain) fun grammar => ?_
      have hempty : ((vals.filterMap Value.asStr).map quotedLiteral).isEmpty = false := by
        simpa using hne
      rw [generateValueRule, htype]
      dsimp only
      rw [hvals]
      dsimp only
      rw [hempty]
      rfl
    | @array k' _ items htype hitems h =>
      have hlt := depth_lt_of_getMember hitems
      have hhyphens : hyphens (name ++ "-item") = hyphens name + 1 := hyphens_append _ _
      obtain ⟨rules, happend, hmem, hentries⟩ :=
        ih h (by omega) (isArgsName_item hname) (by omega)
      have happend : ∀ grammar, generateValueRule isAlphanumeric n grammar (name ++ "-item") items =
          grammar ++ buildGbnf rules := happend
      refine appends_last hentries (.array hname (by omega) hmem) fun grammar => ?_
      rw [generateValueRule, htype]
      dsimp only
      rw [hitems]
      dsimp only
      rw [happend, arrayBody]
      simp only [String.append_assoc]
      rfl
    | object htype h =>
      obtain ⟨rules, happend, hmem, hentries⟩ := appends_generateObjectRule hascii h hname hmost
        fun {j v valName} hlt hfits hvalName hle => @ih j valName v hfits (by omega) hvalName hle
      refine ⟨rules, fun grammar => ?_, hmem, hentries⟩
      rw [← happend]
      show generateValueRule isAlphanumeric (n + 1) grammar name schema = _
      rw [generateValueRule, htype]
      rfl

/-- The rules for the parameters of a tool. -/
theorem appends_appendArgsRule (hascii : AgreesOnAscii isAlphanumeric) {tool : Tool}
    (hname : PlainName isAlphanumeric tool.function.name)
    (h : ObjectFits isAlphanumeric k tool.function.parameters)
    (hmost : hyphens (argsRule isAlphanumeric tool) + k ≤ most) :
    Appends isAlphanumeric most (fun grammar => appendArgsRule isAlphanumeric grammar tool)
      (argsRule isAlphanumeric tool) :=
  appends_generateObjectRule hascii h (isArgsName_argsRule hascii hname) hmost
    fun hlt hfits hvalName hle => appends_generateValueRule hascii hfits (by omega) hvalName hle

end Generating

end Server

end Oxillama
