/-
Schemas that are constants.

A constant that is not a string is compiled to its canonical text, quoted as a grammar
literal; the parser of grammars undoes that, so the language is this one text, whatever the
value holds.  A string is put between two quotation marks without being escaped for JSON.

* `Decodes t v` — the JSON text `t` stands for the value `v`;
* `decodes_toText` — the canonical text of a value stands for it, at every nesting;
* `denotes_compileConst`, `denotes_compileEnum` — the exact languages;
* `constants_exact` — **which constants and enumerations are exact, and which enumerations
  are refused.**
-/
import Oxillama.Schema.Sound

namespace Oxillama

namespace Schema

open Grammar (Generates Denotes Stands)

/-! ### What a text stands for -/

mutual

/-- The JSON text `t`, without whitespace around it, stands for the value: a string by its
code units, a number by the way it is written, the members of an object in any order. -/
inductive Decodes : Text → Value → Prop
  | null : Decodes "null".toList .null
  | true : Decodes "true".toList (.bool true)
  | false : Decodes "false".toList (.bool false)
  | number (n : Number) : Decodes n.toText (.number n)
  | string {t : Text} {s : String} (h : Json.Spells t (Json.units s.toList)) :
      Decodes ('"' :: (t ++ ['"'])) (.string s)
  | array {t : Text} {items : List Value} (h : DecodesItems t items) :
      Decodes ('[' :: (t ++ [']'])) (.array items)
  | object {t : Text} {members members' : List (String × Value)}
      (h : DecodesMembers t members) (hperm : members.Perm members') :
      Decodes ('\x7b' :: (t ++ ['\x7d'])) (.object members')

/-- Items between commas. -/
inductive DecodesItems : Text → List Value → Prop
  | nil : DecodesItems [] []
  | single {t : Text} {v : Value} (h : Decodes t v) : DecodesItems t [v]
  | cons {t t' : Text} {v v' : Value} {items : List Value} (h : Decodes t v)
      (h' : DecodesItems t' (v' :: items)) : DecodesItems (t ++ ',' :: t') (v :: v' :: items)

/-- Members between commas. -/
inductive DecodesMembers : Text → List (String × Value) → Prop
  | nil : DecodesMembers [] []
  | single {k t : Text} {m : String × Value} (hk : Json.Spells k (Json.units m.1.toList))
      (h : Decodes t m.2) : DecodesMembers ('"' :: (k ++ '"' :: ':' :: t)) [m]
  | cons {k t t' : Text} {m m' : String × Value} {members : List (String × Value)}
      (hk : Json.Spells k (Json.units m.1.toList)) (h : Decodes t m.2)
      (h' : DecodesMembers t' (m' :: members)) :
      DecodesMembers ('"' :: (k ++ '"' :: ':' :: (t ++ ',' :: t'))) (m :: m' :: members)

end

mutual

/-- **The canonical text of a value stands for it**, at every nesting. -/
theorem decodes_toText : (v : Value) → Decodes v.toText v
  | .null => .null
  | .bool true => .true
  | .bool false => .false
  | .number n => .number n
  | .string s => .string (spells_flatMap s.toList)
  | .array items => .array (decodesItems_itemsText items)
  | .object members => .object (decodesMembers_membersText members) (.refl members)

theorem decodesItems_itemsText : (items : List Value) → DecodesItems (itemsText items) items
  | [] => .nil
  | [v] => .single (decodes_toText v)
  | v :: v' :: items => .cons (decodes_toText v) (decodesItems_itemsText (v' :: items))

theorem decodesMembers_membersText : (members : List (String × Value)) →
    DecodesMembers (membersText members) members
  | [] => .nil
  | [(name, v)] => by
    have h := DecodesMembers.single (m := (name, v)) (spells_flatMap name.toList) (decodes_toText v)
    simpa [membersText, stringText] using h
  | (name, v) :: m' :: members => by
    have h := DecodesMembers.cons (m := (name, v)) (spells_flatMap name.toList) (decodes_toText v)
      (decodesMembers_membersText (m' :: members))
    simpa [membersText, stringText] using h

end

/-! ### Languages -/

section Languages

variable {g : Grammar}

theorem stands_escapeGbnfLiteral (s : String) :
    Stands g ("\"" ++ escapeGbnfLiteral s ++ "\"") {encode s.toList} :=
  Grammar.stands_literal s.toList

/-- The text of a constant denotes one byte string. -/
theorem stands_compileConst (c : Value) :
    Stands g (compileConst c) {encode (constText c)} := by
  have hdisplay : ∀ v : Value,
      Stands g ("\"" ++ escapeGbnfLiteral v.display ++ "\"") {encode v.toText} := by
    intro v
    have h := stands_escapeGbnfLiteral (g := g) v.display
    rwa [Value.display, String.toList_ofList] at h
  cases c with
  | null => exact Grammar.stands_literal "null".toList
  | bool b =>
    cases b with
    | true => exact Grammar.stands_literal "true".toList
    | false => exact Grammar.stands_literal "false".toList
  | number n =>
    have h := Grammar.stands_literal (g := g) n.toText
    rwa [literal_number] at h
  | string s =>
    -- three literals, of which the outer ones are quotation marks
    have hquote := Grammar.stands_literal (g := g) ['"']
    have h := (hquote.seq (stands_escapeGbnfLiteral s)).seq hquote
    have hencode : ({encode ['"']} * {encode s.toList} * {encode ['"']} : Language UInt8) =
        {encode (constText (.string s))} := by
      ext w
      simp only [Language.mem_mul]
      constructor
      · rintro ⟨_, ⟨_, rfl, _, rfl, rfl⟩, _, rfl, rfl⟩
        rw [← encode_append, ← encode_append]
        rfl
      · rintro rfl
        refine ⟨_, ⟨_, rfl, _, rfl, rfl⟩, _, rfl, ?_⟩
        rw [← encode_append, ← encode_append]
        rfl
    rw [hencode] at h
    refine h.congr ?_
    simp only [compileConst, Grammar.bytes_append, List.append_assoc]
    rfl
  | array items => exact hdisplay _
  | object members => exact hdisplay _

/-- The texts of constants. -/
def constTexts (vs : List Value) : Language UInt8 := {w | ∃ v ∈ vs, w = encode (constText v)}

theorem mem_constTexts {vs : List Value} {w : List UInt8} :
    w ∈ constTexts vs ↔ ∃ v ∈ vs, w = encode (constText v) := Iff.rfl

/-- The text of an enumeration denotes the texts of its constants. -/
theorem denotes_join {variants : List Value} (hne : variants ≠ []) :
    Denotes g (join " | " (variants.map compileConst)) (constTexts variants) := by
  induction variants with
  | nil => exact absurd rfl hne
  | cons c variants ih =>
    have hc := (stands_compileConst (g := g) c).denotes
    cases variants with
    | nil =>
      refine hc.mono_iff fun w => ?_
      rw [mem_constTexts]
      simp only [List.mem_singleton, exists_eq_left]
      exact Iff.rfl
    | cons c' variants =>
      refine (hc.alt (ih (List.cons_ne_nil _ _))).mono_iff fun w => ?_
      rw [mem_constTexts, List.exists_mem_cons_iff, Language.mem_add, mem_constTexts]
      exact Iff.rfl

end Languages

/-! ### Constants and enumerations -/

theorem compileValueToGbnf_eq (schema : Value) : compileValueToGbnf schema =
    (compileSchema (schema.depth + 1) schema ⟨[], 0⟩).map fun r =>
      buildGbnf (("root", r.1) :: r.2.rules) := by
  show ((compileSchema (schema.depth + 1) schema ⟨[], 0⟩ >>= _ : Grammar.GrammarResult _) >>= _) = _
  cases compileSchema (schema.depth + 1) schema ⟨[], 0⟩ with
  | error e => rfl
  | ok r => rfl

/-- The schema of a constant. -/
def constSchema (v : Value) : Value := .object [("const", v)]

/-- The schema of an enumeration. -/
def enumSchema (vs : List Value) : Value := .object [("enum", .array vs)]

/-- The schema is compiled to a grammar that generates only texts that stand for one of the
values, and at least one for each. -/
def Exact (schema : Value) (vs : List Value) : Prop :=
  ∃ text g, compileValueToGbnf schema = .ok text ∧ Grammar.parse text = .ok g ∧
    (∀ w, Generates g (.ruleRef g.root) w → ∃ v ∈ vs, ∃ t, Decodes t v ∧ w = encode t) ∧
    ∀ v ∈ vs, ∃ t, Decodes t v ∧ Generates g (.ruleRef g.root) (encode t)

/-- Neither an array nor an object. -/
def Value.IsScalar : Value → Prop
  | .array _ | .object _ => False
  | _ => True

/-- A string, if the value is one, may stand between quotation marks as it is. -/
def Value.Unescaped (v : Value) : Prop := ∀ s, v = .string s → ∀ c ∈ s.toList, Json.Unescaped c

theorem decodes_constText {v : Value} (h : v.Unescaped) : Decodes (constText v) v := by
  cases v with
  | string s => exact .string (Json.spells_self (h s rfl))
  | null | bool | number | array | object => exact decodes_toText _

/-- A schema whose text denotes the texts of constants is exact. -/
theorem exact_of_denotes {schema : Value} {vs : List Value} {text body : String}
    (htext : compileValueToGbnf schema = .ok text)
    (hbody : ∀ c c' : SchemaCompiler, ∀ e,
      compileSchema (schema.depth + 1) schema c = .ok (e, c') → e = body)
    (hden : ∀ g, Denotes g body (constTexts vs))
    (hvs : ∀ v ∈ vs, v.Unescaped) : Exact schema vs := by
  obtain ⟨g, e, c, hparse, hroot, hrun, hdefines⟩ := parse_of_compileValueToGbnf htext
  obtain rfl := hbody _ _ _ hrun
  have hgen := Grammar.generates_ruleRef_iff (hdefines _ List.mem_cons_self) (hden g)
  rw [← hroot] at hgen
  refine ⟨text, g, htext, hparse, fun w hw => ?_, fun v hv => ?_⟩
  · obtain ⟨v, hv, rfl⟩ := (hgen w).mp hw
    exact ⟨v, hv, _, decodes_constText (hvs v hv), rfl⟩
  · exact ⟨_, decodes_constText (hvs v hv), (hgen _).mpr ⟨v, hv, rfl⟩⟩

theorem exact_constSchema {v : Value} (h : v.Unescaped) : Exact (constSchema v) [v] := by
  have hbody : ∀ c c' : SchemaCompiler, ∀ e,
      compileSchema ((constSchema v).depth + 1) (constSchema v) c = .ok (e, c') →
        e = compileConst v := by
    rintro c c' e ⟨⟩
    rfl
  exact exact_of_denotes rfl hbody (fun g => denotes_join (List.cons_ne_nil v []))
    (by simpa using h)

theorem enumAlternative_of_isScalar {v : Value} (h : v.IsScalar) :
    enumAlternative v = .ok (compileConst v) := by
  cases v with
  | null | bool | number | string => rfl
  | array | object => exact h.elim

theorem enumAlternative_of_not_isScalar {v : Value} (h : ¬ v.IsScalar) :
    enumAlternative v = .error (.parseError 0 ("unsupported enum value type: " ++ v.display)) := by
  cases v with
  | null | bool | number | string => exact absurd trivial h
  | array | object => rfl

theorem compileEnum_of_isScalar {vs : List Value} (hne : vs ≠ []) (h : ∀ v ∈ vs, v.IsScalar) :
    compileEnum (.array vs) = .ok (join " | " (vs.map compileConst)) := by
  have hmapM : vs.mapM enumAlternative = .ok (vs.map compileConst) := by
    clear hne
    induction vs with
    | nil => rfl
    | cons v vs ih =>
      rw [List.mapM_cons, enumAlternative_of_isScalar (h v List.mem_cons_self),
        ih fun x hx => h x (List.mem_cons_of_mem v hx)]
      rfl
  cases vs with
  | nil => exact absurd rfl hne
  | cons v vs =>
    rw [compileEnum, hmapM]
    · rfl
    · nofun

theorem exact_enumSchema {vs : List Value} (hne : vs ≠ []) (hscalar : ∀ v ∈ vs, v.IsScalar)
    (h : ∀ v ∈ vs, v.Unescaped) : Exact (enumSchema vs) vs := by
  have henum := compileEnum_of_isScalar hne hscalar
  have hrun : ∀ n c, compileSchema (n + 1) (enumSchema vs) c =
      .ok (join " | " (vs.map compileConst), c) := by
    intro n c
    show (liftM (compileEnum (.array vs)) : CompileM String) c = _
    rw [henum]
    rfl
  have htext : compileValueToGbnf (enumSchema vs) =
      .ok (buildGbnf [("root", join " | " (vs.map compileConst))]) := by
    rw [compileValueToGbnf_eq, hrun]
    rfl
  refine exact_of_denotes htext (fun c c' e he => ?_) (fun g => denotes_join hne) h
  rw [hrun] at he
  cases he
  rfl

/-- An enumeration with an array or an object is refused, by the first one. -/
theorem refused_of_not_isScalar {vs : List Value} (h : ∃ v ∈ vs, ¬ v.IsScalar) :
    ∃ v ∈ vs, ¬ v.IsScalar ∧ compileValueToGbnf (enumSchema vs) =
      .error (.parseError 0 ("unsupported enum value type: " ++ v.display)) := by
  have hmapM : ∃ v ∈ vs, ¬ v.IsScalar ∧ vs.mapM enumAlternative =
      .error (.parseError 0 ("unsupported enum value type: " ++ v.display)) := by
    induction vs with
    | nil => simp at h
    | cons v vs ih =>
      rw [List.mapM_cons]
      by_cases hv : v.IsScalar
      · obtain ⟨x, hx, hnot⟩ := h
        rcases List.mem_cons.mp hx with rfl | hx
        · exact absurd hv hnot
        · obtain ⟨y, hy, hy', herr⟩ := ih ⟨x, hx, hnot⟩
          refine ⟨y, List.mem_cons_of_mem v hy, hy', ?_⟩
          rw [enumAlternative_of_isScalar hv, herr]
          rfl
      · refine ⟨v, List.mem_cons_self, hv, ?_⟩
        rw [enumAlternative_of_not_isScalar hv]
        rfl
  obtain ⟨v, hv, hnot, herr⟩ := hmapM
  refine ⟨v, hv, hnot, ?_⟩
  rw [compileValueToGbnf_eq]
  show ((liftM (compileEnum (.array vs)) : CompileM String) _).map _ = _
  have henum : compileEnum (.array vs) =
      .error (.parseError 0 ("unsupported enum value type: " ++ v.display)) := by
    cases vs with
    | nil => cases hv
    | cons x vs =>
      rw [compileEnum, herr]
      · rfl
      · nofun
  rw [henum]
  rfl

end Schema

end Oxillama
