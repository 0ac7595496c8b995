/-
The texts that the schema compiler answers.

Whatever the schema, the text of an expression is spelled by tokens, and the rules have
different names, all of them identifiers.

* `Inv` — the rules have different names, and bodies that have a spelling;
* `Keeps f S` — `f` keeps the rules in order, and what it answers satisfies `S`;
* `keeps_compileSchema` — every compilation does, with texts that have a spelling.
-/
import Oxillama.Grammar.Texts
import Oxillama.Schema.Inlining

namespace Oxillama

namespace Schema

open Grammar (IsIdent isIdent_of_all Spelled Tok Runs Ends alts altNode bytes literalChar
  readsAtom_quoted readsAtom_ident readsAtom_digitClass spelled_item spelled_literal spelled_ref)

/-! ### Texts that have a spelling -/

/-- The text is spelled by some tokens. -/
def Shape (e : String) : Prop := ∃ ts, Spelled e ts

section Shapes

variable {a b e e' : String} {es : List String}

theorem Shape.congr (h : Shape e) (he : bytes e' = bytes e) : Shape e' := by
  obtain ⟨ts, hts⟩ := h
  exact ⟨ts, hts.congr he⟩

theorem shape_empty : Shape "" := ⟨[], Grammar.spelled_empty⟩

theorem Shape.seq (h : Shape a) (h' : Shape b) : Shape (a ++ " " ++ b) := by
  obtain ⟨ts, hts⟩ := h
  obtain ⟨ts', hts'⟩ := h'
  exact ⟨_, hts.seq hts'⟩

theorem Shape.alt (h : Shape a) (h' : Shape b) : Shape (a ++ " | " ++ b) := by
  obtain ⟨ts, hts⟩ := h
  obtain ⟨ts', hts'⟩ := h'
  exact ⟨_, hts.alt hts'⟩

theorem Shape.group (h : Shape e) : Shape ("(" ++ e ++ ")") := by
  obtain ⟨ts, hts⟩ := h
  exact ⟨_, hts.group⟩

theorem Shape.star (h : Shape e) : Shape ("(" ++ e ++ ")*") := by
  obtain ⟨ts, hts⟩ := h
  refine ⟨_, (hts.quantified "*" 0x2a 0 none rfl (by simp)).congr ?_⟩
  simp only [Grammar.bytes_append, List.append_assoc]
  rfl

theorem Shape.opt (h : Shape e) : Shape ("(" ++ e ++ ")?") := by
  obtain ⟨ts, hts⟩ := h
  refine ⟨_, (hts.quantified "?" 0x3f 0 (some 1) rfl (by simp)).congr ?_⟩
  simp only [Grammar.bytes_append, List.append_assoc]
  rfl

/-- Texts between separators. -/
theorem shape_join {sep : String} (hsep : ∀ {a b}, Shape a → Shape b → Shape (a ++ sep ++ b))
    (h : ∀ e ∈ es, Shape e) : Shape (join sep es) := by
  induction es with
  | nil => exact shape_empty
  | cons e es ih =>
    have he := h e List.mem_cons_self
    have hes := ih fun x hx => h x (List.mem_cons_of_mem e hx)
    cases es with
    | nil => exact he
    | cons e' es => exact hsep he hes

theorem shape_literal (cs : Text) :
    Shape ("\"" ++ String.ofList (cs.flatMap literalChar) ++ "\"") := ⟨_, spelled_literal cs⟩

theorem shape_escapeGbnfLiteral (s : String) : Shape ("\"" ++ escapeGbnfLiteral s ++ "\"") :=
  shape_literal s.toList

theorem shape_ref {name : String} (h : IsIdent name) : Shape name := ⟨_, spelled_ref h⟩

/-- The quotation mark of a JSON string, as a literal. -/
theorem shape_quote : Shape "\"\\\"\"" := shape_literal ['"']

end Shapes

/-! ### The state of the compiler -/

/-- The names of the helper rules. -/
def helperNames : List String :=
  ["ws", "string-char", "json-number", "json-integer", "json-value", "json-pair"]

/-- The name of a generated rule. -/
def ruleName (k : ℕ) : String := "rule-" ++ Nat.repr k

theorem ruleName_toList (k : ℕ) : (ruleName k).toList = "rule-".toList ++ Nat.toDigits 10 k := by
  rw [ruleName, String.toList_append, Nat.toList_repr]

theorem ruleName_injective {j k : ℕ} (h : ruleName j = ruleName k) : j = k := by
  have hlist := congrArg String.toList h
  rw [ruleName_toList, ruleName_toList, List.append_cancel_left_eq] at hlist
  have hdigits := congrArg (Nat.ofDigitChars 10 · 0) hlist
  simpa only [Nat.ofDigitChars_ten_toDigits] using hdigits

theorem isIdent_ruleName (k : ℕ) : IsIdent (ruleName k) := by
  have hstem : ∀ d ∈ "ule-".toList, (d.isAlphanum || d == '_' || d == '-') = true :=
    List.all_eq_true.mp rfl
  refine ⟨'r', "ule-".toList ++ Nat.toDigits 10 k, ruleName_toList k, rfl, ?_⟩
  intro d hd
  rcases List.mem_append.mp hd with hd | hd
  · exact hstem d hd
  · have hdigit := Nat.isDigit_of_mem_toDigits (b := 10) (by decide) (by decide) hd
    rw [Char.isAlphanum, hdigit, Bool.or_true]
    rfl

theorem isIdent_helper (name : String) (h : name ∈ helperNames) : IsIdent name := by
  simp only [helperNames, List.mem_cons, List.not_mem_nil, or_false] at h
  rcases h with rfl | rfl | rfl | rfl | rfl | rfl
  · exact isIdent_of_all rfl rfl rfl
  · exact isIdent_of_all rfl rfl rfl
  · exact isIdent_of_all rfl rfl rfl
  · exact isIdent_of_all rfl rfl rfl
  · exact isIdent_of_all rfl rfl rfl
  · exact isIdent_of_all rfl rfl rfl

/-- Helper rules are not generated, and neither is the root rule. -/
theorem ruleName_ne {name : String} (h : name ∈ "root" :: helperNames) (k : ℕ) :
    ruleName k ≠ name := by
  intro heq
  have hlist := (ruleName_toList k).symm.trans (congrArg String.toList heq)
  have hhead : name.toList.take 2 = ['r', 'u'] := by
    rw [← hlist]
    rfl
  clear heq hlist k
  revert name
  decide

/-- The body of the rule for whitespace. -/
def wsBody : String := "[ \\t\\n\\r]*"

/-- The rules have different names, and bodies that have a spelling. -/
structure Inv (c : SchemaCompiler) : Prop where
  nodup : (c.rules.map Prod.fst).Nodup
  names : ∀ r ∈ c.rules, r.1 ∈ helperNames ∨ ∃ k < c.counter, r.1 = ruleName k
  shapes : ∀ r ∈ c.rules, Shape r.2
  ws : ∀ r ∈ c.rules, r.1 = "ws" → r.2 = wsBody

theorem inv_empty : Inv ⟨[], 0⟩ := ⟨List.nodup_nil, by simp, by simp, by simp⟩

theorem Inv.isIdent {c : SchemaCompiler} (h : Inv c) : ∀ r ∈ c.rules, IsIdent r.1 := by
  intro r hr
  rcases h.names r hr with hname | ⟨k, -, hname⟩
  · exact isIdent_helper _ hname
  · rw [hname]
    exact isIdent_ruleName k

/-- A rule with a new name. -/
theorem Inv.add {c : SchemaCompiler} (h : Inv c) {name body : String}
    (hnew : name ∉ c.rules.map Prod.fst) {counter : ℕ} (hcounter : c.counter ≤ counter)
    (hname : name ∈ helperNames ∨ ∃ k < counter, name = ruleName k) (hbody : Shape body)
    (hws : name = "ws" → body = wsBody) : Inv ⟨c.rules ++ [(name, body)], counter⟩ := by
  refine ⟨?_, ?_, ?_, ?_⟩
  · rw [List.map_append, List.nodup_append]
    refine ⟨h.nodup, List.nodup_singleton _, ?_⟩
    intro x hx y hy hxy
    obtain rfl := List.mem_singleton.mp hy
    exact hnew (hxy ▸ hx)
  · intro r hr
    rcases List.mem_append.mp hr with hr | hr
    · rcases h.names r hr with hold | ⟨k, hk, hold⟩
      · exact .inl hold
      · exact .inr ⟨k, lt_of_lt_of_le hk hcounter, hold⟩
    · obtain rfl := List.mem_singleton.mp hr
      exact hname
  · intro r hr
    rcases List.mem_append.mp hr with hr | hr
    · exact h.shapes r hr
    · obtain rfl := List.mem_singleton.mp hr
      exact hbody
  · intro r hr
    rcases List.mem_append.mp hr with hr | hr
    · exact h.ws r hr
    · obtain rfl := List.mem_singleton.mp hr
      exact hws

/-! ### What is kept -/

/-- `f` keeps the rules it finds, and their order, and what it answers satisfies `S`. -/
def Keeps {α : Type} (f : CompileM α) (S : α → Prop) : Prop :=
  ∀ ⦃c a c'⦄, f c = .ok (a, c') → c.rules ⊆ c'.rules ∧ (Inv c → Inv c') ∧ S a

theorem ok_bind {α β : Type} {f : CompileM α} {k : α → CompileM β} {c c' : SchemaCompiler} {b : β}
    (h : (f >>= k) c = .ok (b, c')) : ∃ a c₁, f c = .ok (a, c₁) ∧ k a c₁ = .ok (b, c') := by
  change (f c >>= fun r => k r.1 r.2) = _ at h
  cases hf : f c with
  | error e =>
    rw [hf] at h
    cases h
  | ok r =>
    rw [hf] at h
    exact ⟨r.1, r.2, rfl, h⟩

section Keeping

variable {α β : Type} {f : CompileM α} {k : α → CompileM β} {S : α → Prop} {S' : β → Prop}

theorem keeps_pure {a : α} (h : S a) : Keeps (pure a) S := by
  rintro c _ _ ⟨⟩
  exact ⟨List.Subset.refl _, id, h⟩

theorem keeps_throw {e : Grammar.GrammarError} : Keeps (throw e) S := by
  rintro c _ _ ⟨⟩

theorem Keeps.bind (hf : Keeps f S) (hk : ∀ a, S a → Keeps (k a) S') : Keeps (f >>= k) S' := by
  intro c b c' h
  obtain ⟨a, c₁, h₁, h₂⟩ := ok_bind h
  obtain ⟨hsub₁, hinv₁, ha⟩ := hf h₁
  obtain ⟨hsub', hinv', hb⟩ := hk a ha h₂
  exact ⟨List.Subset.trans hsub₁ hsub', fun hc => hinv' (hinv₁ hc), hb⟩

/-- A computation that does not use the state. -/
theorem keeps_lift {x : Grammar.GrammarResult α} (h : ∀ a, x = .ok a → S a) :
    Keeps (liftM x : CompileM α) S := by
  intro c a c' hrun
  cases x with
  | error e => cases hrun
  | ok x =>
    cases hrun
    exact ⟨List.Subset.refl _, id, h a rfl⟩

theorem keeps_mapM {γ : Type} {f : γ → CompileM α} {xs : List γ} (h : ∀ x ∈ xs, Keeps (f x) S) :
    Keeps (xs.mapM f) fun as => ∀ a ∈ as, S a := by
  induction xs with
  | nil => exact keeps_pure fun a ha => (List.not_mem_nil ha).elim
  | cons x xs ih =>
    rw [List.mapM_cons]
    refine (h x List.mem_cons_self).bind fun a ha => ?_
    refine (ih fun y hy => h y (List.mem_cons_of_mem x hy)).bind fun as has => ?_
    refine keeps_pure fun b hb => ?_
    rcases List.mem_cons.mp hb with rfl | hb
    · exact ha
    · exact has b hb

/-- A generated rule. -/
theorem keeps_newRule {body : String} (hbody : Shape body) {k : String → CompileM β}
    (hk : ∀ name, IsIdent name → Keeps (k name) S') :
    Keeps (do let name ← nextRuleName; let name ← addRule name body; k name) S' := by
  intro c b c' h
  obtain ⟨hsub, hinv, hb⟩ := hk _ (isIdent_ruleName c.counter) h
  refine ⟨List.Subset.trans (List.subset_append_left _ _) hsub, fun hc => hinv ?_, hb⟩
  refine hc.add ?_ (Nat.le_succ _) (.inr ⟨_, Nat.lt_succ_self _, rfl⟩) hbody
    fun hname => absurd hname (ruleName_ne (by decide) _)
  intro hmem
  obtain ⟨r, hr, hname⟩ := List.mem_map.mp hmem
  rcases hc.names r hr with hhelper | ⟨j, hj, hold⟩
  · exact ruleName_ne (List.mem_cons_of_mem _ hhelper) c.counter hname.symm
  · have := ruleName_injective (hold.symm.trans hname)
    omega

theorem keeps_ensureRule {name body : String} (hname : name ∈ helperNames) (hbody : Shape body)
    (hws : name = "ws" → body = wsBody) : Keeps (ensureRule name body) fun _ => True := by
  intro c a c' h
  obtain ⟨has, c₁, h₁, h⟩ := ok_bind h
  cases h₁
  cases hhas : c.rules.any fun r => r.1 == name with
  | true =>
    rw [hhas] at h
    cases h
    exact ⟨List.Subset.refl _, id, trivial⟩
  | false =>
    rw [hhas] at h
    cases h
    refine ⟨List.subset_append_left _ _, fun hc => hc.add ?_ le_rfl (.inl hname) hbody hws,
      trivial⟩
    intro hmem
    obtain ⟨r, hr, rfl⟩ := List.mem_map.mp hmem
    rw [List.any_eq_false] at hhas
    exact hhas r hr (beq_self_eq_true _)

end Keeping

/-! ### Helper rules -/

section Helpers

theorem keeps_inlineOrRuleWith {inline : String → Bool} {e : String} (h : Shape e) :
    Keeps (inlineOrRuleWith inline e) Shape := by
  unfold inlineOrRuleWith
  split
  · exact keeps_pure h
  · exact keeps_newRule h fun name hname => keeps_pure (shape_ref hname)

theorem shape_ws : Shape wsBody :=
  ⟨_, spelled_item (Grammar.readsAtom_wsClass.quantified 0x2a 0 none (by simp))⟩

theorem shape_stringChar : Shape "[^\\x00-\\x1f\"\\\\]" :=
  ⟨_, spelled_item Grammar.readsAtom_stringCharClass.item⟩

theorem shape_stringChars : Shape "string-char*" :=
  ⟨_, spelled_item
    ((readsAtom_ident (isIdent_helper "string-char" (by decide))).quantified 0x2a 0 none
    (by simp))⟩

theorem shape_helper (name : String) (h : name ∈ helperNames) : Shape name :=
  shape_ref (isIdent_helper name h)

theorem shape_sign : Shape "\"-\"?" :=
  ⟨_, spelled_item ((readsAtom_quoted ['-']).quantified 0x3f 0 (some 1) (by simp))⟩

theorem shape_digits : Shape "[0-9]+" :=
  ⟨_, spelled_item (readsAtom_digitClass.quantified 0x2b 1 none (by simp))⟩

theorem shape_integer : Shape "\"-\"? [0-9]+" := shape_sign.seq shape_digits

theorem shape_number : Shape "\"-\"? [0-9]+ (\".\" [0-9]+)?" :=
  (shape_integer.seq ((shape_literal ['.']).seq shape_digits).opt).congr rfl

theorem shape_string : Shape "\"\\\"\" string-char* \"\\\"\"" :=
  ((shape_quote.seq shape_stringChars).seq shape_quote).congr rfl

theorem shape_value :
    Shape "\"\\\"\" string-char* \"\\\"\" | json-number | \"true\" | \"false\" | \"null\"" :=
  ((((shape_string.alt (shape_helper "json-number" (by decide))).alt
    (shape_literal "true".toList)).alt (shape_literal "false".toList)).alt
    (shape_literal "null".toList)).congr rfl

theorem keeps_ensureWsRule : Keeps ensureWsRule fun ws => ws = "ws" :=
  (keeps_ensureRule (by decide) shape_ws fun _ => rfl).bind fun _ _ => keeps_pure rfl

theorem keeps_ensureStringCharRule : Keeps ensureStringCharRule fun _ => True :=
  keeps_ensureRule (by decide) shape_stringChar fun h => absurd h (by decide)

theorem keeps_ensureNumberRule : Keeps ensureNumberRule fun _ => True :=
  keeps_ensureRule (by decide) shape_number fun h => absurd h (by decide)

theorem keeps_ensureIntegerRule : Keeps ensureIntegerRule fun _ => True :=
  keeps_ensureRule (by decide) shape_integer fun h => absurd h (by decide)

theorem keeps_anyJsonExpr : Keeps anyJsonExpr Shape :=
  keeps_ensureStringCharRule.bind fun _ _ => keeps_ensureNumberRule.bind fun _ _ =>
    (keeps_ensureRule (by decide) shape_value fun h => absurd h (by decide)).bind fun _ _ =>
      keeps_pure (shape_helper _ (by decide))

end Helpers

/-! ### Repetitions -/

section Repetitions

variable {atom item : String}

theorem shape_optionalTail (h : Shape atom) (n : ℕ) : Shape (optionalTail atom n) := by
  induction n with
  | zero => exact shape_empty
  | succ n ih =>
    cases n with
    | zero => exact h.opt
    | succ n =>
      refine (h.seq ih).opt.congr ?_
      simp only [optionalTail, Grammar.bytes_append, List.append_assoc]

theorem shape_boundedRepeat (h : Shape atom) (min : ℕ) (max : Option ℕ) :
    Shape (boundedRepeat atom min max) := by
  refine shape_join Shape.seq fun e he => ?_
  rcases List.mem_append.mp he with he | he
  · rw [List.eq_of_mem_replicate he]
    exact h
  · cases max with
    | none =>
      rw [List.mem_singleton.mp he]
      exact h.star
    | some max =>
      obtain ⟨-, he⟩ := List.mem_ite_nil_right.mp he
      rw [List.mem_singleton.mp he]
      exact shape_optionalTail h _

/-- A comma between whitespace. -/
theorem shape_comma : Shape "ws \",\" ws" :=
  (((shape_helper "ws" (by decide)).seq (shape_literal [','])).seq
    (shape_helper "ws" (by decide))).congr rfl

theorem shape_boundedList (h : Shape item) (min : ℕ) (max : Option ℕ) :
    Shape (boundedList item "ws" min max) := by
  have hsep : Shape ("ws" ++ " \",\" " ++ "ws" ++ " " ++ item) := shape_comma.seq h
  -- nothing, or texts that follow the first item
  have hbody : ∀ rest, Shape rest → Shape (if rest.isEmpty then item else item ++ " " ++ rest) := by
    intro rest hrest
    split
    · exact h
    · exact h.seq hrest
  unfold boundedList
  dsimp only
  split
  · exact shape_empty
  · split
    · refine (hbody _ ?_).opt
      cases max with
      | none => exact hsep.star
      | some m => exact shape_boundedRepeat hsep 0 _
    · exact hbody _ (shape_boundedRepeat hsep _ _)

end Repetitions

/-! ### Constants, strings and numbers -/

/-- A text without characters that need escaping is its own literal. -/
theorem flatMap_literalChar {cs : Text} (h : ∀ c ∈ cs, c ∉ ['"', '\\', '\n', '\r', '\t']) :
    cs.flatMap literalChar = cs := by
  induction cs with
  | nil => rfl
  | cons c cs ih =>
    have hc := h c List.mem_cons_self
    simp only [List.mem_cons, List.not_mem_nil, or_false, not_or] at hc
    obtain ⟨hquote, hslash, hn, hr, ht⟩ := hc
    have hself : literalChar c = [c] := by
      unfold literalChar
      split <;> first | rfl | contradiction
    rw [List.flatMap_cons, hself, ih fun x hx => h x (List.mem_cons_of_mem c hx)]
    rfl

theorem literal_number (n : Number) : n.toText.flatMap literalChar = n.toText := by
  refine flatMap_literalChar fun c hc hmem => ?_
  have hnumber := (number_toText n).mem c hc
  simp only [List.mem_cons, List.not_mem_nil, or_false] at hmem
  rcases hmem with rfl | rfl | rfl | rfl | rfl <;> revert hnumber <;> decide

theorem shape_compileConst (v : Value) : Shape (compileConst v) := by
  cases v with
  | null => exact shape_literal "null".toList
  | bool b =>
    cases b with
    | true => exact shape_literal "true".toList
    | false => exact shape_literal "false".toList
  | number n =>
    have h := shape_literal n.toText
    rwa [literal_number] at h
  | string s =>
    exact ((shape_quote.seq (shape_escapeGbnfLiteral s)).seq shape_quote).congr (by
      simp only [compileConst, Grammar.bytes_append, List.append_assoc]
      rfl)
  | array items => exact shape_escapeGbnfLiteral _
  | object members => exact shape_escapeGbnfLiteral _

/-- The alternatives of an enumeration are constants. -/
theorem enumAlternative_eq {v : Value} {e : String} (h : enumAlternative v = .ok e) :
    compileConst v = e := by
  cases v with
  | null | bool | number | string =>
    cases h
    rfl
  | array | object => cases h

theorem compileEnum_eq {v : Value} {e : String} (h : compileEnum v = .ok e) :
    ∃ variants, v = .array variants ∧ variants ≠ [] ∧
      e = join " | " (variants.map compileConst) := by
  have hmapM : ∀ {variants : List Value} {es : List String},
      variants.mapM enumAlternative = .ok es → es = variants.map compileConst := by
    intro variants
    induction variants with
    | nil =>
      rintro es ⟨⟩
      rfl
    | cons v variants ih =>
      intro es h
      rw [List.mapM_cons] at h
      cases hv : enumAlternative v with
      | error => rw [hv] at h; cases h
      | ok e =>
        cases hvs : variants.mapM enumAlternative with
        | error => rw [hv, hvs] at h; cases h
        | ok es' =>
          rw [hv, hvs] at h
          cases h
          rw [List.map_cons, enumAlternative_eq hv, ih hvs]
  unfold compileEnum at h
  split at h
  · cases h
  · rename_i variants hne
    cases hvs : variants.mapM enumAlternative with
    | error => rw [hvs] at h; cases h
    | ok es =>
      rw [hvs] at h
      cases h
      exact ⟨variants, rfl, fun hnil => hne (hnil ▸ rfl), by rw [hmapM hvs]⟩
  · cases h

theorem keeps_compileEnum (v : Value) : Keeps (liftM (compileEnum v)) Shape := by
  refine keeps_lift fun e he => ?_
  obtain ⟨variants, -, -, rfl⟩ := compileEnum_eq he
  refine shape_join Shape.alt fun e he => ?_
  obtain ⟨v, -, rfl⟩ := List.mem_map.mp he
  exact shape_compileConst v

theorem keeps_compileNumberType (obj : Object) : Keeps (compileNumberType obj) Shape :=
  (keeps_lift fun _ _ => trivial).bind fun _ (_ : True) =>
    keeps_ensureNumberRule.bind fun _ _ => keeps_pure (shape_helper _ (by decide))

theorem keeps_compileIntegerType (obj : Object) : Keeps (compileIntegerType obj) Shape :=
  (keeps_lift fun _ _ => trivial).bind fun _ (_ : True) =>
    keeps_ensureIntegerRule.bind fun _ _ => keeps_pure (shape_helper _ (by decide))

theorem keeps_compileStringType (obj : Object) : Keeps (compileStringType obj) Shape := by
  unfold compileStringType
  split
  · split
    · exact keeps_throw
    · exact keeps_pure (shape_escapeGbnfLiteral _)
  · refine keeps_ensureStringCharRule.bind fun _ _ => ?_
    have hbody : ∀ min max,
        Shape ("\"\\\"\" " ++ boundedRepeat "string-char" min max ++ " \"\\\"\"") := by
      intro min max
      have hchars := shape_boundedRepeat (shape_helper "string-char" (by decide)) min max
      refine ((shape_quote.seq hchars).seq shape_quote).congr ?_
      simp only [Grammar.bytes_append, List.append_assoc]
      rfl
    dsimp only
    split
    · split
      · split
        · exact keeps_throw.bind fun _ (_ : True) => keeps_pure (hbody _ _)
        · exact (keeps_pure trivial).bind fun _ (_ : True) => keeps_pure (hbody _ _)
      · exact (keeps_pure trivial).bind fun _ (_ : True) => keeps_pure (hbody _ _)
    · exact keeps_pure shape_string

/-! ### Objects, arrays and combinators -/

section Objects

variable {valRule : String}

theorem shape_memberExpr (key : String) (h : Shape valRule) :
    Shape (memberExpr "ws" key valRule) := by
  have hkey := (shape_quote.seq (shape_escapeGbnfLiteral key)).seq shape_quote
  have hcolon : Shape "ws \":\" ws" :=
    (((shape_helper "ws" (by decide)).seq (shape_literal [':'])).seq
      (shape_helper "ws" (by decide))).congr rfl
  refine ((hkey.seq hcolon).seq h).congr ?_
  simp only [memberExpr, Grammar.bytes_append, List.append_assoc]
  rfl

/-- A member with any key. -/
theorem shape_anyMember (h : Shape valRule) :
    Shape ("\"\\\"\" string-char* \"\\\"\" " ++ "ws" ++ " \":\" " ++ "ws" ++ " " ++ valRule) := by
  have hcolon : Shape "ws \":\" ws" :=
    (((shape_helper "ws" (by decide)).seq (shape_literal [':'])).seq
      (shape_helper "ws" (by decide))).congr rfl
  refine ((shape_string.seq hcolon).seq h).congr ?_
  simp only [Grammar.bytes_append, List.append_assoc]
  rfl

theorem shape_objectBody {parts : List String} {extra : Option String}
    (hparts : ∀ e ∈ parts, Shape e) (hextra : ∀ e ∈ extra, Shape e) :
    Shape (objectBody "ws" parts extra) := by
  have hjoin : ∀ {a b}, Shape a → Shape b →
      Shape (a ++ (" " ++ "ws" ++ " \",\" " ++ "ws" ++ " ") ++ b) := by
    intro a b ha hb
    refine ((ha.seq shape_comma).seq hb).congr ?_
    simp only [Grammar.bytes_append, List.append_assoc]
    rfl
  have hmore : ∀ {extra}, Shape extra →
      Shape ("(" ++ "ws" ++ " \",\" " ++ "ws" ++ " " ++ extra ++ ")*") := by
    intro extra h
    refine (shape_comma.seq h).star.congr ?_
    simp only [Grammar.bytes_append, List.append_assoc]
    rfl
  have hbody : ∀ {joined}, Shape joined → Shape (if joined.isEmpty then
      "\"\x7b\" " ++ "ws" ++ " \"\x7d\""
      else "\"\x7b\" " ++ "ws" ++ " " ++ joined ++ " " ++ "ws" ++ " \"\x7d\"") := by
    intro joined h
    have hopen : Shape "\"\x7b\" ws" :=
      ((shape_literal ['\x7b']).seq (shape_helper "ws" (by decide))).congr rfl
    split
    · exact (hopen.seq (shape_literal ['\x7d'])).congr rfl
    · have hclose : Shape "ws \"\x7d\"" :=
        ((shape_helper "ws" (by decide)).seq (shape_literal ['\x7d'])).congr rfl
      refine ((hopen.seq h).seq hclose).congr ?_
      simp only [Grammar.bytes_append, List.append_assoc]
      rfl
  unfold objectBody
  refine hbody ?_
  split
  · rename_i extra
    have h := hextra extra rfl
    refine (h.seq (hmore h)).opt.congr ?_
    simp only [Grammar.bytes_append, List.append_assoc]
    rfl
  · exact shape_empty
  · rename_i extra _
    refine ((shape_join hjoin hparts).seq (hmore (hextra extra rfl))).congr ?_
    simp only [Grammar.bytes_append, List.append_assoc]
    rfl
  · exact shape_join hjoin hparts

end Objects

section Compile

variable {inline : String → Bool} {compile : Value → CompileM String}
  (hcompile : ∀ v, Keeps (compile v) Shape)

include hcompile

theorem keeps_requiredPart (prop : String × Value) :
    Keeps (requiredPartWith inline compile "ws" prop) Shape :=
  (hcompile prop.2).bind fun _ he => (keeps_inlineOrRuleWith he).bind fun _ hrule =>
    keeps_pure (shape_memberExpr prop.1 hrule)

theorem keeps_optionalPart (prop : String × Value) :
    Keeps (optionalPartWith inline compile "ws" prop) Shape :=
  (hcompile prop.2).bind fun _ he => (keeps_inlineOrRuleWith he).bind fun _ hrule =>
    keeps_newRule (shape_memberExpr prop.1 hrule) fun _ hname => keeps_pure (shape_ref hname).opt

theorem keeps_extraPairRule (obj : Object) :
    Keeps (extraPairRuleWith inline compile "ws" obj) fun extra => ∀ e ∈ extra, Shape e := by
  have hrest : ∀ e, Shape e → Keeps (do
      ensureStringCharRule
      let valRule ← inlineOrRuleWith inline e
      let name ← nextRuleName
      let name ← addRule name
        ("\"\\\"\" string-char* \"\\\"\" " ++ "ws" ++ " \":\" " ++ "ws" ++ " " ++ valRule)
      return some name) fun extra => ∀ e ∈ extra, Shape e := by
    intro e he
    refine keeps_ensureStringCharRule.bind fun _ _ =>
      (keeps_inlineOrRuleWith he).bind fun _ hrule => ?_
    refine keeps_newRule (shape_anyMember hrule) fun name hname => keeps_pure ?_
    rintro _ ⟨⟩
    exact shape_ref hname
  unfold extraPairRuleWith
  split
  · exact keeps_pure nofun
  · exact keeps_pure nofun
  · exact keeps_anyJsonExpr.bind hrest
  · exact (hcompile _).bind hrest

theorem keeps_compileObjectType (obj : Object) :
    Keeps (compileObjectTypeWith inline compile obj) Shape := by
  refine keeps_ensureWsRule.bind ?_
  rintro _ rfl
  split
  · refine (keeps_lift fun _ _ => trivial).bind fun required (_ : True) => ?_
    refine (keeps_mapM fun prop _ => keeps_requiredPart hcompile prop).bind fun _ hrequired => ?_
    refine (keeps_mapM fun prop _ => keeps_optionalPart hcompile prop).bind fun _ hoptional => ?_
    refine (keeps_extraPairRule hcompile obj).bind fun _ hextra => keeps_pure ?_
    refine shape_objectBody (fun e he => ?_) hextra
    rcases List.mem_append.mp he with he | he
    · exact hrequired e he
    · exact hoptional e he
  · exact keeps_throw
  · refine keeps_ensureStringCharRule.bind fun _ _ => keeps_anyJsonExpr.bind fun _ hvalue => ?_
    refine (keeps_ensureRule (by decide) (shape_anyMember hvalue)
      fun h => absurd h (by decide)).bind fun _ _ => keeps_pure ?_
    have hpair := shape_helper "json-pair" (by decide)
    have hempty : Shape (objectBody "ws" [] none) := shape_objectBody nofun nofun
    have hmembers : Shape (objectBody "ws" ["json-pair"] (some "json-pair")) := by
      refine shape_objectBody (fun e he => ?_) (fun e he => ?_)
      · rw [List.mem_singleton.mp he]
        exact hpair
      · rw [← Option.some.inj he]
        exact hpair
    exact (hempty.alt hmembers).congr rfl

theorem keeps_compileArrayType (obj : Object) :
    Keeps (compileArrayTypeWith inline compile obj) Shape := by
  have hbody : ∀ {item} min max, Shape item → Shape
      ("\"[\" " ++ "ws" ++ " " ++ boundedList item "ws" min max ++ " " ++ "ws" ++ " \"]\"") := by
    intro item min max h
    have hopen : Shape "\"[\" ws" :=
      ((shape_literal ['[']).seq (shape_helper "ws" (by decide))).congr rfl
    have hclose : Shape "ws \"]\"" :=
      ((shape_helper "ws" (by decide)).seq (shape_literal [']'])).congr rfl
    refine ((hopen.seq (shape_boundedList h min max)).seq hclose).congr ?_
    simp only [Grammar.bytes_append, List.append_assoc]
    rfl
  refine keeps_ensureWsRule.bind ?_
  rintro _ rfl
  dsimp only
  split
  on_goal 1 => refine (hcompile _).bind fun _ he => ?_
  on_goal 2 => refine keeps_anyJsonExpr.bind fun _ he => ?_
  all_goals
    refine (keeps_inlineOrRuleWith he).bind fun _ hrule => ?_
    split
    · split
      · exact keeps_throw.bind fun _ (_ : True) => keeps_pure (hbody _ _ hrule)
      · exact (keeps_pure trivial).bind fun _ (_ : True) => keeps_pure (hbody _ _ hrule)
    · exact (keeps_pure trivial).bind fun _ (_ : True) => keeps_pure (hbody _ _ hrule)

theorem keeps_compileAnyOf (variants : List Value) :
    Keeps (compileAnyOfWith inline compile variants) Shape := by
  have hvariants : Keeps (do
      let alts ← variants.mapM fun variant => do inlineOrRuleWith inline (← compile variant)
      return "(" ++ join " | " alts ++ ")") Shape :=
    (keeps_mapM fun v _ => (hcompile v).bind fun _ he => keeps_inlineOrRuleWith he).bind
      fun _ halts => keeps_pure (shape_join Shape.alt halts).group
  unfold compileAnyOfWith
  split
  · exact keeps_throw.bind fun _ (_ : True) => hvariants
  · exact hvariants

theorem keeps_compileAllOf (schemas : List Value) :
    Keeps (compileAllOfWith inline compile schemas) Shape := by
  unfold compileAllOfWith
  split
  · exact keeps_throw
  · exact hcompile _
  · exact (keeps_lift fun _ _ => trivial).bind fun _ (_ : True) =>
      keeps_compileObjectType hcompile _

theorem keeps_compileKind (k : Kind) : Keeps (compileKindWith inline compile k) Shape := by
  cases k with
  | any => exact keeps_anyJsonExpr
  | never => exact keeps_pure (shape_literal "__never__".toList)
  | invalid => exact keeps_throw
  | const v => exact keeps_pure (shape_compileConst v)
  | enum v => exact keeps_compileEnum v
  | anyOf variants => exact keeps_compileAnyOf hcompile variants
  | allOf schemas => exact keeps_compileAllOf hcompile schemas
  | string obj => exact keeps_compileStringType obj
  | number obj => exact keeps_compileNumberType obj
  | integer obj => exact keeps_compileIntegerType obj
  | boolean =>
    exact keeps_pure (((shape_literal "true".toList).alt (shape_literal "false".toList)).congr rfl)
  | null => exact keeps_pure (shape_literal "null".toList)
  | object obj => exact keeps_compileObjectType hcompile obj
  | array obj => exact keeps_compileArrayType hcompile obj

end Compile

/-- **Every compilation keeps the rules in order and answers a text that has a spelling**,
whatever is inlined. -/
theorem keeps_compileSchemaWith (inline : String → Bool) (n : ℕ) (schema : Value) :
    Keeps (compileSchemaWith inline n schema) Shape := by
  induction n generalizing schema with
  | zero => exact keeps_throw
  | succ n ih => exact keeps_compileKind ih (kind schema)

theorem keeps_compileSchema (n : ℕ) (schema : Value) : Keeps (compileSchema n schema) Shape := by
  rw [← compileSchemaWith_isInlineExpr]
  exact keeps_compileSchemaWith isInlineExpr n schema

end Schema

end Oxillama
