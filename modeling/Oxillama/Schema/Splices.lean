/-
What inlining does to the language of a schema.

A short text is put into its parent as it is.  Between the parentheses of `anyOf` that
changes nothing; in the member of an object or in a list a bar at the top of the text
divides the parent too.

* `BareBar v` — the text of `v` has a bar at its top, and is short enough to be inlined;
* `SpliceSafe v` — no such text is put next to others anywhere in `v`;
* `inlining_preserves` — **without such a text, inlining does not change the language.**
-/
import Oxillama.Schema.Constants
import Oxillama.Schema.Parallel

namespace Oxillama

namespace Schema

open scoped Computability
open Grammar (GrammarError GrammarResult Denotes Stands Generates)

/-! ### Texts with a bar -/

/-- The text of the schema has a bar outside of parentheses, and is short enough to be
inlined. -/
inductive BareBar : Value → Prop
  | boolean {v : Value} (hk : kind v = .boolean) : BareBar v
  | enum {v : Value} {variants : List Value} (hk : kind v = .enum (.array variants))
      (hlen : 2 ≤ variants.length)
      (hinline : ∀ e, compileEnum (.array variants) = .ok e → isInlineExpr e = true) : BareBar v
  | object {v : Value} {obj : Object} (hk : kind v = .object obj)
      (hprops : obj.get "properties" = none) : BareBar v
  | allOf {v schema : Value} (hk : kind v = .allOf [schema]) (h : BareBar schema) : BareBar v

/-- Without schemas inside. -/
def Kind.IsLeaf : Kind → Prop
  | .anyOf _ | .allOf _ | .object _ | .array _ => False
  | _ => True

/-- Wherever the text of a schema is put next to others, it has no bare bar. -/
inductive SpliceSafe : Value → Prop
  | leaf {v : Value} (h : (kind v).IsLeaf) : SpliceSafe v
  | anyOf {v : Value} {variants : List Value} (hk : kind v = .anyOf variants)
      (h : ∀ x ∈ variants, SpliceSafe x) : SpliceSafe v
  | allOf {v schema : Value} (hk : kind v = .allOf [schema]) (h : SpliceSafe schema) :
      SpliceSafe v
  /-- A list of one item at most has it in parentheses, or not at all. -/
  | array {v : Value} {obj : Object} (hk : kind v = .array obj)
      (h : ∀ item, obj.get "items" = some item → maxItems obj ≠ some 0 → SpliceSafe item)
      (hbar : ∀ item, obj.get "items" = some item → BareBar item →
        maxItems obj = some 0 ∨ minItems obj = 0 ∧ maxItems obj = some 1) : SpliceSafe v
  | object {v : Value} {obj : Object} (ho : objectOf v = some obj)
      (hprops : ∀ props, obj.get "properties" = some (.object props) →
        ∀ p ∈ props, SpliceSafe p.2)
      (hbar : ∀ props, obj.get "properties" = some (.object props) →
        ∀ p ∈ props, ¬ BareBar p.2)
      (hextra : ∀ props, obj.get "properties" = some (.object props) →
        ∀ schema, obj.get "additionalProperties" = some schema → SpliceSafe schema)
      (hextraBar : ∀ props, obj.get "properties" = some (.object props) →
        ∀ schema, obj.get "additionalProperties" = some schema → ¬ BareBar schema) : SpliceSafe v

/-! ### What is spliced where -/

section Kinds

variable {v : Value} {obj : Object}

theorem SpliceSafe.of_anyOf {variants : List Value} (hk : kind v = .anyOf variants)
    (h : SpliceSafe v) : ∀ x ∈ variants, SpliceSafe x := by
  cases h with
  | leaf hleaf =>
    rw [hk] at hleaf
    exact hleaf.elim
  | anyOf hk' h =>
    cases hk.symm.trans hk'
    exact h
  | allOf hk' | array hk' => cases hk.symm.trans hk'
  | object ho => simp [objectOf, hk] at ho

theorem SpliceSafe.of_allOf {schema : Value} (hk : kind v = .allOf [schema]) (h : SpliceSafe v) :
    SpliceSafe schema := by
  cases h with
  | leaf hleaf =>
    rw [hk] at hleaf
    exact hleaf.elim
  | allOf hk' h =>
    cases hk.symm.trans hk'
    exact h
  | anyOf hk' | array hk' => cases hk.symm.trans hk'
  | object ho => simp [objectOf, hk] at ho

/-- The items of a list that may hold some are safe, and those of a list that may hold more
than one have no bare bar. -/
def ArraySafe (obj : Object) : Prop :=
  ∀ item, obj.get "items" = some item → maxItems obj ≠ some 0 →
    SpliceSafe item ∧ (BareBar item → minItems obj = 0 ∧ maxItems obj = some 1)

theorem SpliceSafe.of_array (hk : kind v = .array obj) (h : SpliceSafe v) : ArraySafe obj := by
  cases h with
  | leaf hleaf =>
    rw [hk] at hleaf
    exact hleaf.elim
  | array hk' h hbar =>
    cases hk.symm.trans hk'
    refine fun item hitem hmax => ⟨h item hitem hmax, fun hb => ?_⟩
    exact (hbar item hitem hb).resolve_left hmax
  | anyOf hk' | allOf hk' => cases hk.symm.trans hk'
  | object ho => simp [objectOf, hk] at ho

/-- What stands in members is safe and has no bare bar. -/
def ObjectSafe (obj : Object) : Prop :=
  ∀ props, obj.get "properties" = some (.object props) →
    (∀ p ∈ props, SpliceSafe p.2 ∧ ¬ BareBar p.2) ∧
    ∀ schema, obj.get "additionalProperties" = some schema → SpliceSafe schema ∧ ¬ BareBar schema

theorem SpliceSafe.of_object (ho : objectOf v = some obj) (h : SpliceSafe v) :
    ObjectSafe obj := by
  cases h with
  | leaf hleaf =>
    unfold objectOf at ho
    split at ho
    · rename_i hk
      rw [hk] at hleaf
      exact hleaf.elim
    · rename_i hk
      rw [hk] at hleaf
      exact hleaf.elim
    · cases ho
  | anyOf hk | allOf hk | array hk => simp [objectOf, hk] at ho
  | object ho' hprops hbar hextra hextraBar =>
    cases ho.symm.trans ho'
    intro props hget
    exact ⟨fun p hp => ⟨hprops props hget p hp, hbar props hget p hp⟩,
      fun schema hs => ⟨hextra props hget schema hs, hextraBar props hget schema hs⟩⟩

end Kinds

/-! ### Texts in two runs -/

/-- The texts of a schema in the two runs, the first of which inlines. -/
def SameText (g g' : Grammar) (v : Value) (e e' : String) : Prop :=
  SpliceSafe v → ∃ L, Denotes g e L ∧ Denotes g' e' L ∧
    (¬ BareBar v → isInlineExpr e = true → Stands g e L)

/-- The texts of a schema, or the names of rules for them. -/
def SameRule (g g' : Grammar) (v : Value) (r r' : String) : Prop :=
  SpliceSafe v → ∃ L, Denotes g r L ∧ Stands g' r' L ∧ (¬ BareBar v → Stands g r L)

section Two

variable {g g' : Grammar} {e e' : String} {v : Value}

/-- A text that stands in both grammars. -/
theorem SameText.of_stands {L : Language UInt8} (h : Stands g e L) (h' : Stands g' e' L) :
    SameText g g' v e e' := fun _ => ⟨L, h.denotes, h'.denotes, fun _ _ => h⟩

theorem parallel_inlineOrRule (e e' : String) :
    Parallel g g' (inlineOrRuleWith isInlineExpr e) (inlineOrRuleWith (fun _ => false) e')
      fun r r' => ∀ v, SameText g g' v e e' → SameRule g g' v r r' := by
  refine .of_answers (fun _ => answers_inlineOrRuleWith isInlineExpr e)
    (fun _ => answers_inlineOrRuleWith (fun _ => false) e') fun r r' hr hr' v he hsafe => ?_
  obtain ⟨L, hL, hL', hstands⟩ := he hsafe
  exact ⟨L, (hr L hL).1, (hr' L hL').2 nofun, fun hbar => (hr L hL).2 (hstands hbar)⟩

/-! ### Kinds without schemas inside -/

theorem parallel_ensureWsRule_bind {β β' : Type} {k : String → CompileM β}
    {l : String → CompileM β'} {R : β → β' → Prop}
    (hk : Parallel g g' (k "ws") (l "ws") fun b b' =>
      HasHelper g "ws" → HasHelper g' "ws" → R b b') :
    Parallel g g' (ensureWsRule >>= k) (ensureWsRule >>= l) R := by
  have hname : ∀ {γ : Type} (k : String → CompileM γ),
      ensureWsRule >>= k = ensureRule "ws" wsBody >>= fun _ => k "ws" := by
    intro γ k
    rw [ensureWsRule, bind_assoc]
    simp only [pure_bind, wsBody]
  rw [hname, hname]
  exact (parallel_ensureRule rfl).bind fun _ _ => hk.mono fun _ _ hR h => hR h.1 h.2

theorem parallel_anyJsonExpr : Parallel g g' anyJsonExpr anyJsonExpr
    fun e e' => Stands g e anyLang ∧ Stands g' e' anyLang := by
  refine (parallel_ensureRule rfl).bind fun _ _ => ?_
  refine (parallel_ensureRule rfl).bind fun _ _ => ?_
  refine (parallel_ensureRule rfl).bind fun _ _ => ?_
  refine parallel_pure fun hvalue hnumber hchar => ?_
  exact ⟨stands_jsonValue hchar.1 hnumber.1 hvalue.1, stands_jsonValue hchar.2 hnumber.2 hvalue.2⟩

theorem parallel_compileNumberType (obj : Object) : Parallel g g' (compileNumberType obj)
    (compileNumberType obj) (SameText g g' v) := by
  refine parallel_lift_bind fun _ _ => (parallel_ensureRule rfl).bind fun _ _ => ?_
  exact parallel_pure fun h => .of_stands (stands_number h.1) (stands_number h.2)

theorem parallel_compileIntegerType (obj : Object) : Parallel g g' (compileIntegerType obj)
    (compileIntegerType obj) (SameText g g' v) := by
  refine parallel_lift_bind fun _ _ => (parallel_ensureRule rfl).bind fun _ _ => ?_
  exact parallel_pure fun h => .of_stands (stands_integer h.1) (stands_integer h.2)

theorem parallel_compileStringType (obj : Object) : Parallel g g' (compileStringType obj)
    (compileStringType obj) (SameText g g' v) := by
  have hbounded : ∀ {g : Grammar} min max, HasHelper g "string-char" →
      Stands g ("\"\\\"\" " ++ boundedRepeat "string-char" min max ++ " \"\\\"\"")
        (lit ['"'] * repeatLang charLang min max * lit ['"']) := by
    intro g min max h
    have hchars := stands_boundedRepeat (stands_stringChar h) min max
    refine ((stands_quote.seq hchars).seq stands_quote).congr ?_
    simp only [Grammar.bytes_append, List.append_assoc]
    rfl
  unfold compileStringType
  split
  · split
    · exact parallel_throw
    · exact parallel_pure (.of_stands (stands_escaped _) (stands_escaped _))
  · refine (parallel_ensureRule rfl).bind fun _ _ => ?_
    have hbody : ∀ min max, Parallel g g'
        (pure ("\"\\\"\" " ++ boundedRepeat "string-char" min max ++ " \"\\\"\""))
        (pure ("\"\\\"\" " ++ boundedRepeat "string-char" min max ++ " \"\\\"\""))
        fun b b' => HasHelper g "string-char" ∧ HasHelper g' "string-char" →
          SameText g g' v b b' :=
      fun min max => parallel_pure fun h => .of_stands (hbounded min max h.1) (hbounded min max h.2)
    dsimp only
    split
    · split
      · split
        · exact (parallel_throw (R := fun _ _ => True)).bind fun _ _ =>
            (hbody _ _).mono fun _ _ h _ => h
        · exact hbody _ _
      · exact hbody _ _
    · exact parallel_pure fun h => .of_stands (stands_string h.1) (stands_string h.2)

/-- A text that does not depend on the grammar. -/
theorem sameText_enum {variants : List Value} (hk : kind v = .enum (.array variants))
    (he : compileEnum (.array variants) = .ok e) : SameText g g' v e e := by
  obtain ⟨_, heq, hne, hjoin⟩ := compileEnum_eq he
  cases heq
  intro _
  refine ⟨constTexts variants, hjoin ▸ denotes_join hne, hjoin ▸ denotes_join hne, ?_⟩
  intro hbar hinline
  match variants with
  | [] => exact absurd rfl hne
  | [c] =>
    have hone : constTexts [c] = {encode (constText c)} := by
      ext w
      show (∃ v ∈ [c], w = encode (constText v)) ↔ w = encode (constText c)
      simp only [List.mem_singleton, exists_eq_left]
    rw [hjoin, hone]
    exact stands_compileConst c
  | c :: c' :: variants =>
    -- a short enumeration of more than one constant has a bare bar
    refine absurd (BareBar.enum hk (by simp) fun e' he' => ?_) hbar
    obtain rfl := Except.ok.inj (he.symm.trans he')
    exact hinline

/-! ### Objects -/

section Compile

variable {compile compile' : Value → CompileM String}
  (hcompile : ∀ v, Parallel g g' (compile v) (compile' v) (SameText g g' v))

/-- The schema may stand in a member. -/
structure Spliceable (g g' : Grammar) (v : Value) : Prop where
  ws : HasHelper g "ws"
  ws' : HasHelper g' "ws"
  safe : SpliceSafe v
  bar : ¬ BareBar v

theorem SameRule.stands {r r' : String} (h : SameRule g g' v r r') (hv : Spliceable g g' v) :
    ∃ L, Stands g r L ∧ Stands g' r' L := by
  obtain ⟨L, -, hr', hr⟩ := h hv.safe
  exact ⟨L, hr hv.bar, hr'⟩

include hcompile

theorem parallel_requiredPart (p : String × Value) :
    Parallel g g' (requiredPartWith isInlineExpr compile "ws" p)
      (requiredPartWith (fun _ => false) compile' "ws" p) fun part part' =>
        Spliceable g g' p.2 → ∃ P, Stands g part P ∧ Stands g' part' P := by
  refine (hcompile p.2).bind fun e e' => (parallel_inlineOrRule e e').bind fun r r' => ?_
  refine parallel_pure fun hr he hv => ?_
  obtain ⟨L, hL, hL'⟩ := (hr p.2 he).stands hv
  exact ⟨_, stands_memberExpr hv.ws hL, stands_memberExpr hv.ws' hL'⟩

theorem parallel_optionalPart (p : String × Value) :
    Parallel g g' (optionalPartWith isInlineExpr compile "ws" p)
      (optionalPartWith (fun _ => false) compile' "ws" p) fun part part' =>
        Spliceable g g' p.2 → ∃ P, Stands g part P ∧ Stands g' part' P := by
  refine (hcompile p.2).bind fun e e' => (parallel_inlineOrRule e e').bind fun r r' => ?_
  refine parallel_newRule fun name name' => parallel_pure fun hname hr he hv => ?_
  obtain ⟨L, hL, hL'⟩ := (hr p.2 he).stands hv
  obtain ⟨hrule, hrule'⟩ := hname _ (stands_memberExpr hv.ws hL).denotes
    (stands_memberExpr hv.ws' hL').denotes
  exact ⟨_, hrule.denotes.opt, hrule'.denotes.opt⟩

theorem parallel_extraPairRule (obj : Object) :
    Parallel g g' (extraPairRuleWith isInlineExpr compile "ws" obj)
      (extraPairRuleWith (fun _ => false) compile' "ws" obj) fun extra extra' =>
        (∀ schema, obj.get "additionalProperties" = some schema → Spliceable g g' schema) →
          ∃ X, ExtraStands g extra X ∧ ExtraStands g' extra' X := by
  -- what is done with the text of the values
  have hrest : ∀ v e e', Parallel g g'
      (do
        ensureStringCharRule
        let valRule ← inlineOrRuleWith isInlineExpr e
        let name ← nextRuleName
        let name ← addRule name
          ("\"\\\"\" string-char* \"\\\"\" " ++ "ws" ++ " \":\" " ++ "ws" ++ " " ++ valRule)
        return some name)
      (do
        ensureStringCharRule
        let valRule ← inlineOrRuleWith (fun _ => false) e'
        let name ← nextRuleName
        let name ← addRule name
          ("\"\\\"\" string-char* \"\\\"\" " ++ "ws" ++ " \":\" " ++ "ws" ++ " " ++ valRule)
        return some name)
      fun extra extra' => SameText g g' v e e' → Spliceable g g' v →
        ∃ X, ExtraStands g extra X ∧ ExtraStands g' extra' X := by
    intro v e e'
    refine (parallel_ensureRule rfl).bind fun _ _ => ?_
    refine (parallel_inlineOrRule e e').bind fun r r' => ?_
    refine parallel_newRule fun name name' => parallel_pure fun hname hr hchar he hv => ?_
    obtain ⟨L, hL, hL'⟩ := (hr v he).stands hv
    obtain ⟨hrule, hrule'⟩ := hname _ (stands_anyMember hv.ws hchar.1 hL).denotes
      (stands_anyMember hv.ws' hchar.2 hL').denotes
    exact ⟨_, .some hrule, .some hrule'⟩
  unfold extraPairRuleWith
  split
  · exact parallel_pure fun _ => ⟨none, .none, .none⟩
  · exact parallel_pure fun _ => ⟨none, .none, .none⟩
  · rename_i hget
    refine parallel_anyJsonExpr.bind fun e e' => (hrest (.bool true) e e').mono ?_
    exact fun extra extra' hX hany hv => hX (.of_stands hany.1 hany.2) (hv _ hget)
  · rename_i schema _ _ hget
    refine (hcompile schema).bind fun e e' => (hrest schema e e').mono ?_
    exact fun extra extra' hX he hv => hX he (hv schema hget)

omit hcompile in
/-- Any object: empty, or with members that are not constrained. -/
theorem denotes_anyObject {g : Grammar} (hws : HasHelper g "ws") (hchar : HasHelper g "string-char")
    (hany : Stands g "json-value" anyLang) (hpair : HasHelper g "json-pair") :
    Denotes g ("\"\x7b\" " ++ "ws" ++ " \"\x7d\" | \"\x7b\" " ++ "ws" ++ " json-pair (" ++ "ws" ++
        " \",\" " ++ "ws" ++ " json-pair)* " ++ "ws" ++ " \"\x7d\"")
      (objectLang [] none + objectLang [anyMemberLang anyLang] (some (anyMemberLang anyLang))) := by
  have hmember : Stands g "json-pair" (anyMemberLang anyLang) :=
    stands_helper hpair rfl ((stands_anyMember hws hchar hany).congr rfl).denotes
  have hempty := (stands_objectBody hws .nil .none).denotes
  have hmembers := (stands_objectBody hws (.cons hmember .nil) (.some hmember)).denotes
  exact (hempty.alt hmembers).congr rfl

theorem parallel_compileObjectType (obj : Object) :
    Parallel g g' (compileObjectTypeWith isInlineExpr compile obj)
      (compileObjectTypeWith (fun _ => false) compile' obj) fun e e' => ObjectSafe obj →
        ∃ L, Denotes g e L ∧ Denotes g' e' L ∧ (obj.get "properties" ≠ none → Stands g e L) := by
  unfold compileObjectTypeWith
  refine parallel_ensureWsRule_bind ?_
  split
  · rename_i props hprops
    refine parallel_lift_bind fun required _ => ?_
    refine (parallel_mapM fun p _ => parallel_requiredPart hcompile p).bind fun parts parts' => ?_
    refine (parallel_mapM fun p _ => parallel_optionalPart hcompile p).bind fun opts opts' => ?_
    refine (parallel_extraPairRule hcompile obj).bind fun extra extra' => ?_
    refine parallel_pure fun hextra hopts hparts hws hws' hsafe => ?_
    obtain ⟨hmembers, hmore⟩ := hsafe props hprops
    -- whatever is left of the properties is spliceable
    have hall : ∀ keep : String × Value → Bool, ∀ p ∈ sortByKey (props.filter keep),
        Spliceable g g' p.2 := by
      intro keep p hp
      have hp := hmembers p (List.mem_of_mem_filter (mem_sortByKey.mp hp))
      exact ⟨hws, hws', hp.1, hp.2⟩
    obtain ⟨Ps, -, hPs, hPs'⟩ := hparts (hall _)
    obtain ⟨Qs, -, hQs, hQs'⟩ := hopts (hall _)
    obtain ⟨X, hX, hX'⟩ := hextra fun schema hget =>
      ⟨hws, hws', (hmore schema hget).1, (hmore schema hget).2⟩
    have hbody := stands_objectBody hws (List.rel_append hPs hQs) hX
    have hbody' := stands_objectBody hws' (List.rel_append hPs' hQs') hX'
    exact ⟨_, hbody.denotes, hbody'.denotes, fun _ => hbody⟩
  · exact parallel_throw
  · rename_i hprops
    refine (parallel_ensureRule rfl).bind fun _ _ => ?_
    unfold anyJsonExpr
    simp only [bind_assoc, pure_bind]
    refine (parallel_ensureRule rfl).bind fun _ _ => ?_
    refine (parallel_ensureRule rfl).bind fun _ _ => ?_
    refine (parallel_ensureRule rfl).bind fun _ _ => ?_
    refine (parallel_ensureRule rfl).bind fun _ _ => ?_
    refine parallel_pure fun hpair hvalue hnumber hchar _ hws hws' _ => ?_
    have hany := stands_jsonValue hchar.1 hnumber.1 hvalue.1
    have hany' := stands_jsonValue hchar.2 hnumber.2 hvalue.2
    exact ⟨_, denotes_anyObject hws hchar.1 hany hpair.1,
      denotes_anyObject hws' hchar.2 hany' hpair.2, fun hsome => absurd hprops hsome⟩

/-! ### Arrays and combinators -/

omit hcompile in
theorem stands_brackets {g : Grammar} {list : String} {L : Language UInt8}
    (hws : HasHelper g "ws") (h : Stands g list L) :
    Stands g ("\"[\" " ++ "ws" ++ " " ++ list ++ " " ++ "ws" ++ " \"]\"")
      (lit ['['] * wsLang * L * (wsLang * lit [']'])) := by
  have hopen : Stands g "\"[\" ws" (lit ['['] * wsLang) :=
    ((stands_lit ['[']).seq (stands_ws hws)).congr rfl
  have hclose : Stands g "ws \"]\"" (wsLang * lit [']']) :=
    ((stands_ws hws).seq (stands_lit [']'])).congr rfl
  refine ((hopen.seq h).seq hclose).congr ?_
  simp only [Grammar.bytes_append, List.append_assoc]
  rfl

omit hcompile in
/-- The lists of two texts for the same items. -/
theorem sameList {item : Value} {r r' : String} {min : ℕ} {max : Option ℕ}
    (hr : SameRule g g' item r r') (hws : HasHelper g "ws") (hws' : HasHelper g' "ws")
    (hitem : max ≠ some 0 → SpliceSafe item ∧ (BareBar item → min = 0 ∧ max = some 1)) :
    ∃ L, Stands g (boundedList r "ws" min max) L ∧ Stands g' (boundedList r' "ws" min max) L := by
  by_cases hmax : max = some 0
  · subst hmax
    exact ⟨1, Grammar.stands_empty, Grammar.stands_empty⟩
  · obtain ⟨hsafe, hbar⟩ := hitem hmax
    obtain ⟨L, hL, hL', hstands⟩ := hr hsafe
    refine ⟨listLang L min max, ?_, stands_boundedList hws' hL' min max⟩
    by_cases hb : BareBar item
    · exact stands_shortList hL (.inr (hbar hb))
    · exact stands_boundedList hws (hstands hb) min max

theorem parallel_compileArrayType {obj : Object} (hk : kind v = .array obj) :
    Parallel g g' (compileArrayTypeWith isInlineExpr compile obj)
      (compileArrayTypeWith (fun _ => false) compile' obj) (SameText g g' v) := by
  -- brackets around the list of the items
  have hbody : ∀ item r r', (obj.get "items" = some item ∨ kind item = .any) →
      SameRule g g' item r r' → HasHelper g "ws" → HasHelper g' "ws" → SameText g g' v
        ("\"[\" " ++ "ws" ++ " " ++ boundedList r "ws" (minItems obj) (maxItems obj) ++ " " ++
          "ws" ++ " \"]\"")
        ("\"[\" " ++ "ws" ++ " " ++ boundedList r' "ws" (minItems obj) (maxItems obj) ++ " " ++
          "ws" ++ " \"]\"") := by
    intro item r r' hitem hr hws hws' hsafe
    have hlist : maxItems obj ≠ some 0 →
        SpliceSafe item ∧ (BareBar item → minItems obj = 0 ∧ maxItems obj = some 1) := by
      intro hmax
      rcases hitem with hget | hany
      · exact hsafe.of_array hk item hget hmax
      · have hleaf : (kind item).IsLeaf := by
          rw [hany]
          trivial
        refine ⟨.leaf hleaf, fun hbar => ?_⟩
        cases hbar with
        | boolean hk' | enum hk' | object hk' | allOf hk' => cases hany.symm.trans hk'
    obtain ⟨L, hL, hL'⟩ := sameList hr hws hws' hlist
    exact ⟨_, (stands_brackets hws hL).denotes, (stands_brackets hws' hL').denotes,
      fun _ _ => stands_brackets hws hL⟩
  unfold compileArrayTypeWith
  refine parallel_ensureWsRule_bind ?_
  dsimp only
  -- the text of the items, of which there may be any
  have hitems : ∀ item, obj.get "items" = some item → Parallel g g' (compile item) (compile' item)
      fun e e' => ∃ item, (obj.get "items" = some item ∨ kind item = .any) ∧
        SameText g g' item e e' :=
    fun item hget => (hcompile item).mono fun e e' he => ⟨item, .inl hget, he⟩
  have hany : Parallel g g' anyJsonExpr anyJsonExpr fun e e' => ∃ item,
      (obj.get "items" = some item ∨ kind item = .any) ∧ SameText g g' item e e' :=
    parallel_anyJsonExpr.mono fun e e' he => ⟨.bool true, .inr rfl, .of_stands he.1 he.2⟩
  split
  on_goal 1 => refine (hitems _ (by assumption)).bind fun e e' => ?_
  on_goal 2 => refine hany.bind fun e e' => ?_
  all_goals
    refine (parallel_inlineOrRule e e').bind fun r r' => ?_
    split
    · split
      · exact (parallel_throw (R := fun _ _ => False)).bind fun _ _ =>
          parallel_pure fun h => h.elim
      · refine parallel_pure fun hr hitem hws hws' => ?_
        obtain ⟨item, hget, he⟩ := hitem
        exact hbody item r r' hget (hr item he) hws hws'
    · refine parallel_pure fun hr hitem hws hws' => ?_
      obtain ⟨item, hget, he⟩ := hitem
      exact hbody item r r' hget (hr item he) hws hws'

omit hcompile in
/-- Alternatives. -/
theorem denotes_joinAlts {g : Grammar} {alts : List String} {Ls : List (Language UInt8)}
    (h : List.Forall₂ (Denotes g) alts Ls) (hne : alts ≠ []) :
    Denotes g (join " | " alts) Ls.sum := by
  induction h with
  | nil => exact absurd rfl hne
  | @cons e L alts Ls he hes ih =>
    rw [List.sum_cons]
    cases hes with
    | nil =>
      rw [List.sum_nil, add_zero]
      exact he
    | cons => exact he.alt (ih (List.cons_ne_nil _ _))

theorem parallel_compileAnyOf {variants : List Value} (hk : kind v = .anyOf variants) :
    Parallel g g' (compileAnyOfWith isInlineExpr compile variants)
      (compileAnyOfWith (fun _ => false) compile' variants) (SameText g g' v) := by
  have halts : Parallel g g'
      (variants.mapM fun x => do inlineOrRuleWith isInlineExpr (← compile x))
      (variants.mapM fun x => do inlineOrRuleWith (fun _ => false) (← compile' x))
      fun alts alts' => (∀ x ∈ variants, SpliceSafe x) →
        ∃ Ls, Ls.length = variants.length ∧
          List.Forall₂ (Denotes g) alts Ls ∧ List.Forall₂ (Denotes g') alts' Ls := by
    refine parallel_mapM fun x _ => (hcompile x).bind fun e e' => ?_
    refine (parallel_inlineOrRule e e').mono fun r r' hr he hsafe => ?_
    obtain ⟨L, hL, hL', -⟩ := hr x he hsafe
    exact ⟨L, hL, hL'.denotes⟩
  unfold compileAnyOfWith
  split
  · exact (parallel_throw (R := fun _ _ => False)).bind fun _ _ => halts.bind fun alts alts' =>
      parallel_pure fun _ h => h.elim
  · rename_i hne
    refine halts.bind fun alts alts' => parallel_pure fun hLs hsafe => ?_
    obtain ⟨Ls, hlen, hLs, hLs'⟩ := hLs (hsafe.of_anyOf hk)
    -- there are as many alternatives as variants
    have hpos : 0 < Ls.length := by
      rw [hlen, List.length_pos_iff]
      simpa using hne
    have halts : alts ≠ [] := List.length_pos_iff.mp (hLs.length_eq ▸ hpos)
    have halts' : alts' ≠ [] := List.length_pos_iff.mp (hLs'.length_eq ▸ hpos)
    have hgroup := (denotes_joinAlts hLs halts).group
    exact ⟨_, hgroup.denotes, (denotes_joinAlts hLs' halts').group.denotes, fun _ _ => hgroup⟩

theorem parallel_compileAllOf {schemas : List Value} (hk : kind v = .allOf schemas) :
    Parallel g g' (compileAllOfWith isInlineExpr compile schemas)
      (compileAllOfWith (fun _ => false) compile' schemas) (SameText g g' v) := by
  match schemas, hk with
  | [], _ => exact parallel_throw
  | [schema], hk =>
    refine (hcompile schema).mono fun e e' he hsafe => ?_
    obtain ⟨L, hL, hL', hstands⟩ := he (hsafe.of_allOf hk)
    exact ⟨L, hL, hL', fun hbar => hstands fun hb => hbar (.allOf hk hb)⟩
  | s :: s' :: schemas, hk =>
    refine parallel_lift_bind fun merged hmerged => ?_
    obtain ⟨props, required⟩ := merged
    refine (parallel_compileObjectType hcompile _).mono fun e e' he hsafe => ?_
    have ho : objectOf v = some (mergedObject props required) := by
      unfold objectOf
      rw [hk]
      dsimp only
      rw [hmerged]
    obtain ⟨L, hL, hL', hstands⟩ := he (hsafe.of_object ho)
    exact ⟨L, hL, hL', fun _ _ => hstands (by simp [mergedObject, Object.get])⟩

theorem parallel_compileKind :
    Parallel g g' (compileKindWith isInlineExpr compile (kind v))
      (compileKindWith (fun _ => false) compile' (kind v)) (SameText g g' v) := by
  cases hk : kind v with
  | any => exact parallel_anyJsonExpr.mono fun e e' h => .of_stands h.1 h.2
  | never =>
    exact parallel_pure (.of_stands (stands_lit "__never__".toList) (stands_lit "__never__".toList))
  | invalid e => exact parallel_throw
  | const c => exact parallel_pure (.of_stands (stands_compileConst c) (stands_compileConst c))
  | enum c =>
    refine parallel_lift fun e he => ?_
    obtain ⟨variants, rfl, -, -⟩ := compileEnum_eq he
    exact sameText_enum hk he
  | anyOf variants => exact parallel_compileAnyOf hcompile hk
  | allOf schemas => exact parallel_compileAllOf hcompile hk
  | string obj => exact parallel_compileStringType obj
  | number obj => exact parallel_compileNumberType obj
  | integer obj => exact parallel_compileIntegerType obj
  | boolean =>
    refine parallel_pure fun _ => ⟨lit "true".toList + lit "false".toList, ?_, ?_, fun hbar => ?_⟩
    · exact ((stands_lit "true".toList).denotes.alt (stands_lit "false".toList).denotes).congr rfl
    · exact ((stands_lit "true".toList).denotes.alt (stands_lit "false".toList).denotes).congr rfl
    · exact absurd (.boolean hk) hbar
  | null => exact parallel_pure (.of_stands (stands_lit "null".toList) (stands_lit "null".toList))
  | object obj =>
    refine (parallel_compileObjectType hcompile obj).mono fun e e' he hsafe => ?_
    have ho : objectOf v = some obj := by
      unfold objectOf
      rw [hk]
    obtain ⟨L, hL, hL', hstands⟩ := he (hsafe.of_object ho)
    exact ⟨L, hL, hL', fun hbar _ => hstands fun hnone => hbar (.object hk hnone)⟩
  | array obj => exact parallel_compileArrayType hcompile hk

end Compile

/-- **Whether texts are inlined or not, the compilations agree**, and the texts of a safe
schema have one language. -/
theorem parallel_compileSchema (n : ℕ) (v : Value) :
    Parallel g g' (compileSchema n v) (compileSchemaWith (fun _ => false) n v)
      (SameText g g' v) := by
  rw [← compileSchemaWith_isInlineExpr]
  induction n generalizing v with
  | zero => exact parallel_throw
  | succ n ih => exact parallel_compileKind ih

end Two

/-! ### Languages -/

/-- `compile_schema` would fail just the same if nothing were inlined; and the grammar it
emits generates the same. -/
def InliningPreserves (schema : Value) : Prop :=
  match compileValueToGbnf schema, compileValueToGbnfWith (fun _ => false) schema with
  | .error e, .error e' => e = e'
  | .ok text, .ok text' => ∃ g g', Grammar.parse text = .ok g ∧ Grammar.parse text' = .ok g' ∧
      ∀ w, Generates g (.ruleRef g.root) w ↔ Generates g' (.ruleRef g'.root) w
  | _, _ => False

theorem compileValueToGbnfWith_eq (inline : String → Bool) (schema : Value) :
    compileValueToGbnfWith inline schema =
      (compileSchemaWith inline (schema.depth + 1) schema ⟨[], 0⟩).map fun r =>
        buildGbnf (("root", r.1) :: r.2.rules) := by
  show ((compileSchemaWith inline (schema.depth + 1) schema ⟨[], 0⟩ >>= _ :
    GrammarResult _) >>= _) = _
  cases compileSchemaWith inline (schema.depth + 1) schema ⟨[], 0⟩ with
  | error e => rfl
  | ok r => rfl

/-- The grammars of two compilations that succeed. -/
theorem sameLanguage {schema : Value} {text text' : String}
    (htext : compileValueToGbnf schema = .ok text)
    (htext' : compileValueToGbnfWith (fun _ => false) schema = .ok text')
    (hsafe : SpliceSafe schema) :
    ∃ g g', Grammar.parse text = .ok g ∧ Grammar.parse text' = .ok g' ∧
      ∀ w, Generates g (.ruleRef g.root) w ↔ Generates g' (.ruleRef g'.root) w := by
  obtain ⟨g, body, d, hparse, hroot, hrun, hdefines⟩ := parse_of_compileValueToGbnf htext
  obtain ⟨g', body', d', hparse', hroot', hrun', hdefines'⟩ :=
    parse_of_compileValueToGbnfWith htext'
  refine ⟨g, g', hparse, hparse', fun w => ?_⟩
  have hagree := @parallel_compileSchema g g' (schema.depth + 1) schema ⟨[], 0⟩ ⟨[], 0⟩
  rw [hrun, hrun'] at hagree
  cases hagree with
  | ok hhelpers hhelpers' hback =>
    have hrespects : Respects g d.rules :=
      ⟨hdefines.subset (List.subset_cons_self _ _), hhelpers nofun⟩
    have hrespects' : Respects g' d'.rules :=
      ⟨hdefines'.subset (List.subset_cons_self _ _), hhelpers' nofun⟩
    obtain ⟨-, -, hsame⟩ := hback hrespects hrespects'
    obtain ⟨L, hL, hL', -⟩ := hsame hsafe
    rw [hroot, hroot', Grammar.generates_ruleRef_iff (hdefines _ List.mem_cons_self) hL,
      Grammar.generates_ruleRef_iff (hdefines' _ List.mem_cons_self) hL']

/-- **Inlining does not change the language** of a schema that is compiled without a bare bar
next to other texts. -/
theorem inlining_preserves (schema : Value)
    (h : ∀ text, compileValueToGbnf schema = .ok text → SpliceSafe schema) :
    InliningPreserves schema := by
  have htext := compileValueToGbnf_eq schema
  have htext' := compileValueToGbnfWith_eq (fun _ => false) schema
  -- whether the compilations succeed does not depend on a grammar
  have hagree := @parallel_compileSchema ⟨∅, "root", ""⟩ ⟨∅, "root", ""⟩ (schema.depth + 1) schema
    ⟨[], 0⟩ ⟨[], 0⟩
  unfold InliningPreserves
  generalize compileSchema (schema.depth + 1) schema ⟨[], 0⟩ = x,
    compileSchemaWith (fun _ => false) (schema.depth + 1) schema ⟨[], 0⟩ = x'
    at htext htext' hagree
  cases hagree with
  | error e =>
    rw [htext, htext']
    rfl
  | @ok body body' d d' hc hc' hback =>
    have hsame := sameLanguage htext htext' (h _ htext)
    rw [htext, htext']
    exact hsame

/-- A choice of a boolean, which stands in parentheses. -/
def booleanChoice : Value := .object [("anyOf", .array [.object [("type", .string "boolean")]])]

theorem inlining_preserves_booleanChoice : InliningPreserves booleanChoice := by
  refine inlining_preserves booleanChoice fun _ _ => .anyOf rfl fun x hx => ?_
  obtain rfl := List.mem_singleton.mp hx
  exact .leaf trivial

/-- A list of one boolean. -/
def oneBoolean : Value :=
  .object [("type", .string "array"), ("items", .object [("type", .string "boolean")]),
    ("minItems", .number (.posInt 1)), ("maxItems", .number (.posInt 1))]

/-- Its text, the only rule besides which is the one for whitespace. -/
theorem compileSchema_oneBoolean : compileSchema (oneBoolean.depth + 1) oneBoolean ⟨[], 0⟩ =
    .ok ("\"[\" ws \"true\" | \"false\" ws \"]\"", ⟨[("ws", wsBody)], 0⟩) := by rfl

/-- Its text with a rule for the items. -/
theorem compileSchemaWith_oneBoolean :
    compileSchemaWith (fun _ => false) (oneBoolean.depth + 1) oneBoolean ⟨[], 0⟩ =
      .ok ("\"[\" ws rule-0 ws \"]\"",
        ⟨[("ws", wsBody), ("rule-0", "\"true\" | \"false\"")], 1⟩) := by rfl

theorem hasHelper_ws {g : Grammar} {rules : List (String × String)} (h : Defines g rules)
    (hmem : ("ws", wsBody) ∈ rules) : HasHelper g "ws" := by
  intro body hbody ts hts
  obtain rfl : wsBody = body := Option.some.inj hbody
  exact h _ hmem ts hts

/-- The bar of the items divides the brackets: `[true` is generated. -/
theorem not_inliningPreserves_oneBoolean : ¬ ∀ schema, InliningPreserves schema := by
  intro hall
  have h := hall oneBoolean
  have htext := compileValueToGbnf_eq oneBoolean
  have htext' := compileValueToGbnfWith_eq (fun _ => false) oneBoolean
  rw [compileSchema_oneBoolean] at htext
  rw [compileSchemaWith_oneBoolean] at htext'
  unfold InliningPreserves at h
  rw [htext, htext'] at h
  obtain ⟨g, g', hparse, hparse', hiff⟩ := h
  obtain ⟨g₁, body, c, hg₁, hroot, hrun, hdefines⟩ := parse_of_compileValueToGbnf htext
  obtain ⟨g₂, body', c', hg₂, hroot', hrun', hdefines'⟩ := parse_of_compileValueToGbnfWith htext'
  cases hg₁.symm.trans hparse
  cases hg₂.symm.trans hparse'
  cases compileSchema_oneBoolean.symm.trans hrun
  cases compileSchemaWith_oneBoolean.symm.trans hrun'
  have hws := hasHelper_ws (hdefines.subset (List.subset_cons_self _ _)) List.mem_cons_self
  have hws' := hasHelper_ws (hdefines'.subset (List.subset_cons_self _ _)) List.mem_cons_self
  have hopen : Stands g "\"[\" ws" (lit ['['] * wsLang) :=
    ((stands_lit ['[']).seq (stands_ws hws)).congr rfl
  have hclose : Stands g "\"false\" ws \"]\"" (lit "false".toList * wsLang * lit [']']) :=
    (((stands_lit "false".toList).seq (stands_ws hws)).seq (stands_lit [']'])).congr rfl
  have hinlined : Denotes g "\"[\" ws \"true\" | \"false\" ws \"]\""
      (lit ['['] * wsLang * lit "true".toList + lit "false".toList * wsLang * lit [']']) :=
    ((hopen.seq (stands_lit "true".toList)).denotes.alt hclose.denotes).congr rfl
  have hitems : Denotes g' "\"true\" | \"false\"" (lit "true".toList + lit "false".toList) :=
    ((stands_lit "true".toList).denotes.alt (stands_lit "false".toList).denotes).congr rfl
  have hrule : Stands g' "rule-0" (lit "true".toList + lit "false".toList) :=
    Grammar.stands_ref (isIdent_ruleName 0) (hdefines' ("rule-0", _) (by simp)) hitems
  have hrules := (((((stands_lit ['[']).seq (stands_ws hws')).seq hrule).seq
    (stands_ws hws')).seq (stands_lit [']'])).denotes
  rw [hroot, hroot'] at hiff
  have hleft := Grammar.generates_ruleRef_iff (hdefines _ List.mem_cons_self) hinlined
  have hright := Grammar.generates_ruleRef_iff (hdefines' _ List.mem_cons_self) hrules
  -- the first alternative, without whitespace
  have hnil : [] ∈ wsLang := Language.nil_mem_kstar _
  have hmem : encode ['['] ++ [] ++ encode "true".toList ∈
      lit ['['] * wsLang * lit "true".toList + lit "false".toList * wsLang * lit [']'] :=
    .inl (Language.append_mem_mul (Language.append_mem_mul rfl hnil) rfl)
  -- with a rule of its own for the items, every sentence ends with a bracket
  have hmem' := (hright _).mp ((hiff _).mp ((hleft _).mpr hmem))
  obtain ⟨u, -, _, rfl, heq⟩ := Language.mem_mul.mp hmem'
  have hbracket : (encode [']']).getLast? = some 0x5d := rfl
  have hlast := congrArg List.getLast? heq
  rw [List.getLast?_append, hbracket, Option.some_or] at hlast
  exact absurd hlast (by decide)

end Schema

end Oxillama
