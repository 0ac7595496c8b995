/-
Good schemas generate JSON texts only.

* `Yields g f Q` — where the grammar `g` defines the rules that `f` leaves, it defines
  those that `f` found, and `Q` holds of what `f` answers;
* `reads_…` — what the texts of constants, lists and objects generate;
* `yields_compileSchema` — the text of a good schema generates sentences of it only.
-/
import Mathlib
import Oxillama.Lib.JsonLanguage
import Oxillama.Schema.Good
import Oxillama.Schema.Parsed

namespace Oxillama

namespace Schema

open scoped Computability
open Grammar (Covers Means Spelled alts altNode literalChar bytes)

/-- The texts that a grammar may generate for the schema. -/
def sentences (v : Value) : Language Char :=
  {t | Json.IsText t ∧
    ∀ key, Carries key v → ∃ keys, Json.Object keys t ∧ Json.units key ∈ keys}

/-- The text `e` of a schema generates its sentences only, also where it is inlined. -/
structure Reads (g : Grammar) (v : Value) (e : String) : Prop where
  covers : Covers g e (sentences v)
  means : ¬ Alternates v → isInlineExpr e = true → Means g e (sentences v)

/-- The grammar defines the rules, and whitespace as it should be. -/
structure Fits (g : Grammar) (rules : List (String × String)) : Prop where
  defines : Defines g rules
  ws : ∀ r ∈ rules, r.1 = "ws" → r.2 = wsBody

/-- Where `g` fits the rules that `f` leaves, it fits those that `f` finds, and what `f`
answers satisfies `Q`. -/
def Yields {α : Type} (g : Grammar) (f : CompileM α) (Q : α → Prop) : Prop :=
  ∀ ⦃c a c'⦄, f c = .ok (a, c') → Fits g c'.rules → Fits g c.rules ∧ Q a

theorem Fits.subset {g : Grammar} {rules rules' : List (String × String)} (h : Fits g rules')
    (hsub : rules ⊆ rules') : Fits g rules :=
  ⟨h.defines.subset hsub, fun r hr => h.ws r (hsub hr)⟩

section Yielding

variable {α β : Type} {g : Grammar} {f : CompileM α} {k : α → CompileM β} {Q : α → Prop}
  {Q' : β → Prop}

theorem yields_pure {a : α} (h : Q a) : Yields g (pure a) Q := by
  rintro c _ _ ⟨⟩ hfits
  exact ⟨hfits, h⟩

theorem yields_throw {e : Grammar.GrammarError} : Yields g (throw e) Q := by
  rintro c _ _ ⟨⟩

theorem Keeps.yields {S : α → Prop} (h : Keeps f S) : Yields g f S := by
  intro c a c' hrun hfits
  obtain ⟨hsub, -, ha⟩ := h hrun
  exact ⟨hfits.subset hsub, ha⟩

/-- The rest is shown to yield what follows from what the first part does. -/
theorem Yields.bind (hf : Yields g f Q) (hk : ∀ a, Yields g (k a) fun b => Q a → Q' b) :
    Yields g (f >>= k) Q' := by
  intro c b c' h hfits
  obtain ⟨a, c₁, h₁, h₂⟩ := ok_bind h
  obtain ⟨hfits₁, hb⟩ := hk a h₂ hfits
  obtain ⟨hfits₀, ha⟩ := hf h₁ hfits₁
  exact ⟨hfits₀, hb ha⟩

/-- The same, with what is known of the first answer in any case. -/
theorem Yields.bind_keeps {S : α → Prop} (hS : Keeps f S) (hf : Yields g f Q)
    (hk : ∀ a, S a → Yields g (k a) fun b => Q a → Q' b) : Yields g (f >>= k) Q' := by
  intro c b c' h hfits
  obtain ⟨a, c₁, h₁, h₂⟩ := ok_bind h
  obtain ⟨-, -, hS⟩ := hS h₁
  obtain ⟨hfits₁, hb⟩ := hk a hS h₂ hfits
  obtain ⟨hfits₀, ha⟩ := hf h₁ hfits₁
  exact ⟨hfits₀, hb ha⟩

theorem Yields.mono {Q₁ : α → Prop} (h : Yields g f Q) (hle : ∀ a, Q a → Q₁ a) :
    Yields g f Q₁ := by
  intro c a c' hrun hfits
  obtain ⟨hfits₀, ha⟩ := h hrun hfits
  exact ⟨hfits₀, hle a ha⟩

theorem yields_lift {x : Grammar.GrammarResult α} (h : ∀ a, x = .ok a → Q a) :
    Yields g (liftM x : CompileM α) Q := (keeps_lift h).yields

theorem yields_mapM {γ : Type} {f : γ → CompileM α} {R : γ → α → Prop} {xs : List γ}
    (h : ∀ x ∈ xs, Yields g (f x) (R x)) : Yields g (xs.mapM f) (List.Forall₂ R xs) := by
  induction xs with
  | nil => exact yields_pure .nil
  | cons x xs ih =>
    rw [List.mapM_cons]
    refine (h x List.mem_cons_self).bind fun a => ?_
    refine (ih fun y hy => h y (List.mem_cons_of_mem x hy)).bind fun as => ?_
    exact yields_pure fun has ha => .cons ha has

/-- A generated rule means what its body generates. -/
theorem yields_newRule {body : String} {k : String → CompileM β}
    (hk : ∀ name, Yields g (k name) fun b => (∀ L, Covers g body L → Means g name L) → Q' b) :
    Yields g (do let name ← nextRuleName; let name ← addRule name body; k name) Q' := by
  intro c b c' h hfits
  obtain ⟨hfits₁, hb⟩ := hk (ruleName c.counter) h hfits
  refine ⟨hfits₁.subset (List.subset_append_left _ _), hb ?_⟩
  rintro L ⟨ts, hts, hL⟩
  have hmem : (ruleName c.counter, body) ∈ c.rules ++ [(ruleName c.counter, body)] := by simp
  exact Grammar.means_ref (isIdent_ruleName _) (hfits₁.defines _ hmem ts hts) hL

/-- The text of a schema, or the name of a rule for it. -/
theorem yields_inlineOrRule (e : String) : Yields g (inlineOrRule e) fun r =>
    ∀ v, Reads g v e → Covers g r (sentences v) ∧ (¬ Alternates v → Means g r (sentences v)) := by
  unfold inlineOrRule
  split
  · rename_i hinline
    exact yields_pure fun v h => ⟨h.covers, fun halt => h.means halt hinline⟩
  · refine yields_newRule fun name => yields_pure fun hname v h => ?_
    exact ⟨(hname _ h.covers).covers, fun _ => hname _ h.covers⟩

/-- The class of whitespace takes the bytes of whitespace. -/
private theorem encode_wsClass {b : UInt8}
    (h : Grammar.classMatches [.single 0x20, .single 0x09, .single 0x0a, .single 0x0d] false b) :
    ∃ c, Json.isWs c = true ∧ [b] = encode [c] := by
  simp only [Grammar.classMatches, Grammar.CharRange.contains, Grammar.CharRange.single,
    List.any_cons, List.any_nil, Bool.false_eq_true, if_false, Bool.or_eq_true,
    Bool.and_eq_true, decide_eq_true_eq, or_false] at h
  rcases h with ⟨hl, hu⟩ | ⟨hl, hu⟩ | ⟨hl, hu⟩ | ⟨hl, hu⟩
  · obtain rfl := UInt8.le_antisymm hu hl
    exact ⟨' ', rfl, rfl⟩
  · obtain rfl := UInt8.le_antisymm hu hl
    exact ⟨'\t', rfl, rfl⟩
  · obtain rfl := UInt8.le_antisymm hu hl
    exact ⟨'\n', rfl, rfl⟩
  · obtain rfl := UInt8.le_antisymm hu hl
    exact ⟨'\r', rfl, rfl⟩

theorem means_wsBody : Means g wsBody Json.ws := by
  refine ⟨_, Grammar.spelled_item (Grammar.readsAtom_wsClass.quantified 0x2a 0 none (by simp)),
    rfl, fun w hlang => ?_⟩
  cases Grammar.lang_item.mp hlang with
  | @«repeat» _ _ _ ws hmin hmax h =>
    clear hlang hmin hmax
    induction ws with
    | nil => exact ⟨[], Json.ws_nil, rfl⟩
    | cons w ws ih =>
      obtain ⟨t, ht, heq⟩ := ih fun x hx => h x (List.mem_cons_of_mem w hx)
      obtain ⟨c, hc, rfl⟩ : ∃ c, Json.isWs c = true ∧ w = encode [c] := by
        cases h w List.mem_cons_self with
        | charClass hmatch => exact encode_wsClass hmatch
      refine ⟨c :: t, List.forall_mem_cons.mpr ⟨hc, ht⟩, ?_⟩
      rw [List.flatten_cons, heq, ← encode_append]
      rfl

/-- The rule for whitespace. -/
theorem yields_ensureWsRule : Yields g ensureWsRule fun name =>
    name = "ws" ∧ Means g "ws" Json.ws := by
  intro c name c' h hfits
  obtain ⟨_, c₁, h₁, h₂⟩ := ok_bind h
  cases h₂
  obtain ⟨hsub, hmem⟩ : c.rules ⊆ c'.rules ∧ ∃ r ∈ c'.rules, r.1 = "ws" := by
    obtain ⟨_, _, hget, h⟩ := ok_bind h₁
    cases hget
    cases hhas : c.rules.any fun r => r.1 == "ws" with
    | true =>
      rw [hhas] at h
      cases h
      obtain ⟨r, hr, hname⟩ := List.any_eq_true.mp hhas
      exact ⟨List.Subset.refl _, r, hr, beq_iff_eq.mp hname⟩
    | false =>
      rw [hhas] at h
      cases h
      exact ⟨List.subset_append_left _ _, ("ws", wsBody), by simp [wsBody], rfl⟩
  refine ⟨hfits.subset hsub, rfl, ?_⟩
  obtain ⟨r, hr, hname⟩ := hmem
  obtain ⟨ts, hts, -, hws⟩ := means_wsBody (g := g)
  have hl := hfits.defines r hr ts (by rwa [hfits.ws r hr hname])
  rw [hname] at hl
  exact Grammar.means_ref (isIdent_helper _ (by decide)) hl hws

end Yielding

/-! ### Constants -/

section Constants

variable {g : Grammar} {v c : Value}

/-- The text of a constant: a string is not escaped. -/
def constText : Value → Text
  | .string s => '"' :: (s.toList ++ ['"'])
  | v => v.toText

theorem means_quote : Means g "\"\\\"\"" {['"']} := Grammar.means_literal ['"']

theorem means_escapeGbnfLiteral (s : String) :
    Means g ("\"" ++ escapeGbnfLiteral s ++ "\"") {s.toList} := Grammar.means_literal s.toList

theorem means_compileConst (c : Value) : Means g (compileConst c) {constText c} := by
  have hdisplay : ∀ v : Value, Means g ("\"" ++ escapeGbnfLiteral v.display ++ "\"")
      {v.toText} := by
    intro v
    have h := means_escapeGbnfLiteral (g := g) v.display
    rwa [Value.display, String.toList_ofList] at h
  cases c with
  | null => exact Grammar.means_literal "null".toList
  | bool b =>
    cases b with
    | true => exact Grammar.means_literal "true".toList
    | false => exact Grammar.means_literal "false".toList
  | number n =>
    have h := Grammar.means_literal (g := g) n.toText
    rwa [literal_number] at h
  | string s =>
    have h := (means_quote.seq (means_escapeGbnfLiteral (g := g) s)).seq means_quote
    refine (h.congr ?_).mono ?_
    · simp only [compileConst, Grammar.bytes_append, List.append_assoc]
      rfl
    · intro t ht
      obtain ⟨_, hu, _, rfl, rfl⟩ := Language.mem_mul.mp ht
      obtain ⟨_, rfl, _, rfl, rfl⟩ := Language.mem_mul.mp hu
      rfl
  | array items => exact hdisplay _
  | object members => exact hdisplay _

theorem value_constText (h : GoodConst c) : Json.Value (constText c) := by
  cases c with
  | string s =>
    obtain ⟨us, hus⟩ := h s rfl
    exact .string hus
  | null | bool | number | array | object => exact value_toText _

/-- A constant has the members that it has. -/
theorem object_constText (members : List (String × Value)) :
    Json.Object (members.map fun m => Json.units m.1.toList) (constText (.object members)) := by
  refine ⟨[], membersText members, [], Json.ws_nil, Json.ws_nil, ?_, rfl⟩
  rcases members_membersText members with h | rfl
  · exact .inl h
  · exact .inr ⟨rfl, Json.ws_nil⟩

/-- Where nothing is carried, texts are sentences. -/
theorem texts_le_sentences (h : ∀ key, ¬ Carries key v) : Json.texts ≤ sentences v :=
  fun _ ht => ⟨ht, fun key hkey => absurd hkey (h key)⟩

theorem reads_const (hk : kind v = .const c) (hc : GoodConst c) : Reads g v (compileConst c) := by
  have hmeans : Means g (compileConst c) (sentences v) := by
    refine (means_compileConst c).mono ?_
    rintro _ rfl
    refine ⟨Json.isText_of_value (value_constText hc), fun key hkey => ?_⟩
    have hkey := hkey.inv
    rw [hk] at hkey
    cases c with
    | object members =>
      obtain ⟨m, hm, rfl⟩ := hkey
      exact ⟨_, object_constText members, List.mem_map_of_mem hm⟩
    | null | bool | number | string | array => exact hkey.elim
  exact ⟨hmeans.covers, fun _ _ => hmeans⟩

/-- The alternatives of an enumeration. -/
theorem covers_enum {variants : List Value} (hne : variants ≠ [])
    (h : ∀ c ∈ variants, GoodConst c) :
    Covers g (join " | " (variants.map compileConst)) Json.texts := by
  induction variants with
  | nil => exact absurd rfl hne
  | cons c variants ih =>
    have hc : Covers g (compileConst c) Json.texts :=
      ((means_compileConst c).mono (Json.texts_of_value
        (value_constText (h c List.mem_cons_self)))).covers
    cases variants with
    | nil => exact hc
    | cons c' variants =>
      exact hc.alt (ih (List.cons_ne_nil _ _) fun x hx => h x (List.mem_cons_of_mem c hx))

theorem reads_enum {variants : List Value} {e : String} (hk : kind v = .enum (.array variants))
    (h : ∀ c ∈ variants, GoodConst c) (he : compileEnum (.array variants) = .ok e) :
    Reads g v e := by
  have hsentences : Json.texts ≤ sentences v := by
    refine texts_le_sentences fun key hkey => ?_
    have hkey := hkey.inv
    rwa [hk] at hkey
  obtain ⟨_, heq, hne, rfl⟩ := compileEnum_eq he
  cases heq
  refine ⟨(covers_enum hne h).mono hsentences, fun halt hinline => ?_⟩
  -- an inlined enumeration of more than one constant alternates
  match variants with
  | [] => exact absurd rfl hne
  | [c] =>
    have hc := value_constText (h c List.mem_cons_self)
    exact (means_compileConst c).mono ((Json.texts_of_value hc).trans hsentences)
  | c :: c' :: variants =>
    refine absurd (Alternates.enum hk (by simp) fun e' he' => ?_) halt
    rw [he] at he'
    cases he'
    exact hinline

end Constants

/-! ### Strings -/

section Strings

variable {g : Grammar} {v : Value} {obj : Object}

theorem sentences_of_string (hk : kind v = .string obj) : Json.texts ≤ sentences v := by
  refine texts_le_sentences fun key hkey => ?_
  have hkey := hkey.inv
  rwa [hk] at hkey

theorem yields_pattern {p : String} (hk : kind v = .string obj)
    (hp : obj.get "pattern" = some (.string p)) (h : Json.IsText p.toList) :
    Yields g (compileStringType obj) (Reads g v) := by
  have hmeans : Means g ("\"" ++ escapeGbnfLiteral p ++ "\"") (sentences v) := by
    refine (means_escapeGbnfLiteral p).mono ?_
    rintro _ rfl
    exact sentences_of_string hk h
  unfold compileStringType
  rw [hp]
  dsimp only
  split
  · exact yields_throw
  · exact yields_pure ⟨hmeans.covers, fun _ _ => hmeans⟩

theorem yields_emptyString (hk : kind v = .string obj)
    (hp : ∀ p, obj.get "pattern" ≠ some (.string p))
    (hmax : (obj.get "maxLength").bind Value.asU64 = some 0) :
    Yields g (compileStringType obj) (Reads g v) := by
  have hmeans : Means g ("\"\\\"\" " ++ boundedRepeat "string-char" 0 (some 0) ++ " \"\\\"\"")
      (sentences v) := by
    have h := (means_quote.seq (Grammar.means_empty (g := g))).seq means_quote
    refine (h.congr rfl).mono ?_
    exact (Json.string_le .nil).trans (sentences_of_string hk)
  have hreads : Reads g v ("\"\\\"\" " ++ boundedRepeat "string-char" 0 (some 0) ++ " \"\\\"\"") :=
    ⟨hmeans.covers, fun _ _ => hmeans⟩
  unfold compileStringType
  split
  · rename_i p hpattern
    exact absurd hpattern (hp p)
  · refine keeps_ensureStringCharRule.yields.bind fun _ => ?_
    rw [hmax]
    cases (obj.get "minLength").bind Value.asU64 with
    | none => exact yields_pure fun _ => hreads
    | some min =>
      cases min with
      | zero => exact yields_pure fun _ => hreads
      | succ min =>
        -- more characters than the maximum are rejected
        exact (yields_throw (Q := fun _ => False)).bind fun _ => yields_pure fun h => h.elim

end Strings

/-! ### Repetitions -/

section Repetitions

variable {g : Grammar} {atom item : String} {L : Language Char}

theorem means_join {es : List String} (h : ∀ e ∈ es, Means g e L∗) :
    Means g (join " " es) L∗ := by
  induction es with
  | nil => exact Grammar.means_empty.mono one_le_kstar
  | cons e es ih =>
    have he := h e List.mem_cons_self
    have hes := ih fun x hx => h x (List.mem_cons_of_mem e hx)
    cases es with
    | nil => exact he
    | cons e' es => exact (he.seq hes).mono (kstar_mul_kstar L).le

theorem means_optionalTail (h : Means g atom L) (n : ℕ) : Means g (optionalTail atom n) L∗ := by
  induction n with
  | zero => exact Grammar.means_empty.mono one_le_kstar
  | succ n ih =>
    cases n with
    | zero => exact h.covers.opt.mono (add_le one_le_kstar le_kstar)
    | succ n =>
      have hmore := (h.seq ih).covers.opt.mono (one_add_mul_kstar (a := L)).le
      refine hmore.congr ?_
      simp only [optionalTail, Grammar.bytes_append, List.append_assoc]

theorem means_boundedRepeat (h : Means g atom L) (min : ℕ) (max : Option ℕ) :
    Means g (boundedRepeat atom min max) L∗ := by
  refine means_join fun e he => ?_
  rcases List.mem_append.mp he with he | he
  · rw [List.eq_of_mem_replicate he]
    exact h.mono le_kstar
  · cases max with
    | none =>
      rw [List.mem_singleton.mp he]
      exact h.covers.star
    | some max =>
      obtain ⟨-, he⟩ := List.mem_ite_nil_right.mp he
      rw [List.mem_singleton.mp he]
      exact means_optionalTail h _

theorem means_comma (hws : Means g "ws" Json.ws) : Means g "ws \",\" ws" Json.comma :=
  ((hws.seq (Grammar.means_literal [','])).seq hws).congr rfl

theorem means_boundedList (hws : Means g "ws" Json.ws) (h : Means g item Json.texts) (min : ℕ)
    (max : Option ℕ) : Means g (boundedList item "ws" min max) (1 + Json.elements) := by
  have hsep : Means g ("ws" ++ " \",\" " ++ "ws" ++ " " ++ item) (Json.comma * Json.texts) :=
    (means_comma hws).seq h
  have hbody : ∀ rest, Means g rest (Json.comma * Json.texts)∗ →
      Means g (if rest.isEmpty then item else item ++ " " ++ rest) Json.elements := by
    intro rest hrest
    split
    · exact h.mono fun _ ht => Json.elements_single ht
    · exact (h.seq hrest).mono Json.elements_list
  unfold boundedList
  dsimp only
  split
  · exact Grammar.means_empty.mono le_self_add
  · split
    · refine (hbody _ ?_).covers.opt
      cases max with
      | none => exact hsep.covers.star
      | some m => exact means_boundedRepeat hsep 0 _
    · exact (hbody _ (means_boundedRepeat hsep _ _)).mono le_add_self

/-- A list of one item at most may take an item with a bar. -/
theorem means_optionalItem (h : Covers g item Json.texts) :
    Means g (boundedList item "ws" 0 (some 1)) (1 + Json.elements) :=
  h.opt.mono (add_le_add_right (fun _ ht => Json.elements_single ht) 1)

end Repetitions

/-! ### Objects -/

section Objects

variable {g : Grammar} {v : Value} {obj props : Object} {us : List ℕ} {keys : List (List ℕ)}

theorem means_memberExpr (hws : Means g "ws" Json.ws) {key valRule : String}
    (hkey : Json.Spells key.toList us) (h : Means g valRule Json.texts) :
    Means g (memberExpr "ws" key valRule) (Json.members [us]) := by
  have hquoted := (means_quote.seq (means_escapeGbnfLiteral (g := g) key)).seq means_quote
  have hcolon : Means g "ws \":\" ws" (Json.ws * {[':']} * Json.ws) :=
    ((hws.seq (Grammar.means_literal [':'])).seq hws).congr rfl
  refine (((hquoted.seq hcolon).seq h).congr ?_).mono (Json.member_le hkey)
  simp only [memberExpr, Grammar.bytes_append, List.append_assoc]
  rfl

/-- Members between commas. -/
theorem means_joinMembers (hws : Means g "ws" Json.ws) {parts : List String}
    (h : List.Forall₂ (fun part us => Means g part (Json.members [us])) parts keys) :
    Means g (join (" " ++ "ws" ++ " \",\" " ++ "ws" ++ " ") parts) (Json.memberList keys) := by
  induction h with
  | nil =>
    refine Grammar.means_empty.mono ?_
    rintro _ rfl
    exact .inr ⟨rfl, Json.ws_nil⟩
  | @cons part us parts keys hpart hparts ih =>
    cases hparts with
    | nil => exact hpart.mono fun _ ht => .inl ht
    | cons =>
      have hmembers := ih.mono (M := Json.members _) fun t ht => by
        rcases ht with ht | ⟨hnil, -⟩
        · exact ht
        · cases hnil
      refine ((hpart.seq ((means_comma hws).seq hmembers)).congr ?_).mono ?_
      · simp only [join, Grammar.bytes_append, List.append_assoc]
        rfl
      · exact Json.members_comma_le.trans fun _ ht => .inl ht

/-- Braces around a text. -/
theorem means_objectBody (hws : Means g "ws" Json.ws) {parts : List String} {L : Language Char}
    (h : Means g (join (" " ++ "ws" ++ " \",\" " ++ "ws" ++ " ") parts) L) :
    Means g (objectBody "ws" parts none)
      ({['\x7b']} * Json.ws * L * Json.ws * {['\x7d']}) := by
  have hopen : Means g "\"\x7b\" ws" ({['\x7b']} * Json.ws) :=
    ((Grammar.means_literal ['\x7b']).seq hws).congr rfl
  have hclose : Means g "ws \"\x7d\"" (Json.ws * {['\x7d']}) :=
    (hws.seq (Grammar.means_literal ['\x7d'])).congr rfl
  have hbody : objectBody "ws" parts none =
      if (join (" " ++ "ws" ++ " \",\" " ++ "ws" ++ " ") parts).isEmpty then
        "\"\x7b\" " ++ "ws" ++ " \"\x7d\""
      else "\"\x7b\" " ++ "ws" ++ " " ++ join (" " ++ "ws" ++ " \",\" " ++ "ws" ++ " ") parts ++
        " " ++ "ws" ++ " \"\x7d\"" := by
    cases parts <;> rfl
  rw [hbody]
  generalize join (" " ++ "ws" ++ " \",\" " ++ "ws" ++ " ") parts = joined at h
  split
  · -- nothing between the braces: the text generates nothing but the empty string
    rename_i hempty
    obtain rfl : joined = "" := by simpa using hempty
    refine ((hopen.seq (Grammar.means_literal ['\x7d'])).congr rfl).mono ?_
    intro t ht
    obtain ⟨u, hu, _, rfl, rfl⟩ := Language.mem_mul.mp ht
    refine Language.append_mem_mul ?_ rfl
    have hnil : [] ∈ Json.ws := Json.ws_nil
    have hmem := Language.append_mem_mul (Language.append_mem_mul hu h.nil_mem) hnil
    simpa using hmem
  · refine (((hopen.seq h).seq hclose).congr ?_).mono ?_
    · simp only [Grammar.bytes_append, List.append_assoc]
      rfl
    · rw [mul_assoc ({['\x7b']} * Json.ws * L) Json.ws]

end Objects

section Compile

variable {g : Grammar} {compile : Value → CompileM String}
  (hcompile : ∀ v, Yields g (compile v) fun e => Good v → Reads g v e)

theorem texts_of_sentences (v : Value) : sentences v ≤ Json.texts := fun _ h => h.1

include hcompile

theorem yields_requiredPart (p : String × Value) : Yields g (requiredPart compile "ws" p)
    fun part => Good p.2 → ¬ Alternates p.2 → Means g "ws" Json.ws → ∀ us,
      Json.Spells p.1.toList us → Means g part (Json.members [us]) := by
  refine (hcompile p.2).bind fun e => (yields_inlineOrRule e).bind fun r => ?_
  refine yields_pure fun hr he hgood halt hws us hus => means_memberExpr hws hus ?_
  exact ((hr p.2 (he hgood)).2 halt).mono (texts_of_sentences p.2)

theorem yields_optionalPart (p : String × Value) : Yields g (optionalPart compile "ws" p)
    fun part => Good p.2 → ¬ Alternates p.2 → Means g "ws" Json.ws → ∀ us,
      Json.Spells p.1.toList us → Means g part (1 + Json.members [us]) := by
  refine (hcompile p.2).bind fun e => (yields_inlineOrRule e).bind fun r => ?_
  refine yields_newRule fun name => yields_pure fun hname hr he hgood halt hws us hus => ?_
  have hvalue := ((hr p.2 (he hgood)).2 halt).mono (texts_of_sentences p.2)
  exact (hname _ (means_memberExpr hws hus hvalue).covers).covers.opt

omit hcompile in
theorem yields_extraPairRule {obj : Object}
    (h : ∀ extra, obj.get "additionalProperties" = some extra → extra = .bool false) :
    Yields g (extraPairRule compile "ws" obj) fun extra => extra = none := by
  unfold extraPairRule
  cases hextra : obj.get "additionalProperties" with
  | none => exact yields_pure rfl
  | some extra =>
    obtain rfl := h extra hextra
    exact yields_pure rfl

omit hcompile in
theorem requiredSet_eq {obj : Object} {required : List String}
    (h : requiredSet obj = .ok required) : required = requiredNames obj := by
  unfold requiredSet at h
  unfold requiredNames
  cases hget : obj.get "required" with
  | none =>
    rw [hget] at h
    cases h
    rfl
  | some v =>
    rw [hget] at h
    cases v with
    | array =>
      cases h
      rfl
    | null | bool | number | string | object => cases h

omit hcompile in
/-- The keys that the names of properties spell. -/
theorem exists_keys {props : Object} (h : ∀ p ∈ props, IsStringBody p.1) :
    ∃ keys, List.Forall₂ (fun (p : String × Value) us => Json.Spells p.1.toList us) props keys := by
  induction props with
  | nil => exact ⟨[], .nil⟩
  | cons p props ih =>
    obtain ⟨us, hus⟩ := h p List.mem_cons_self
    obtain ⟨keys, hkeys⟩ := ih fun q hq => h q (List.mem_cons_of_mem p hq)
    exact ⟨us :: keys, .cons hus hkeys⟩

omit hcompile in
theorem mem_sortByKey {props : Object} {p : String × Value} :
    p ∈ sortByKey props ↔ p ∈ props := (List.mergeSort_perm _ _).mem_iff

omit hcompile in
/-- A property's key is among the keys. -/
theorem mem_keys {props : Object} {keys : List (List ℕ)} {us : List ℕ} {p : String × Value}
    (h : List.Forall₂ (fun (p : String × Value) us => Json.Spells p.1.toList us) props keys)
    (hp : p ∈ props) (hus : Json.Spells p.1.toList us) : us ∈ keys := by
  induction h with
  | nil => cases hp
  | cons hq _ ih =>
    rcases List.mem_cons.mp hp with rfl | hp
    · rw [hus.unique hq]
      exact List.mem_cons_self
    · exact List.mem_cons_of_mem _ (ih hp)

/-- The parts of required properties. -/
theorem yields_requiredParts {props : Object} (hgood : ∀ p ∈ props, Good p.2)
    (halt : ∀ p ∈ props, ¬ Alternates p.2) {keys : List (List ℕ)}
    (hkeys : List.Forall₂ (fun (p : String × Value) us => Json.Spells p.1.toList us) props keys) :
    Yields g (props.mapM (requiredPart compile "ws")) fun parts => Means g "ws" Json.ws →
      List.Forall₂ (fun part us => Means g part (Json.members [us])) parts keys := by
  refine (yields_mapM fun p _ => yields_requiredPart hcompile p).mono fun parts hparts hws => ?_
  induction hparts generalizing keys with
  | nil =>
    cases hkeys
    exact .nil
  | @cons p part props parts hpart _ ih =>
    cases hkeys with
    | @cons _ us _ keys hus hkeys =>
      refine .cons (hpart (hgood p List.mem_cons_self) (halt p List.mem_cons_self) hws us hus) ?_
      exact ih (fun q hq => hgood q (List.mem_cons_of_mem p hq))
        (fun q hq => halt q (List.mem_cons_of_mem p hq)) hkeys

omit hcompile in
/-- Braces around all properties. -/
theorem means_requiredObject {v : Value} {obj props : Object} (ho : objectOf v = some obj)
    (hprops : obj.get "properties" = some (.object props)) (hws : Means g "ws" Json.ws)
    {ps : Object} (hps : ∀ p, p ∈ ps ↔ p ∈ props) {keys : List (List ℕ)}
    (hkeys : List.Forall₂ (fun (p : String × Value) us => Json.Spells p.1.toList us) ps keys)
    {parts : List String}
    (hparts : List.Forall₂ (fun part us => Means g part (Json.members [us])) parts keys) :
    Means g (objectBody "ws" parts none) (sentences v) := by
  refine (means_objectBody hws (means_joinMembers hws hparts)).mono ?_
  refine Json.object_le.trans fun t ht => ⟨Json.objects_le ht, fun key hkey => ?_⟩
  obtain ⟨obj', props', p, ho', hprops', hp, -, hspells⟩ := hkey.of_object ho
  cases ho.symm.trans ho'
  cases hprops.symm.trans hprops'
  exact ⟨keys, ht, mem_keys hkeys ((hps p).mpr hp) hspells⟩

omit hcompile in
/-- Braces around the only property, which is optional. -/
theorem means_optionalObject {v p : Value} {obj : Object} {name : String}
    (ho : objectOf v = some obj) (hprops : obj.get "properties" = some (.object [(name, p)]))
    (hname : name ∉ requiredNames obj) (hws : Means g "ws" Json.ws) {us : List ℕ}
    {part : String} (hpart : Means g part (1 + Json.members [us])) :
    Means g (objectBody "ws" [part] none) (sentences v) := by
  have hnone : ∀ key, ¬ Carries key v := by
    intro key hkey
    obtain ⟨obj', props', q, ho', hprops', hq, hrequired, -⟩ := hkey.of_object ho
    cases ho.symm.trans ho'
    cases hprops.symm.trans hprops'
    rw [List.mem_singleton.mp hq] at hrequired
    exact hname hrequired
  have hjoin : Means g (join (" " ++ "ws" ++ " \",\" " ++ "ws" ++ " ") [part])
      (1 + Json.members [us]) := hpart
  refine (means_objectBody hws hjoin).mono ?_
  refine le_trans ?_ (texts_le_sentences hnone)
  intro t ht
  obtain ⟨t, h₁, _, rfl, rfl⟩ := Language.mem_mul.mp ht
  obtain ⟨t, h₂, b, hb, rfl⟩ := Language.mem_mul.mp h₁
  obtain ⟨t, h₃, m, hm, rfl⟩ := Language.mem_mul.mp h₂
  obtain ⟨keys, hm⟩ : ∃ keys, m ∈ Json.memberList keys := by
    rcases hm with rfl | hm
    · exact ⟨[], .inr ⟨rfl, Json.ws_nil⟩⟩
    · exact ⟨[us], .inl hm⟩
  have hbraces := Language.append_mem_mul (Language.append_mem_mul
    (Language.append_mem_mul h₃ hm) hb) (show ['\x7d'] ∈ ({['\x7d']} : Language Char) from rfl)
  exact Json.objects_le (Json.object_le hbraces)

theorem yields_compileObjectType {v : Value} {obj props : Object} (ho : objectOf v = some obj)
    (hprops : obj.get "properties" = some (.object props))
    (hextra : ∀ extra, obj.get "additionalProperties" = some extra → extra = .bool false)
    (hkeys : ∀ p ∈ props, IsStringBody p.1) (hgood : ∀ p ∈ props, Good p.2)
    (halt : ∀ p ∈ props, ¬ Alternates p.2)
    (hoptional : (∀ p ∈ props, p.1 ∈ requiredNames obj) ∨ props.length ≤ 1) :
    Yields g (compileObjectType compile obj) (Reads g v) := by
  have hreads : ∀ {e}, Means g e (sentences v) → Reads g v e := fun h => ⟨h.covers, fun _ _ => h⟩
  refine yields_ensureWsRule.bind_keeps keeps_ensureWsRule ?_
  rintro _ rfl
  rw [hprops]
  refine (yields_lift (Q := fun _ => True) fun _ _ => trivial).bind_keeps
    (keeps_lift fun _ h => requiredSet_eq h) ?_
  rintro _ rfl
  by_cases hall : ∀ p ∈ props, p.1 ∈ requiredNames obj
  · -- all properties are required
    have hrequired : props.filter (fun p => (requiredNames obj).contains p.1) = props := by
      rw [List.filter_eq_self]
      intro p hp
      simpa using hall p hp
    have hrest : props.filter (fun p => !(requiredNames obj).contains p.1) = [] := by
      rw [List.filter_eq_nil_iff]
      intro p hp
      simpa using hall p hp
    have hsortedKeys : ∀ p ∈ sortByKey props, IsStringBody p.1 := fun p hp =>
      hkeys p (mem_sortByKey.mp hp)
    have hnil : sortByKey [] = [] := List.mergeSort_nil
    obtain ⟨keys, hsorted⟩ := exists_keys hsortedKeys
    rw [hrequired, hrest, hnil]
    refine (yields_requiredParts hcompile (fun p hp => hgood p (mem_sortByKey.mp hp))
      (fun p hp => halt p (mem_sortByKey.mp hp)) hsorted).bind fun parts => ?_
    refine (yields_extraPairRule hextra).bind fun extra => yields_pure ?_
    rintro rfl hparts - ⟨-, hws⟩
    rw [List.reverse_nil, List.append_nil]
    exact hreads (means_requiredObject ho hprops hws (fun _ => mem_sortByKey) hsorted (hparts hws))
  · -- the only property is optional
    obtain ⟨p, rfl⟩ : ∃ p, props = [p] := by
      rcases hoptional with hoptional | hlen
      · exact absurd hoptional hall
      · match props, hlen with
        | [], _ => exact absurd nofun hall
        | [p], _ => exact ⟨p, rfl⟩
    have hname : p.1 ∉ requiredNames obj := by simpa using hall
    have hrequired : [p].filter (fun p => (requiredNames obj).contains p.1) = [] := by
      simpa using hname
    have hrest : [p].filter (fun p => !(requiredNames obj).contains p.1) = [p] := by
      simpa using hname
    have hnil : sortByKey [] = [] := List.mergeSort_nil
    have hsingle : sortByKey [p] = [p] := List.mergeSort_singleton p
    obtain ⟨us, hus⟩ := hkeys p List.mem_cons_self
    rw [hrequired, hrest, hnil, hsingle]
    simp only [List.mapM_cons, List.mapM_nil, bind_assoc, pure_bind]
    refine (yields_optionalPart hcompile p).bind fun part => ?_
    refine (yields_extraPairRule hextra).bind fun extra => yields_pure ?_
    rintro rfl hpart - ⟨-, hws⟩
    have hmember := hpart (hgood p List.mem_cons_self) (halt p List.mem_cons_self) hws us hus
    exact hreads (means_optionalObject ho hprops hname hws hmember)

/-! ### Arrays and combinators -/

omit hcompile in
/-- Brackets around a list. -/
theorem means_brackets (hws : Means g "ws" Json.ws) {list : String}
    (h : Means g list (1 + Json.elements)) :
    Means g ("\"[\" " ++ "ws" ++ " " ++ list ++ " " ++ "ws" ++ " \"]\"") Json.texts := by
  have hopen : Means g "\"[\" ws" ({['[']} * Json.ws) :=
    ((Grammar.means_literal ['[']).seq hws).congr rfl
  have hclose : Means g "ws \"]\"" (Json.ws * {[']']}) :=
    (hws.seq (Grammar.means_literal [']'])).congr rfl
  refine (((hopen.seq h).seq hclose).congr ?_).mono ?_
  · simp only [Grammar.bytes_append, List.append_assoc]
    rfl
  · rw [← mul_assoc]
    exact Json.array_le le_rfl

omit hcompile in
theorem texts_of_array {v : Value} {obj : Object} (hk : kind v = .array obj) :
    Json.texts ≤ sentences v := by
  refine texts_le_sentences fun key hkey => ?_
  have hkey := hkey.inv
  rwa [hk] at hkey

omit hcompile in
/-- The text of an array, by what is known of the text of its items. -/
theorem yields_compileArrayType {v : Value} {obj : Object} (hk : kind v = .array obj)
    {F : String → Prop}
    (hsome : ∀ item, obj.get "items" = some item → Yields g (compile item >>= inlineOrRule) F)
    (hnone : obj.get "items" = none → Yields g (anyJsonExpr >>= inlineOrRule) F)
    (hlist : ∀ rule, F rule → Means g "ws" Json.ws →
      Means g (boundedList rule "ws" (minItems obj) (maxItems obj)) (1 + Json.elements)) :
    Yields g (compileArrayType compile obj) (Reads g v) := by
  have hreads : ∀ rule, F rule → Means g "ws" Json.ws → Reads g v
      ("\"[\" " ++ "ws" ++ " " ++ boundedList rule "ws" (minItems obj) (maxItems obj) ++ " " ++
        "ws" ++ " \"]\"") := by
    intro rule hF hws
    have hmeans := (means_brackets hws (hlist rule hF hws)).mono (texts_of_array hk)
    exact ⟨hmeans.covers, fun _ _ => hmeans⟩
  refine yields_ensureWsRule.bind_keeps keeps_ensureWsRule ?_
  rintro _ rfl
  dsimp only
  split
  on_goal 1 => rename_i item hitem; rw [← bind_assoc]; refine (hsome item hitem).bind fun rule => ?_
  on_goal 2 => rename_i hitem; rw [← bind_assoc]; refine (hnone hitem).bind fun rule => ?_
  all_goals
    split
    · split
      · exact (yields_throw (Q := fun _ => False)).bind fun _ => yields_pure fun h => h.elim
      · exact yields_pure fun hF hws => hreads rule hF hws.2
    · exact yields_pure fun hF hws => hreads rule hF hws.2

/-- An array of good items. -/
theorem yields_array {v item : Value} {obj : Object} (hk : kind v = .array obj)
    (hitem : obj.get "items" = some item) (h : Good item)
    (halt : Alternates item → minItems obj = 0 ∧ maxItems obj = some 1) :
    Yields g (compileArrayType compile obj) (Reads g v) := by
  refine yields_compileArrayType (F := fun rule => Covers g rule (sentences item) ∧
    (¬ Alternates item → Means g rule (sentences item))) hk ?_ ?_ ?_
  · intro item' hitem'
    cases hitem.symm.trans hitem'
    exact (hcompile item).bind fun e => (yields_inlineOrRule e).mono fun r hr he => hr item (he h)
  · intro hnone
    rw [hnone] at hitem
    cases hitem
  · intro rule hrule hws
    by_cases hbar : Alternates item
    · obtain ⟨hmin, hmax⟩ := halt hbar
      rw [hmin, hmax]
      exact means_optionalItem (hrule.1.mono (texts_of_sentences item))
    · exact means_boundedList hws ((hrule.2 hbar).mono (texts_of_sentences item)) _ _

/-- An array without items. -/
theorem yields_emptyArray {v : Value} {obj : Object} (hk : kind v = .array obj)
    (hmax : maxItems obj = some 0) : Yields g (compileArrayType compile obj) (Reads g v) := by
  refine yields_compileArrayType (F := fun _ => True) hk ?_ ?_ ?_
  · intro item _
    exact (hcompile item).bind fun e => (yields_inlineOrRule e).mono fun _ _ _ => trivial
  · intro _
    exact keeps_anyJsonExpr.yields.bind fun e => (yields_inlineOrRule e).mono fun _ _ _ => trivial
  · intro rule _ _
    rw [hmax]
    exact Grammar.means_empty.mono le_self_add

/-- The alternatives of good variants. -/
theorem yields_compileAnyOf {v : Value} {variants : List Value} (hk : kind v = .anyOf variants)
    (h : ∀ x ∈ variants, Good x) : Yields g (compileAnyOf compile variants) (Reads g v) := by
  have hsentences : ∀ x ∈ variants, sentences x ≤ sentences v := by
    intro x hx t ht
    refine ⟨ht.1, fun key hkey => ht.2 key ?_⟩
    have hkey := hkey.inv
    rw [hk] at hkey
    exact hkey x hx
  have hjoin : ∀ {xs : List Value} {alts : List String}, (∀ x ∈ xs, x ∈ variants) → xs ≠ [] →
      List.Forall₂ (fun x alt => Good x → Covers g alt (sentences x)) xs alts →
      Covers g (join " | " alts) (sentences v) := by
    intro xs alts hmem hne halts
    induction halts with
    | nil => exact absurd rfl hne
    | @cons x alt xs alts hx hxs ih =>
      have hv := hmem x List.mem_cons_self
      have halt := (hx (h x hv)).mono (hsentences x hv)
      cases hxs with
      | nil => exact halt
      | cons =>
        exact halt.alt (ih (fun y hy => hmem y (List.mem_cons_of_mem x hy)) (List.cons_ne_nil _ _))
  unfold compileAnyOf
  split
  · exact (yields_throw (Q := fun _ => False)).bind fun _ =>
      (yields_mapM (R := fun _ _ => True) fun x _ => (hcompile x).bind fun e =>
        (yields_inlineOrRule e).mono fun _ _ _ => trivial).bind fun _ =>
          yields_pure fun _ h => h.elim
  · rename_i hne
    refine (yields_mapM (R := fun x alt => Good x → Covers g alt (sentences x)) fun x _ => ?_).bind
      fun alts => yields_pure fun halts => ?_
    · exact (hcompile x).bind fun e => (yields_inlineOrRule e).mono fun r hr he hx =>
        (hr x (he hx)).1
    · have hmeans := (hjoin (fun _ hx => hx) (by simpa using hne) halts).group
      exact ⟨hmeans.covers, fun _ _ => hmeans⟩

/-- One schema in place of another that it stands for. -/
theorem yields_allOf {v schema : Value} (hk : kind v = .allOf [schema]) (h : Good schema) :
    Yields g (compileAllOf compile [schema]) (Reads g v) := by
  have hsentences : sentences schema ≤ sentences v := by
    intro t ht
    refine ⟨ht.1, fun key hkey => ht.2 key ?_⟩
    have hkey := hkey.inv
    rwa [hk] at hkey
  refine (hcompile schema).mono fun e he => ?_
  obtain ⟨hcovers, hmeans⟩ := he h
  exact ⟨hcovers.mono hsentences, fun halt hinline =>
    (hmeans (fun hbar => halt (.allOf hk hbar)) hinline).mono hsentences⟩

end Compile

/-! ### Schemas -/

section Schemas

variable {g : Grammar}

/-- A good object schema, as it stands or merged from branches. -/
theorem yields_objectOf {compile : Value → CompileM String} {v : Value} {obj : Object}
    (ho : objectOf v = some obj)
    (h : Yields g (compileObjectType compile obj) (Reads g v)) :
    Yields g (compileKind compile (kind v)) (Reads g v) := by
  unfold objectOf at ho
  split at ho
  · rename_i hk
    cases ho
    rw [hk]
    exact h
  · rename_i s s' schemas hk
    rw [hk]
    refine Yields.bind_keeps (S := fun r => mergedObject r.1 r.2 = obj) (Q := fun _ => True)
      (keeps_lift fun r hr => ?_) (yields_lift fun _ _ => trivial) ?_
    · rw [hr] at ho
      exact Option.some.inj ho
    · rintro ⟨props, required⟩ rfl
      exact h.mono fun _ he _ => he
  · cases ho

/-- **The text of a good schema generates sentences of it only.** -/
theorem yields_compileSchema (n : ℕ) (v : Value) :
    Yields g (compileSchema n v) fun e => Good v → Reads g v e := by
  induction n generalizing v with
  | zero => exact yields_throw
  | succ n ih =>
    by_cases hgood : Good v
    · refine Yields.mono (Q := Reads g v) ?_ fun e he _ => he
      show Yields g (compileKind (compileSchema n) (kind v)) (Reads g v)
      have hliteral : ∀ {t : Text}, Json.Value t → (∀ key, ¬ Carries key v) →
          Means g ("\"" ++ String.ofList (t.flatMap literalChar) ++ "\"") (sentences v) :=
        fun ht hkey => (Grammar.means_literal _).mono
          ((Json.texts_of_value ht).trans (texts_le_sentences hkey))
      have hcases := hgood
      cases hcases with
      | const hk hc =>
        rw [hk]
        exact yields_pure (reads_const hk hc)
      | enum hk h =>
        rw [hk]
        exact yields_lift fun e he => reads_enum hk h he
      | anyOf hk h =>
        rw [hk]
        exact yields_compileAnyOf ih hk h
      | allOf hk h =>
        rw [hk]
        exact yields_allOf ih hk h
      | boolean hk =>
        have hkey : ∀ key, ¬ Carries key v := by
          intro key hkey
          have hkey := hkey.inv
          rwa [hk] at hkey
        rw [hk]
        have hcovers := ((hliteral .true hkey).covers.alt (hliteral .false hkey).covers)
        exact yields_pure ⟨hcovers, fun halt => absurd (.boolean hk) halt⟩
      | null hk =>
        have hkey : ∀ key, ¬ Carries key v := by
          intro key hkey
          have hkey := hkey.inv
          rwa [hk] at hkey
        rw [hk]
        exact yields_pure ⟨(hliteral .null hkey).covers, fun _ _ => hliteral .null hkey⟩
      | pattern hk hp h =>
        rw [hk]
        exact yields_pattern hk hp h
      | emptyString hk hp hmax =>
        rw [hk]
        exact yields_emptyString hk hp hmax
      | emptyArray hk hmax =>
        rw [hk]
        exact yields_emptyArray ih hk hmax
      | array hk hitem h halt =>
        rw [hk]
        exact yields_array ih hk hitem h halt
      | object ho hprops hextra hkeys h halt hoptional =>
        exact yields_objectOf ho
          (yields_compileObjectType ih ho hprops hextra hkeys h halt hoptional)
    · exact (keeps_compileSchema (n + 1) v).yields.mono fun _ _ h => absurd h hgood

end Schemas

end Schema

end Oxillama
