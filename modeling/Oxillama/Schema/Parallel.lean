/-
Two runs of the schema compiler, side by side.

Two computations of the compiler agree when they fail with the same error, or both succeed
and, for grammars that have the rules they leave, their answers are related.  The rules may
have other names and bodies in the one run than in the other.

* `Respects g rules` — `g` defines the rules, and the helper rules among them have the
  bodies they should have;
* `Parallel g g' f f' R` — `f` and `f'` agree, with answers related by `R`;
* `Parallel.bind`, `parallel_mapM`, `parallel_ensureRule`, `parallel_newRule` — how
  computations that agree are put together.
-/
import Oxillama.Schema.Languages
import Oxillama.Schema.Parsed

namespace Oxillama

namespace Schema

open Grammar (GrammarError GrammarResult Denotes Stands)

/-! ### Grammars and rules -/

/-- The helper rules have the bodies they should have. -/
def HelpersOk (rules : List (String × String)) : Prop :=
  ∀ r ∈ rules, ∀ body, helperBody r.1 = some body → r.2 = body

/-- The grammar defines the rules, and the helper rules are what they should be. -/
structure Respects (g : Grammar) (rules : List (String × String)) : Prop where
  defines : Defines g rules
  helpers : HelpersOk rules

theorem Respects.left {g : Grammar} {rules rules' : List (String × String)}
    (h : Respects g (rules ++ rules')) : Respects g rules :=
  ⟨h.defines.subset (List.subset_append_left _ _),
    fun r hr => h.helpers r (List.mem_append_left _ hr)⟩

theorem Respects.hasHelper {g : Grammar} {rules : List (String × String)} (h : Respects g rules)
    {name body : String} (hmem : (name, body) ∈ rules) : HasHelper g name := by
  intro body' hbody' ts hts
  obtain rfl : body = body' := h.helpers _ hmem body' hbody'
  exact h.defines _ hmem ts hts

theorem helperBody_ruleName (k : ℕ) : helperBody (ruleName k) = none := by
  cases h : helperBody (ruleName k) with
  | none => rfl
  | some body => exact absurd rfl (ruleName_ne (List.mem_cons_of_mem _ (mem_helperNames h)) k)

theorem HelpersOk.add {rules : List (String × String)} (h : HelpersOk rules)
    {name body : String} (hnew : ∀ b, helperBody name = some b → body = b) :
    HelpersOk (rules ++ [(name, body)]) := by
  intro r hr
  rcases List.mem_append.mp hr with hr | hr
  · exact h r hr
  · obtain rfl := List.mem_singleton.mp hr
    exact hnew

/-! ### One run -/

/-- `f` succeeds from `c`, keeps the helper rules right, and what it answers satisfies `Q` in
any grammar that respects the rules it leaves. -/
def Answers {α : Type} (g : Grammar) (f : CompileM α) (c : SchemaCompiler) (Q : α → Prop) : Prop :=
  ∃ a d, f c = .ok (a, d) ∧ (HelpersOk c.rules → HelpersOk d.rules) ∧
    (Respects g d.rules → Respects g c.rules ∧ Q a)

section Answering

variable {g : Grammar} {c : SchemaCompiler}

theorem answers_pure {α : Type} {a : α} {Q : α → Prop} (h : Q a) : Answers g (pure a) c Q :=
  ⟨a, c, rfl, id, fun hg => ⟨hg, h⟩⟩

/-- A helper rule that is added unless it is there. -/
theorem answers_ensureRule {name body : String} (hbody : helperBody name = some body) :
    Answers g (ensureRule name body) c fun _ => HasHelper g name := by
  cases hhas : c.rules.any fun r => r.1 == name with
  | true =>
    have hrun : ensureRule name body c = .ok ((), c) := by
      show (if (!(c.rules.any fun r => r.1 == name)) = true then _ else _ : CompileM Unit) c = _
      rw [hhas]
      rfl
    obtain ⟨r, hr, hname⟩ := List.any_eq_true.mp hhas
    obtain rfl := beq_iff_eq.mp hname
    exact ⟨(), c, hrun, id, fun hg => ⟨hg, hg.hasHelper hr⟩⟩
  | false =>
    have hrun : ensureRule name body c =
        .ok ((), { c with rules := c.rules ++ [(name, body)] }) := by
      show (if (!(c.rules.any fun r => r.1 == name)) = true then _ else _ : CompileM Unit) c = _
      rw [hhas]
      rfl
    refine ⟨(), _, hrun, fun h => h.add fun b hb => ?_, fun hg => ⟨hg.left, ?_⟩⟩
    · exact Option.some.inj (hbody.symm.trans hb)
    · exact hg.hasHelper (List.mem_append_right _ List.mem_cons_self)

/-- The expression itself, or the name of a rule for it: it denotes the same, and stands next
to others where the expression does, if that is what is answered. -/
theorem answers_inlineOrRuleWith (inline : String → Bool) (e : String) :
    Answers g (inlineOrRuleWith inline e) c fun r => ∀ L, Denotes g e L →
      Denotes g r L ∧ ((inline e = true → Stands g e L) → Stands g r L) := by
  unfold inlineOrRuleWith
  split
  · rename_i hinline
    exact answers_pure fun L h => ⟨h, fun hstands => hstands hinline⟩
  · refine ⟨ruleName c.counter, ⟨c.rules ++ [(ruleName c.counter, e)], c.counter + 1⟩, rfl,
      fun h => h.add fun b hb => ?_, fun hg => ⟨hg.left, fun L hL => ?_⟩⟩
    · rw [helperBody_ruleName] at hb
      cases hb
    · have hmem : (ruleName c.counter, e) ∈ c.rules ++ [(ruleName c.counter, e)] := by simp
      have hstands := Grammar.stands_ref (isIdent_ruleName _) (hg.defines _ hmem) hL
      exact ⟨hstands.denotes, fun _ => hstands⟩

end Answering

/-! ### Two runs -/

section Two

variable {α α' β β' : Type}

/-- Two outcomes that agree. -/
inductive Agree (g g' : Grammar) (R : α → α' → Prop) (c c' : SchemaCompiler) :
    GrammarResult (α × SchemaCompiler) → GrammarResult (α' × SchemaCompiler) → Prop
  | error (e : GrammarError) : Agree g g' R c c' (.error e) (.error e)
  | ok {a : α} {a' : α'} {d d' : SchemaCompiler}
      (h : HelpersOk c.rules → HelpersOk d.rules) (h' : HelpersOk c'.rules → HelpersOk d'.rules)
      (hback : Respects g d.rules → Respects g' d'.rules →
        Respects g c.rules ∧ Respects g' c'.rules ∧ R a a') :
      Agree g g' R c c' (.ok (a, d)) (.ok (a', d'))

/-- `f` and `f'` agree from any two states. -/
def Parallel (g g' : Grammar) (f : CompileM α) (f' : CompileM α') (R : α → α' → Prop) : Prop :=
  ∀ c c', Agree g g' R c c' (f c) (f' c')

variable {g g' : Grammar} {f : CompileM α} {f' : CompileM α'} {k : α → CompileM β}
  {k' : α' → CompileM β'} {R : α → α' → Prop} {R' : β → β' → Prop}

theorem Parallel.of_answers {Q : α → Prop} {Q' : α' → Prop} (h : ∀ c, Answers g f c Q)
    (h' : ∀ c, Answers g' f' c Q') (hR : ∀ a a', Q a → Q' a' → R a a') :
    Parallel g g' f f' R := by
  intro c c'
  obtain ⟨a, d, hrun, hhelpers, hback⟩ := h c
  obtain ⟨a', d', hrun', hhelpers', hback'⟩ := h' c'
  rw [hrun, hrun']
  refine .ok hhelpers hhelpers' fun hg hg' => ?_
  obtain ⟨hc, ha⟩ := hback hg
  obtain ⟨hc', ha'⟩ := hback' hg'
  exact ⟨hc, hc', hR a a' ha ha'⟩

theorem parallel_pure {a : α} {a' : α'} (h : R a a') : Parallel g g' (pure a) (pure a') R :=
  fun _ _ => .ok id id fun hg hg' => ⟨hg, hg', h⟩

theorem parallel_throw {e : GrammarError} : Parallel g g' (throw e) (throw e) R :=
  fun _ _ => .error e

/-- The rest is shown to agree under what the first parts are related by. -/
theorem Parallel.bind (hf : Parallel g g' f f' R)
    (hk : ∀ a a', Parallel g g' (k a) (k' a') fun b b' => R a a' → R' b b') :
    Parallel g g' (f >>= k) (f' >>= k') R' := by
  intro c c'
  show Agree g g' R' c c' (f c >>= fun r => k r.1 r.2) (f' c' >>= fun r => k' r.1 r.2)
  have hfirst := hf c c'
  generalize f c = x, f' c' = x' at hfirst
  cases hfirst with
  | error e => exact .error e
  | @ok a a' d d' h h' hback =>
    show Agree g g' R' c c' (k a d) (k' a' d')
    have hrest := hk a a' d d'
    generalize k a d = y, k' a' d' = y' at hrest
    cases hrest with
    | error e => exact .error e
    | ok hd hd' hback' =>
      refine .ok (fun hc => hd (h hc)) (fun hc => hd' (h' hc)) fun hg hg' => ?_
      obtain ⟨hgd, hgd', hb⟩ := hback' hg hg'
      obtain ⟨hc, hc', ha⟩ := hback hgd hgd'
      exact ⟨hc, hc', hb ha⟩

theorem Parallel.mono {R₁ : α → α' → Prop} (h : Parallel g g' f f' R)
    (hle : ∀ a a', R a a' → R₁ a a') : Parallel g g' f f' R₁ := by
  intro c c'
  have hrun := h c c'
  generalize f c = x, f' c' = x' at hrun
  cases hrun with
  | error e => exact .error e
  | ok hc hc' hback =>
    refine .ok hc hc' fun hg hg' => ?_
    obtain ⟨hgc, hgc', ha⟩ := hback hg hg'
    exact ⟨hgc, hgc', hle _ _ ha⟩

/-- A computation without state, the same in both. -/
theorem parallel_lift_bind {γ : Type} {x : GrammarResult γ} {k : γ → CompileM β}
    {k' : γ → CompileM β'} (h : ∀ a, x = .ok a → Parallel g g' (k a) (k' a) R') :
    Parallel g g' ((liftM x : CompileM γ) >>= k) ((liftM x : CompileM γ) >>= k') R' := by
  intro c c'
  cases x with
  | error e => exact .error e
  | ok a => exact h a rfl c c'

theorem parallel_lift {γ : Type} {x : GrammarResult γ} {R : γ → γ → Prop}
    (h : ∀ a, x = .ok a → R a a) :
    Parallel g g' (liftM x : CompileM γ) (liftM x : CompileM γ) R := by
  intro c c'
  cases x with
  | error e => exact .error e
  | ok a => exact .ok id id fun hg hg' => ⟨hg, hg', h a rfl⟩

theorem parallel_ensureRule {name body : String} (h : helperBody name = some body) :
    Parallel g g' (ensureRule name body) (ensureRule name body)
      fun _ _ => HasHelper g name ∧ HasHelper g' name :=
  .of_answers (fun _ => answers_ensureRule h) (fun _ => answers_ensureRule h)
    fun _ _ h h' => ⟨h, h'⟩

/-- A generated rule in both runs. -/
theorem parallel_newRule {body body' : String} {k : String → CompileM β} {k' : String → CompileM β'}
    (hk : ∀ name name', Parallel g g' (k name) (k' name') fun b b' =>
      (∀ L, Denotes g body L → Denotes g' body' L → Stands g name L ∧ Stands g' name' L) →
        R' b b') :
    Parallel g g' (do let name ← nextRuleName; let name ← addRule name body; k name)
      (do let name ← nextRuleName; let name ← addRule name body'; k' name) R' := by
  -- a rule that is never inlined
  have hrule : ∀ g e c, Answers g (inlineOrRuleWith (fun _ => false) e) c fun r =>
      ∀ L, Denotes g e L → Stands g r L := by
    intro g e c
    obtain ⟨r, d, hrun, hhelpers, hback⟩ :=
      answers_inlineOrRuleWith (g := g) (c := c) (fun _ => false) e
    refine ⟨r, d, hrun, hhelpers, fun hg => ?_⟩
    obtain ⟨hc, hr⟩ := hback hg
    exact ⟨hc, fun L hL => (hr L hL).2 nofun⟩
  have hnames : Parallel g g' (inlineOrRuleWith (fun _ => false) body)
      (inlineOrRuleWith (fun _ => false) body') fun name name' => ∀ L, Denotes g body L →
        Denotes g' body' L → Stands g name L ∧ Stands g' name' L :=
    .of_answers (hrule g body) (hrule g' body') fun _ _ h h' L hL hL' => ⟨h L hL, h' L hL'⟩
  exact hnames.bind hk

/-- One computation for each element, with answers that have something in common. -/
theorem parallel_mapM {γ : Type} {f : γ → CompileM α} {f' : γ → CompileM α'} {P : γ → Prop}
    {S : α → Language UInt8 → Prop} {S' : α' → Language UInt8 → Prop} {xs : List γ}
    (h : ∀ x ∈ xs, Parallel g g' (f x) (f' x) fun a a' => P x → ∃ L, S a L ∧ S' a' L) :
    Parallel g g' (xs.mapM f) (xs.mapM f') fun as as' => (∀ x ∈ xs, P x) →
      ∃ Ls, Ls.length = xs.length ∧ List.Forall₂ S as Ls ∧ List.Forall₂ S' as' Ls := by
  induction xs with
  | nil => exact parallel_pure fun _ => ⟨[], rfl, .nil, .nil⟩
  | cons x xs ih =>
    rw [List.mapM_cons, List.mapM_cons]
    refine (h x List.mem_cons_self).bind fun a a' => ?_
    refine (ih fun y hy => h y (List.mem_cons_of_mem x hy)).bind fun as as' => ?_
    refine parallel_pure fun hrest hfirst hall => ?_
    obtain ⟨L, hL, hL'⟩ := hfirst (hall x List.mem_cons_self)
    obtain ⟨Ls, hlen, hLs, hLs'⟩ := hrest fun y hy => hall y (List.mem_cons_of_mem x hy)
    exact ⟨L :: Ls, congrArg (· + 1) hlen, .cons hL hLs, .cons hL' hLs'⟩

end Two

end Schema

end Oxillama
