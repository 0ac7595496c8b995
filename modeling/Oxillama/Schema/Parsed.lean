/-
The grammar that the schema compiler answers, read by the grammar parser.

* `Defines g rules` — `g` has under the name of each rule what its body spells;
* `Collects g rules` — `g` has the names of the rules, each with the body of a rule of that
  name: of rules with one name the parser keeps one;
* `runs_parseRules` — the parser reads rules that are in order as such a grammar;
* `parse_of_compileValueToGbnf` — **whatever the compiler accepts is read**, and the
  grammar defines the rules and starts with the root rule.
-/
import Oxillama.Grammar.Denotes
import Oxillama.Schema.Shape

namespace Oxillama

namespace Schema

open Grammar (GrammarNode GbnfParser ParseM IsIdent isIdent_of_all Spelled Runs Tok alts altNode
  bytes textOf)

/-- `g` has under the name of each rule the alternatives that its body spells. -/
def Defines (g : Grammar) (rules : List (String × String)) : Prop :=
  ∀ r ∈ rules, ∀ ts, Spelled r.2 ts → g.rules.lookup r.1 = some (altNode (alts ts))

theorem Defines.subset {g : Grammar} {rules rules' : List (String × String)}
    (h : Defines g rules') (hsub : rules ⊆ rules') : Defines g rules :=
  fun r hr => h r (hsub hr)

/-! ### Rules -/

section Rules

variable {s : List UInt8}

theorem runs_get {β : Type} {k : GbnfParser → ParseM β} {s s' : List UInt8} {b : β}
    (h : ∀ pos, Runs (k ⟨s, pos⟩) s b s') : Runs (get >>= k) s b s' := fun pos => h pos pos

/-- An identifier, or the end of the text, is not skipped. -/
theorem runs_skipWsAndComments_stop (h : ∀ b ∈ s.head?, Grammar.isIdentStart b = true) :
    Runs Grammar.skipWsAndComments s () s := by
  refine (Grammar.runs_rounds s).bind ((Grammar.runs_peek s).bind ?_)
  cases s with
  | nil => exact Grammar.runs_pure () []
  | cons b s =>
    have hb := h b rfl
    have hne : ∀ c : Char, c.isAlpha = false → c ≠ '_' → Grammar.asChar b ≠ c := by
      rintro c hc hc' rfl
      rw [Grammar.isIdentStart, hc, Bool.false_or, beq_iff_eq] at hb
      exact hc' hb
    dsimp only [List.getElem?_cons_zero, Option.map_some]
    split
    · exact absurd (Option.some.inj ‹_›) (hne _ rfl (by decide))
    · exact absurd (Option.some.inj ‹_›) (hne _ rfl (by decide))
    · exact absurd (Option.some.inj ‹_›) (hne _ rfl (by decide))
    · exact absurd (Option.some.inj ‹_›) (hne _ rfl (by decide))
    · exact absurd (Option.some.inj ‹_›) (hne _ rfl (by decide))
    · exact Grammar.runs_pure () (b :: s)

/-- The end of a line is skipped. -/
theorem runs_skipWsAndComments_newline (h : ∀ b ∈ s.head?, Grammar.isIdentStart b = true) :
    Runs Grammar.skipWsAndComments (0x0a :: s) () s := by
  refine (Grammar.runs_rounds _).bind ((Grammar.runs_peek _).bind ?_)
  refine (Grammar.runs_advance 0x0a s).bind ?_
  intro pos
  obtain ⟨pos', hpos⟩ := runs_skipWsAndComments_stop h pos
  exact ⟨pos', hpos⟩

theorem bytes_buildGbnf_cons (name body : String) (rules : List (String × String)) :
    bytes (buildGbnf ((name, body) :: rules)) = bytes name ++ (0x20 :: 0x3a :: 0x3a :: 0x3d ::
      0x20 :: (bytes body ++ 0x0a :: bytes (buildGbnf rules))) := by
  simp only [buildGbnf, Grammar.bytes_append, List.append_assoc]
  rfl

/-- The text of rules begins with an identifier, if with anything. -/
theorem head_buildGbnf {rules : List (String × String)} (h : ∀ r ∈ rules, IsIdent r.1) :
    ∀ b ∈ (bytes (buildGbnf rules)).head?, Grammar.isIdentStart b = true := by
  cases rules with
  | nil => exact nofun
  | cons r rules =>
    obtain ⟨b, t, hbytes, hb⟩ := (h r List.mem_cons_self).bytes
    rw [bytes_buildGbnf_cons, hbytes]
    rintro _ ⟨⟩
    exact hb

/-- The parser reads one rule. -/
theorem runs_parseRules_cons {name body : String} {ts : List Tok} {rules : List (String × String)}
    (hname : IsIdent name) (hbody : Spelled body ts) (hrules : ∀ r ∈ rules, IsIdent r.1) {n : ℕ}
    {acc : AList fun _ : String => GrammarNode} {first : Option String}
    {r : AList (fun _ : String => GrammarNode) × Option String} {s' : List UInt8}
    (h : Runs (Grammar.parseRules n (acc.insert name (altNode (alts ts)))
      (first.or (some name))) (bytes (buildGbnf rules)) r s') :
    Runs (Grammar.parseRules (n + 1) acc first) (bytes (buildGbnf ((name, body) :: rules))) r
      s' := by
  have hends : Grammar.Ends (0x0a :: bytes (buildGbnf rules)) := ⟨0x0a, _, rfl, by simp⟩
  have hspaced : Grammar.Valid (.space :: ts) := hbody.2
  obtain ⟨ts', hdrop, hvalid, halts, -⟩ := Grammar.dropWhile_tokens hspaced hends
  have halts : alts ts' = alts ts := halts
  have hne : bytes name ≠ [] := by
    obtain ⟨b, t, hbytes, -⟩ := hname.bytes
    rw [hbytes]
    exact List.cons_ne_nil b t
  have hcolon : ∀ text : List UInt8, (0x20 :: 0x3a :: text).dropWhile Grammar.isInlineWs =
      0x3a :: text := fun _ => rfl
  rw [bytes_buildGbnf_cons, hbody.1, Grammar.parseRules]
  refine runs_get fun _ => ?_
  rw [if_neg fun happend => hne (List.append_eq_nil_iff.mp happend).1]
  refine (Grammar.runs_parseIdent hname (by rintro _ ⟨⟩; rfl)).bind ?_
  refine (Grammar.runs_skipInlineWs _).bind ?_
  have hassign : ∀ text : List UInt8,
      ((0x3a :: 0x3a :: 0x3d :: text).take 3).map Grammar.asChar = [':', ':', '='] := fun _ => rfl
  rw [hcolon]
  refine runs_get fun _ => ?_
  dsimp only
  rw [if_pos (hassign _)]
  refine Runs.bind (fun pos => ⟨pos + 3, rfl⟩) ?_
  refine (Grammar.runs_skipInlineWs _).bind ?_
  show Runs _ ((textOf (.space :: ts) ++ 0x0a :: bytes (buildGbnf rules)).dropWhile
    Grammar.isInlineWs) r s'
  rw [hdrop]
  refine (Grammar.runs_rounds _).bind ?_
  refine (Grammar.runs_alternation hvalid hends ?_).bind ?_
  · rw [List.length_append]
    omega
  rw [halts]
  exact (runs_skipWsAndComments_newline (head_buildGbnf hrules)).bind h

/-- **The parser reads rules as a grammar that has the names of the rules**, each with the body
of a rule of that name. -/
theorem runs_parseRules {rules : List (String × String)} (hident : ∀ r ∈ rules, IsIdent r.1)
    (hshape : ∀ r ∈ rules, Shape r.2) {n : ℕ} (hn : rules.length < n)
    (acc : AList fun _ : String => GrammarNode) (first : Option String) :
    ∃ acc', Runs (Grammar.parseRules n acc first) (bytes (buildGbnf rules))
        (acc', first.or (rules.head?.map Prod.fst)) [] ∧
      (∀ name ∉ rules.map Prod.fst, acc'.lookup name = acc.lookup name) ∧
      ∀ name ∈ rules.map Prod.fst, ∃ body, (name, body) ∈ rules ∧
        ∀ ts, Spelled body ts → acc'.lookup name = some (altNode (alts ts)) := by
  induction rules generalizing n acc first with
  | nil =>
    obtain ⟨n, rfl⟩ : ∃ k, n = k + 1 := ⟨n - 1, by omega⟩
    refine ⟨acc, ?_, fun _ _ => rfl, nofun⟩
    rw [List.head?_nil, Option.map_none, Option.or_none]
    exact fun pos => ⟨pos, rfl⟩
  | cons r rules ih =>
    obtain ⟨name, body⟩ := r
    obtain ⟨n, rfl⟩ : ∃ k, n = k + 1 := ⟨n - 1, by omega⟩
    rw [List.length_cons] at hn
    obtain ⟨ts, hts⟩ := hshape _ List.mem_cons_self
    have hident' := fun r hr => hident r (List.mem_cons_of_mem (name, body) hr)
    obtain ⟨acc', hrun, hold, hnew⟩ := ih hident'
      (fun r hr => hshape r (List.mem_cons_of_mem _ hr)) (n := n) (by omega)
      (acc.insert name (altNode (alts ts))) (first.or (some name))
    refine ⟨acc', ?_, ?_, ?_⟩
    · have hfirst : (first.or (some name)).or (rules.head?.map Prod.fst) =
          first.or (some name) := by
        cases first <;> rfl
      rw [hfirst] at hrun
      exact runs_parseRules_cons (hident _ List.mem_cons_self) hts hident' hrun
    · intro other hother
      rw [List.map_cons, List.mem_cons, not_or] at hother
      rw [hold other hother.2, AList.lookup_insert_ne hother.1]
    · intro other hother
      -- a later rule of the same name replaces this one
      by_cases hlater : other ∈ rules.map Prod.fst
      · obtain ⟨body', hmem, hbody'⟩ := hnew other hlater
        exact ⟨body', List.mem_cons_of_mem _ hmem, hbody'⟩
      · rw [List.map_cons, List.mem_cons] at hother
        obtain rfl := hother.resolve_right hlater
        refine ⟨body, List.mem_cons_self, fun ts' hts' => ?_⟩
        rw [hold _ hlater, AList.lookup_insert, Grammar.altNode_unique hts hts']

end Rules

/-! ### Grammars -/

theorem isIdent_root : IsIdent "root" := isIdent_of_all rfl rfl rfl

/-- `g` has the names of the rules and no others, each with the body of a rule of that name. -/
structure Collects (g : Grammar) (rules : List (String × String)) : Prop where
  absent : ∀ name ∉ rules.map Prod.fst, g.rules.lookup name = none
  present : ∀ name ∈ rules.map Prod.fst, ∃ body, (name, body) ∈ rules ∧
    ∀ ts, Spelled body ts → g.rules.lookup name = some (altNode (alts ts))

/-- If the names are different, each rule is defined as it stands. -/
theorem Collects.defines {g : Grammar} {rules : List (String × String)} (h : Collects g rules)
    (hnodup : (rules.map Prod.fst).Nodup) : Defines g rules := by
  intro r hr ts hts
  obtain ⟨body, hmem, hbody⟩ := h.present r.1 (List.mem_map_of_mem hr)
  have hsame : (r.1, body) = r := List.inj_on_of_nodup_map hnodup hmem hr rfl
  rw [← hsame] at hts
  exact hbody ts hts

/-- The parser reads the text of rules, the first of which is the root rule. -/
theorem parse_buildGbnf {body : String} {rules : List (String × String)}
    (hident : ∀ r ∈ ("root", body) :: rules, IsIdent r.1)
    (hshape : ∀ r ∈ ("root", body) :: rules, Shape r.2) :
    ∃ g, Grammar.parse (buildGbnf (("root", body) :: rules)) = .ok g ∧ g.root = "root" ∧
      Collects g (("root", body) :: rules) := by
  set all := ("root", body) :: rules with hall
  have hlength : ∀ rules : List (String × String),
      rules.length ≤ (bytes (buildGbnf rules)).length := by
    intro rules
    induction rules with
    | nil => exact Nat.zero_le _
    | cons r rules ih =>
      rw [bytes_buildGbnf_cons]
      simp only [List.length_append, List.length_cons]
      omega
  obtain ⟨acc, hrun, habsent, hpresent⟩ := runs_parseRules hident hshape
    (n := (bytes (buildGbnf all)).length + 1) (Nat.lt_succ_of_le (hlength all)) ∅ none
  obtain ⟨node, hroot⟩ : ∃ node, acc.lookup "root" = some node := by
    obtain ⟨body', hmem, hbody'⟩ := hpresent "root" List.mem_cons_self
    obtain ⟨ts, hts⟩ := hshape _ hmem
    exact ⟨_, hbody' ts hts⟩
  have hkeys : acc.keys ≠ [] := by
    intro hnil
    have hmem : "root" ∈ acc := AList.lookup_isSome.mp (by rw [hroot]; rfl)
    rw [AList.mem_keys, hnil] at hmem
    cases hmem
  have hparse : Runs Grammar.parseGrammar (bytes (buildGbnf all))
      { rules := acc, root := "root", source := "" } [] := by
    refine (runs_skipWsAndComments_stop (head_buildGbnf hident)).bind ?_
    refine (Grammar.runs_rounds _).bind (hrun.bind ?_)
    dsimp only
    rw [if_neg hkeys, hroot]
    exact Grammar.runs_pure _ _
  obtain ⟨pos, hpos⟩ := hparse 0
  refine ⟨{ rules := acc, root := "root", source := buildGbnf all }, ?_, rfl, habsent, hpresent⟩
  rw [Grammar.parse, Grammar.toUTF8_eq_bytes, hpos]
  rfl

/-- **Whatever the compiler accepts is read by the parser**, as a grammar that defines the
rules of the compiler and starts with the root rule; whatever is inlined. -/
theorem parse_of_compileValueToGbnfWith {inline : String → Bool} {schema : Value} {text : String}
    (h : compileValueToGbnfWith inline schema = .ok text) :
    ∃ g body c, Grammar.parse text = .ok g ∧ g.root = "root" ∧
      compileSchemaWith inline (schema.depth + 1) schema ⟨[], 0⟩ = .ok (body, c) ∧
      Defines g (("root", body) :: c.rules) := by
  cases hroot : compileRootWith inline schema ⟨[], 0⟩ with
  | error e =>
    change (compileRootWith inline schema ⟨[], 0⟩ >>= _) = _ at h
    rw [hroot] at h
    cases h
  | ok r =>
    change (compileRootWith inline schema ⟨[], 0⟩ >>= _) = _ at h
    rw [hroot] at h
    cases h
    obtain ⟨_, c'⟩ := r
    obtain ⟨body, c, hrun, hr⟩ := ok_bind hroot
    cases hr
    obtain ⟨-, hkeeps, hbody⟩ := keeps_compileSchemaWith _ _ schema hrun
    have hinv := hkeeps inv_empty
    have hnew : "root" ∉ c.rules.map Prod.fst := by
      intro hmem
      obtain ⟨r, hr, hname⟩ := List.mem_map.mp hmem
      rcases hinv.names r hr with hhelper | ⟨k, -, hrule⟩
      · rw [hname] at hhelper
        revert hhelper
        decide
      · exact ruleName_ne List.mem_cons_self k (hrule.symm.trans hname)
    have hident : ∀ r ∈ ("root", body) :: c.rules, IsIdent r.1 :=
      List.forall_mem_cons.mpr ⟨isIdent_root, hinv.isIdent⟩
    have hshape : ∀ r ∈ ("root", body) :: c.rules, Shape r.2 :=
      List.forall_mem_cons.mpr ⟨hbody, hinv.shapes⟩
    obtain ⟨g, hparse, hstart, hcollects⟩ := parse_buildGbnf hident hshape
    exact ⟨g, body, c, hparse, hstart, hrun,
      hcollects.defines (List.nodup_cons.mpr ⟨hnew, hinv.nodup⟩)⟩

theorem parse_of_compileValueToGbnf {schema : Value} {text : String}
    (h : compileValueToGbnf schema = .ok text) :
    ∃ g body c, Grammar.parse text = .ok g ∧ g.root = "root" ∧
      compileSchema (schema.depth + 1) schema ⟨[], 0⟩ = .ok (body, c) ∧
      Defines g (("root", body) :: c.rules) := by
  rw [← compileValueToGbnfWith_isInlineExpr] at h
  simpa only [compileSchemaWith_isInlineExpr] using parse_of_compileValueToGbnfWith h

end Schema

end Oxillama
