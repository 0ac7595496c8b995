/-
The pieces of the schema compiler's texts, read by the grammar parser on their own.

* `Bounds min max k` — `k` is between the bounds;
* `Repeated g r k w` — `w` is `k` sentences of the rule `r`, one after the other;
* `Listed g item ws k w` — the same for a list, with commas and whitespace between them;
* `escaped_literal_parses` — an escaped string between quotation marks is read as its bytes;
* `bounded_languages` — **what `bounded_repeat` and `bounded_list` write is read as an
  expression for just as many sentences as the bounds allow**, whatever the rules are.
-/
import Oxillama.Schema.Languages
import Oxillama.Schema.Parsed

namespace Oxillama

namespace Schema

open scoped Computability
open Grammar (Denotes Stands Spelled alts altNode bytes IsIdent Generates GrammarNode)

/-- The parser reads the text of a single rule. -/
theorem parse_root {body : String} {ts : List Grammar.Tok} (hbody : Spelled body ts) :
    ∃ g, Grammar.parse (buildGbnf [("root", body)]) = .ok g ∧
      g.rootNode = .ok (altNode (alts ts)) := by
  obtain ⟨g, hparse, hroot, hcollects⟩ := @parse_buildGbnf body []
    (List.forall_mem_singleton.mpr isIdent_root) (List.forall_mem_singleton.mpr ⟨ts, hbody⟩)
  have hdefines := hcollects.defines (List.nodup_singleton "root")
  refine ⟨g, hparse, ?_⟩
  rw [Grammar.rootNode, hroot, hdefines _ List.mem_cons_self ts hbody]

/-- **An escaped string is read as the bytes of the string.** -/
theorem escaped_literal_parses (s : String) :
    ∃ g, Grammar.parse (buildGbnf [("root", "\"" ++ escapeGbnfLiteral s ++ "\"")]) = .ok g ∧
      g.rootNode = .ok (.literal s.toUTF8.data.toList) := by
  obtain ⟨g, hparse, hroot⟩ := parse_root (Grammar.spelled_literal s.toList)
  refine ⟨g, hparse, ?_⟩
  rw [hroot, Grammar.toUTF8_eq_bytes]
  rfl

/-! ### Counting -/

/-- The bounds allow `k` of them. -/
def Bounds (min : ℕ) (max : Option ℕ) (k : ℕ) : Prop := min ≤ k ∧ ∀ m, max = some m → k ≤ m

/-- `w` is `k` sentences of the rule `r`, one after the other. -/
inductive Repeated (g : Grammar) (r : String) : ℕ → List UInt8 → Prop
  | nil : Repeated g r 0 []
  | cons {k : ℕ} {u v : List UInt8} (hu : Generates g (.ruleRef r) u) (hv : Repeated g r k v) :
      Repeated g r (k + 1) (u ++ v)

/-- `s` is a comma between two sentences of the rule `ws`. -/
def Separates (g : Grammar) (ws : String) (s : List UInt8) : Prop :=
  ∃ a b, Generates g (.ruleRef ws) a ∧ Generates g (.ruleRef ws) b ∧ s = a ++ bytes "," ++ b

/-- `w` is `k` sentences of the rule `item`, with a separator between one and the next. -/
inductive Listed (g : Grammar) (item ws : String) : ℕ → List UInt8 → Prop
  | nil : Listed g item ws 0 []
  | single {u : List UInt8} (hu : Generates g (.ruleRef item) u) : Listed g item ws 1 u
  | cons {k : ℕ} {u s v : List UInt8} (hu : Generates g (.ruleRef item) u)
      (hs : Separates g ws s) (hv : Listed g item ws (k + 1) v) :
      Listed g item ws (k + 2) (u ++ s ++ v)

/-! ### Powers -/

section Powers

variable {A : Language UInt8} {w : List UInt8}

theorem mem_upTo {n : ℕ} : w ∈ upTo A n ↔ ∃ k ≤ n, w ∈ A ^ k := by
  induction n generalizing w with
  | zero =>
    constructor
    · intro h
      exact ⟨0, le_rfl, h⟩
    · rintro ⟨k, hk, h⟩
      rwa [Nat.le_zero.mp hk] at h
  | succ n ih =>
    rw [upTo, Language.mem_add, Language.mem_mul]
    constructor
    · rintro (h | ⟨u, hu, v, hv, rfl⟩)
      · exact ⟨0, Nat.zero_le _, h⟩
      · obtain ⟨k, hk, hv⟩ := ih.mp hv
        refine ⟨k + 1, Nat.succ_le_succ hk, ?_⟩
        rw [pow_succ']
        exact Language.append_mem_mul hu hv
    · rintro ⟨k, hk, h⟩
      cases k with
      | zero => exact .inl h
      | succ k =>
        rw [pow_succ', Language.mem_mul] at h
        obtain ⟨u, hu, v, hv, rfl⟩ := h
        exact .inr ⟨u, hu, v, ih.mpr ⟨k, Nat.le_of_succ_le_succ hk, hv⟩, rfl⟩

theorem mem_kstar_iff_pow : w ∈ A∗ ↔ ∃ k, w ∈ A ^ k := by
  rw [Language.kstar_eq_iSup_pow, Language.mem_iSup]

/-- Between the bounds, so many times in a row. -/
theorem mem_repeatLang {min : ℕ} {max : Option ℕ} (hle : ∀ m, max = some m → min ≤ m) :
    w ∈ repeatLang A min max ↔ ∃ k, Bounds min max k ∧ w ∈ A ^ k := by
  have hsplit : ∀ {T : Language UInt8} {P : ℕ → Prop}, (∀ v, v ∈ T ↔ ∃ k, P k ∧ v ∈ A ^ k) →
      (w ∈ A ^ min * T ↔ ∃ k, P k ∧ w ∈ A ^ (min + k)) := by
    intro T P hT
    rw [Language.mem_mul]
    constructor
    · rintro ⟨u, hu, v, hv, rfl⟩
      obtain ⟨k, hk, hv⟩ := (hT v).mp hv
      refine ⟨k, hk, ?_⟩
      rw [pow_add]
      exact Language.append_mem_mul hu hv
    · rintro ⟨k, hk, h⟩
      rw [pow_add, Language.mem_mul] at h
      obtain ⟨u, hu, v, hv, rfl⟩ := h
      exact ⟨u, hu, v, (hT v).mpr ⟨k, hk, hv⟩, rfl⟩
  cases max with
  | none =>
    rw [repeatLang, hsplit (P := fun _ => True) fun v => by simp [mem_kstar_iff_pow]]
    constructor
    · rintro ⟨k, -, h⟩
      refine ⟨min + k, ⟨Nat.le_add_right _ _, ?_⟩, h⟩
      rintro _ ⟨⟩
    · rintro ⟨k, ⟨hmin, -⟩, h⟩
      obtain ⟨k, rfl⟩ := Nat.exists_eq_add_of_le hmin
      exact ⟨k, trivial, h⟩
  | some m =>
    have hmin := hle m rfl
    rw [repeatLang, hsplit (P := (· ≤ m - min)) fun v => mem_upTo]
    constructor
    · rintro ⟨k, hk, h⟩
      refine ⟨min + k, ⟨Nat.le_add_right _ _, ?_⟩, h⟩
      rintro _ ⟨⟩
      omega
    · rintro ⟨k, ⟨hk, hmax⟩, h⟩
      obtain ⟨k, rfl⟩ := Nat.exists_eq_add_of_le hk
      have hm := hmax m rfl
      exact ⟨k, by omega, h⟩

end Powers

/-! ### Rules -/

section Rules

variable {g : Grammar} {r item ws : String} {w : List UInt8}

/-- The sentences of a rule. -/
def sentencesOf (g : Grammar) (r : String) : Language UInt8 := {w | Generates g (.ruleRef r) w}

/-- The separators. -/
def separators (g : Grammar) (ws : String) : Language UInt8 := {s | Separates g ws s}

theorem stands_rule (hr : IsIdent r) : Stands g r (sentencesOf g r) :=
  Grammar.stands_item (Grammar.spelled_ref hr) fun _ => Iff.rfl

theorem stands_separators (hws : IsIdent ws) :
    Stands g (ws ++ " \",\" " ++ ws) (separators g ws) := by
  have hseq := ((stands_rule (g := g) hws).seq (stands_lit [','])).seq (stands_rule (g := g) hws)
  have hlang : sentencesOf g ws * lit [','] * sentencesOf g ws = separators g ws := by
    ext s
    show s ∈ sentencesOf g ws * lit [','] * sentencesOf g ws ↔ Separates g ws s
    rw [Language.mem_mul]
    constructor
    · rintro ⟨_, hleft, b, hb, rfl⟩
      obtain ⟨a, ha, _, rfl, rfl⟩ := Language.mem_mul.mp hleft
      exact ⟨a, b, ha, hb, rfl⟩
    · rintro ⟨a, b, ha, hb, rfl⟩
      exact ⟨_, Language.append_mem_mul ha rfl, b, hb, rfl⟩
  rw [← hlang]
  refine hseq.congr ?_
  simp only [Grammar.bytes_append, List.append_assoc]
  rfl

theorem repeated_iff {k : ℕ} : Repeated g r k w ↔ w ∈ sentencesOf g r ^ k := by
  induction k generalizing w with
  | zero =>
    rw [pow_zero, Language.mem_one]
    constructor
    · rintro ⟨⟩
      rfl
    · rintro rfl
      exact .nil
  | succ k ih =>
    rw [pow_succ', Language.mem_mul]
    constructor
    · rintro ⟨⟩
      exact ⟨_, ‹_›, _, ih.mp ‹_›, rfl⟩
    · rintro ⟨u, hu, v, hv, rfl⟩
      exact .cons hu (ih.mpr hv)

theorem listed_succ_iff {k : ℕ} : Listed g item ws (k + 1) w ↔
    w ∈ sentencesOf g item * (separators g ws * sentencesOf g item) ^ k := by
  induction k generalizing w with
  | zero =>
    rw [pow_zero, mul_one]
    constructor
    · rintro ⟨⟩
      assumption
    · exact .single
  | succ k ih =>
    rw [pow_succ', mul_assoc, Language.mem_mul]
    constructor
    · rintro ⟨⟩
      rename_i u s v hu hs hv
      refine ⟨u, hu, s ++ v, Language.append_mem_mul hs (ih.mp hv), ?_⟩
      rw [List.append_assoc]
    · rintro ⟨u, hu, _, htail, rfl⟩
      obtain ⟨s, hs, v, hv, rfl⟩ := Language.mem_mul.mp htail
      rw [← List.append_assoc]
      exact .cons hu hs (ih.mpr hv)

/-- A list that is not empty. -/
theorem mem_nonempty_iff {min : ℕ} {max : Option ℕ} (hle : ∀ m, max = some m → min ≤ m) :
    w ∈ sentencesOf g item * repeatLang (separators g ws * sentencesOf g item) min max ↔
      ∃ k, Bounds min max k ∧ Listed g item ws (k + 1) w := by
  simp only [listed_succ_iff, Language.mem_mul, mem_repeatLang hle]
  constructor
  · rintro ⟨u, hu, v, ⟨k, hk, hv⟩, rfl⟩
    exact ⟨k, hk, u, hu, v, hv, rfl⟩
  · rintro ⟨k, hk, u, hu, v, hv, rfl⟩
    exact ⟨u, hu, v, ⟨k, hk, hv⟩, rfl⟩

theorem mem_separatedLang {min : ℕ} {max : Option ℕ} (hle : ∀ m, max = some m → min ≤ m) :
    w ∈ separatedLang (separators g ws) (sentencesOf g item) min max ↔
      ∃ k, Bounds min max k ∧ Listed g item ws k w := by
  have hnil : Listed g item ws 0 w ↔ w = [] :=
    ⟨fun h => by cases h; rfl, fun h => h ▸ .nil⟩
  unfold separatedLang
  split
  · -- no items
    rename_i hmax
    obtain rfl := hmax
    rw [Language.mem_one, ← hnil]
    constructor
    · intro h
      exact ⟨0, ⟨hle 0 rfl, fun m hm => Option.some.inj hm ▸ le_rfl⟩, h⟩
    · rintro ⟨k, ⟨-, hk⟩, h⟩
      rwa [Nat.le_zero.mp (hk 0 rfl)] at h
  · rename_i hmax
    have hpred : ∀ k, Bounds (min - 1) (max.map (· - 1)) k ↔ Bounds min max (k + 1) := by
      intro k
      constructor
      · rintro ⟨hmin, hbound⟩
        refine ⟨by omega, fun m hm => ?_⟩
        have hm' := hbound (m - 1) (by rw [hm]; rfl)
        have hne : m ≠ 0 := fun hzero => hmax (hzero ▸ hm)
        omega
      · rintro ⟨hmin, hbound⟩
        refine ⟨by omega, fun m hm => ?_⟩
        obtain ⟨m, rfl, rfl⟩ := Option.map_eq_some_iff.mp hm
        have hm' := hbound m rfl
        omega
    have hle' : ∀ m, max.map (· - 1) = some m → min - 1 ≤ m := by
      intro m hm
      obtain ⟨m, rfl, rfl⟩ := Option.map_eq_some_iff.mp hm
      have hm' := hle m rfl
      omega
    have hsome := @mem_nonempty_iff g item ws w _ _ hle'
    simp only [hpred] at hsome
    split
    · rename_i hmin
      subst hmin
      rw [Language.mem_add, Language.mem_one, hsome, ← hnil]
      constructor
      · rintro (h | ⟨k, hk, h⟩)
        · exact ⟨0, ⟨le_rfl, fun m _ => Nat.zero_le m⟩, h⟩
        · exact ⟨k + 1, hk, h⟩
      · rintro ⟨k, hk, h⟩
        cases k with
        | zero => exact .inl h
        | succ k => exact .inr ⟨k, hk, h⟩
    · rename_i hmin
      rw [hsome]
      constructor
      · rintro ⟨k, hk, h⟩
        exact ⟨k + 1, hk, h⟩
      · rintro ⟨k, hk, h⟩
        obtain ⟨k, rfl⟩ : ∃ j, k = j + 1 := ⟨k - 1, by have := hk.1; omega⟩
        exact ⟨k, hk, h⟩

end Rules

/-- The text `e` is read as a node that generates, under any rules, the byte strings in the
language that `e` stands for. -/
theorem parse_stands {e : String} {L : Grammar → Language UInt8} (h : ∀ g, Stands g e (L g)) :
    ∃ parsed node, Grammar.parse (buildGbnf [("root", e)]) = .ok parsed ∧
      parsed.rootNode = .ok node ∧ ∀ g w, Generates g node w ↔ w ∈ L g := by
  obtain ⟨ts, hts, -, -⟩ := h ⟨∅, "", ""⟩
  obtain ⟨parsed, hparse, hroot⟩ := parse_root hts
  refine ⟨parsed, _, hparse, hroot, fun g w => ?_⟩
  obtain ⟨ts', hts', -, hw⟩ := h g
  rw [Grammar.altNode_unique hts hts', Grammar.generates_altNode]
  exact hw w

/-- **Bounds are exact.**  Under any rules, what `bounded_repeat` writes for a rule generates
its sentences one after the other, and what `bounded_list` writes its sentences with commas and
whitespace between them: each as many of them as the bounds allow, none exactly if the lower
bound is zero. -/
theorem bounded_languages {r ws : String} (hr : IsIdent r) (hws : IsIdent ws) {min : ℕ}
    {max : Option ℕ} (hle : ∀ m, max = some m → min ≤ m) :
    (∃ parsed node, Grammar.parse (buildGbnf [("root", boundedRepeat r min max)]) = .ok parsed ∧
      parsed.rootNode = .ok node ∧
      ∀ g w, Generates g node w ↔ ∃ k, Bounds min max k ∧ Repeated g r k w) ∧
    (∃ parsed node, Grammar.parse (buildGbnf [("root", boundedList r ws min max)]) = .ok parsed ∧
      parsed.rootNode = .ok node ∧
      ∀ g w, Generates g node w ↔ ∃ k, Bounds min max k ∧ Listed g r ws k w) ∧
    (Bounds min max 0 ↔ min = 0) := by
  refine ⟨?_, ?_, ?_⟩
  · obtain ⟨parsed, node, hparse, hroot, hgen⟩ := parse_stands fun g =>
      stands_boundedRepeat (stands_rule (g := g) hr) min max
    refine ⟨parsed, node, hparse, hroot, fun g w => ?_⟩
    simp only [hgen, mem_repeatLang hle, repeated_iff]
  · obtain ⟨parsed, node, hparse, hroot, hgen⟩ := parse_stands fun g =>
      stands_separatedList (stands_separators (g := g) hws) (stands_rule hr) min max
    refine ⟨parsed, node, hparse, hroot, fun g w => ?_⟩
    rw [hgen, mem_separatedLang hle]
  · constructor
    · rintro ⟨hmin, -⟩
      exact Nat.le_zero.mp hmin
    · rintro rfl
      exact ⟨le_rfl, fun m _ => Nat.zero_le m⟩

/-- Up to two items, in a grammar where there is whitespace. -/
theorem bounded_languages_two :
    (∃ parsed node, Grammar.parse (buildGbnf [("root", boundedRepeat "item" 0 (some 2))]) =
        .ok parsed ∧ parsed.rootNode = .ok node ∧
      ∀ g w, Generates g node w ↔ ∃ k, Bounds 0 (some 2) k ∧ Repeated g "item" k w) ∧
    (∃ parsed node, Grammar.parse (buildGbnf [("root", boundedList "item" "ws" 0 (some 2))]) =
        .ok parsed ∧ parsed.rootNode = .ok node ∧
      ∀ g w, Generates g node w ↔ ∃ k, Bounds 0 (some 2) k ∧ Listed g "item" "ws" k w) ∧
    (Bounds 0 (some 2) 0 ↔ 0 = 0) :=
  bounded_languages (Grammar.isIdent_of_all rfl rfl rfl) (Grammar.isIdent_of_all rfl rfl rfl)
    fun m _ => Nat.zero_le m

end Schema

end Oxillama
