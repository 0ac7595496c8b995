/-
What the grammar mask leaves of the logits
(`oxillama-runtime/src/sampling/grammar/machine.rs`, `apply_grammar_mask`).

The mask goes through the table of the tokens and not through the logits, so that an index
behind the table, of a padded vocabulary, keeps its logit whatever the grammar says.

* `scanned_vocab` — what the loop has done to every index when it is through;
* `applyGrammarMask_exact` — **the mask is exact on the tokens of the table**, and leaves every
  other index alone;
* `exact_iff_covered` — it is exact on all indices when the table has every finite one.
-/
import Oxillama.Grammar.Decoding
import Oxillama.Sampling.Sampler

namespace Oxillama

namespace Sampling

/-! ### Tokens that may be drawn -/

/-- The index is that of a token of the table. -/
def Listed (vocab : TokenVocab) (i : ℕ) : Prop := ∃ entry ∈ vocab, entry.1.toNat = i

/-- The index is that of a token whose bytes the state allows.  A table has each token once; of
one that had it twice, both entries count. -/
structure Allows (state : GrammarState) (vocab : TokenVocab) (i : ℕ) : Prop where
  listed : Listed vocab i
  bytes : ∀ entry ∈ vocab, entry.1.toNat = i → state.allowsTokenChecked entry.2 = .ok true

/-- The index is that of an end-of-generation token, and the grammar is complete. -/
def Ends (state : GrammarState) (eogTokenIds : List UInt32) (i : ℕ) : Prop :=
  state.isComplete = true ∧ ∃ token ∈ eogTokenIds, token.toNat = i

/-- The index is the one that was given its logit back: no index that may be drawn had a finite
logit, and of the tokens that had one it is the best. -/
structure Restored (state : GrammarState) (vocab : TokenVocab) (eogTokenIds : List UInt32)
    (before after : List Kv.F32) (i : ℕ) : Prop where
  listed : Listed vocab i
  exhausted : ∀ j x, Allows state vocab j ∨ Ends state eogTokenIds j → before[j]? = some x →
    isFinite x = false
  best : ∃ y, before[i]? = some y ∧ after[i]? = some y ∧ isFinite y = true ∧
    ∀ j x, Listed vocab j → before[j]? = some x → isFinite x = true → rank x ≤ rank y
  single : ∀ j x, after[j]? = some x → isFinite x = true → j = i

/-- **The mask is exact** on the indices of `on`. -/
structure ExactOn (on : ℕ → Prop) (state : GrammarState) (vocab : TokenVocab)
    (eogTokenIds : List UInt32) (before after : List Kv.F32) : Prop where
  finite : ∀ i x, on i → after[i]? = some x → isFinite x = true →
    Allows state vocab i ∨ Ends state eogTokenIds i ∨
      Restored state vocab eogTokenIds before after i
  kept : ∀ i, Allows state vocab i ∨ Ends state eogTokenIds i → after[i]? = before[i]?

/-! ### The loop -/

/-- Whether the loop leaves the logit of a token alone. -/
def permits (state : GrammarState) (eogTokenIds : List UInt32) (entry : UInt32 × List UInt8) :
    Bool :=
  if state.isComplete && eogTokenIds.contains entry.1 then true
  else match state.allowsTokenChecked entry.2 with
    | .ok allowed => allowed
    | .error _ => false

/-- No entry of the table that was gone through masks the index. -/
def Passes (state : GrammarState) (eogTokenIds : List UInt32) (seen : TokenVocab) (i : ℕ) :
    Prop :=
  ∀ entry ∈ seen, entry.1.toNat = i → permits state eogTokenIds entry = true

variable {state : GrammarState} {vocab seen : TokenVocab} {eogTokenIds : List UInt32}
  {before : List Kv.F32} {entry : UInt32 × List UInt8} {scan : MaskScan} {i : ℕ}

theorem listed_append_singleton :
    Listed (seen ++ [entry]) i ↔ Listed seen i ∨ entry.1.toNat = i := by
  simp only [Listed, List.mem_append, List.mem_singleton, or_and_right, exists_or,
    exists_eq_left]

theorem passes_append_singleton :
    Passes state eogTokenIds (seen ++ [entry]) i ↔
      Passes state eogTokenIds seen i ∧
        (entry.1.toNat = i → permits state eogTokenIds entry = true) := by
  simp only [Passes, List.mem_append, List.mem_singleton, or_imp, forall_and, forall_eq]

theorem passes_of_not_listed (h : ¬ Listed seen i) : Passes state eogTokenIds seen i :=
  fun entry hentry hi => absurd ⟨entry, hentry, hi⟩ h

/-- An index that ends the generation is left alone by every entry. -/
theorem passes_of_ends (h : Ends state eogTokenIds i) : Passes state eogTokenIds seen i := by
  intro entry hentry hi
  obtain ⟨hcomplete, token, htoken, htoNat⟩ := h
  obtain rfl : token = entry.1 := UInt32.toNat_inj.1 (htoNat.trans hi.symm)
  rw [permits, if_pos]
  simpa [hcomplete] using htoken

theorem passes_of_allows (h : Allows state vocab i) : Passes state eogTokenIds vocab i := by
  intro entry hentry hi
  rw [permits, h.bytes entry hentry hi]
  exact ite_self true

/-- A token that every entry leaves alone may be drawn. -/
theorem allows_or_ends_of_passes (hlisted : Listed vocab i)
    (h : Passes state eogTokenIds vocab i) : Allows state vocab i ∨ Ends state eogTokenIds i := by
  by_cases hends : Ends state eogTokenIds i
  · exact .inr hends
  · refine .inl ⟨hlisted, fun entry hentry hi => ?_⟩
    have hpermits := h entry hentry hi
    have hnot : ¬ (state.isComplete && eogTokenIds.contains entry.1) = true := by
      intro hand
      simp only [Bool.and_eq_true, List.contains_iff_mem] at hand
      exact hends ⟨hand.1, entry.1, hand.2, hi⟩
    rw [permits, if_neg hnot] at hpermits
    split at hpermits
    · next allowed hallowed => rw [hallowed, hpermits]
    · cases hpermits

/-- The loop has gone through `seen`. -/
structure Scanned (state : GrammarState) (eogTokenIds : List UInt32) (before : List Kv.F32)
    (seen : TokenVocab) (scan : MaskScan) : Prop where
  kept : ∀ i, Passes state eogTokenIds seen i → scan.logits[i]? = before[i]?
  masked : ∀ i, ¬ Passes state eogTokenIds seen i →
    scan.logits[i]? = before[i]?.map fun _ => negInfinity
  unseen : scan.best = none → ∀ i x, Listed seen i → before[i]? = some x → isFinite x = false
  best : ∀ j y, scan.best = some (j, y) →
    Listed seen j ∧ before[j]? = some y ∧ isFinite y = true ∧
      ∀ i x, Listed seen i → before[i]? = some x → isFinite x = true → rank x ≤ rank y

theorem scanned_nil : Scanned state eogTokenIds before [] ⟨before, none⟩ where
  kept _ _ := rfl
  masked i h := absurd (passes_of_not_listed (by rintro ⟨_, hmem, -⟩; cases hmem)) h
  unseen _ i x h := by
    obtain ⟨_, hmem, -⟩ := h
    cases hmem
  best j y h := by cases h

/-- The logit of an index that the loop has reached is finite only where it is the one before. -/
theorem Scanned.before_of_finite (h : Scanned state eogTokenIds before seen scan) {x : Kv.F32}
    (hx : scan.logits[i]? = some x) (hfinite : isFinite x = true) : before[i]? = some x := by
  by_cases hp : Passes state eogTokenIds seen i
  · rw [← h.kept i hp]
    exact hx
  · rw [h.masked i hp] at hx
    obtain ⟨y, -, rfl⟩ := Option.map_eq_some_iff.1 hx
    exact absurd hfinite (by decide)

theorem Scanned.lookup_eq_none (h : Scanned state eogTokenIds before seen scan)
    (hx : scan.logits[i]? = none) : before[i]? = none := by
  by_cases hp : Passes state eogTokenIds seen i
  · rw [← h.kept i hp]
    exact hx
  · rw [h.masked i hp] at hx
    exact Option.map_eq_none_iff.1 hx

/-- An entry without a logit changes nothing. -/
theorem Scanned.skip (h : Scanned state eogTokenIds before seen scan)
    (hnone : scan.logits[entry.1.toNat]? = none) :
    Scanned state eogTokenIds before (seen ++ [entry]) scan := by
  have hbefore := h.lookup_eq_none hnone
  refine ⟨fun i hp => h.kept i (passes_append_singleton.1 hp).1, fun i hp => ?_,
    fun hbest i x hlisted hx => ?_, fun j y hbest => ?_⟩
  · by_cases hseen : Passes state eogTokenIds seen i
    · obtain rfl : entry.1.toNat = i := by
        by_contra hne
        exact hp (passes_append_singleton.2 ⟨hseen, fun heq => absurd heq hne⟩)
      rw [hnone, hbefore]
      rfl
    · exact h.masked i hseen
  · rcases listed_append_singleton.1 hlisted with hseen | rfl
    · exact h.unseen hbest i x hseen hx
    · rw [hbefore] at hx
      cases hx
  · obtain ⟨hlisted, hy, hfinite, hall⟩ := h.best j y hbest
    refine ⟨listed_append_singleton.2 (.inl hlisted), hy, hfinite, fun i x hlisted hx hfin => ?_⟩
    rcases listed_append_singleton.1 hlisted with hseen | rfl
    · exact hall i x hseen hx hfin
    · rw [hbefore] at hx
      cases hx

/-- What an entry does to the logits. -/
theorem Scanned.logits_step (h : Scanned state eogTokenIds before seen scan) {logit : Kv.F32}
    (hlogit : scan.logits[entry.1.toNat]? = some logit) {logits : List Kv.F32}
    (hlogits : logits = if permits state eogTokenIds entry then scan.logits
      else scan.logits.set entry.1.toNat negInfinity) :
    (∀ i, Passes state eogTokenIds (seen ++ [entry]) i → logits[i]? = before[i]?) ∧
      ∀ i, ¬ Passes state eogTokenIds (seen ++ [entry]) i →
        logits[i]? = before[i]?.map fun _ => negInfinity := by
  obtain ⟨hlt, -⟩ := List.getElem?_eq_some_iff.1 hlogit
  -- An entry changes at most its own index.
  have hother {i : ℕ} (hne : entry.1.toNat ≠ i) : logits[i]? = scan.logits[i]? := by
    rw [hlogits]
    split
    · rfl
    · exact List.getElem?_set_ne hne
  refine ⟨fun i hp => ?_, fun i hp => ?_⟩
  · obtain ⟨hseen, hentry⟩ := passes_append_singleton.1 hp
    rw [← h.kept i hseen]
    by_cases hi : entry.1.toNat = i
    · rw [hlogits, if_pos (hentry hi)]
    · exact hother hi
  · by_cases hi : entry.1.toNat = i
    · subst hi
      by_cases hpermits : permits state eogTokenIds entry = true
      · rw [hlogits, if_pos hpermits]
        refine h.masked _ fun hseen => hp ?_
        exact passes_append_singleton.2 ⟨hseen, fun _ => hpermits⟩
      · rw [hlogits, if_neg hpermits, List.getElem?_set_self hlt]
        rcases hbefore : before[entry.1.toNat]? with - | x
        · have hpass : Passes state eogTokenIds seen entry.1.toNat ∨
              ¬ Passes state eogTokenIds seen entry.1.toNat := em _
          rcases hpass with hseen | hseen
          · rw [h.kept _ hseen, hbefore] at hlogit
            cases hlogit
          · rw [h.masked _ hseen, hbefore] at hlogit
            cases hlogit
        · rfl
    · rw [hother hi]
      refine h.masked i fun hseen => hp ?_
      exact passes_append_singleton.2 ⟨hseen, fun heq => absurd heq hi⟩

/-- An entry whose logit is finite and better than the best so far is the best now. -/
theorem Scanned.best_step (h : Scanned state eogTokenIds before seen scan) {logit : Kv.F32}
    (hlogit : scan.logits[entry.1.toNat]? = some logit) {best : Option (ℕ × Kv.F32)}
    (hbest : best = if isFinite logit && (match scan.best with
        | none => true
        | some (_, bestVal) => decide (rank bestVal < rank logit))
      then some (entry.1.toNat, logit) else scan.best) :
    (best = none → ∀ i x, Listed (seen ++ [entry]) i → before[i]? = some x →
      isFinite x = false) ∧
    ∀ j y, best = some (j, y) → Listed (seen ++ [entry]) j ∧ before[j]? = some y ∧
      isFinite y = true ∧ ∀ i x, Listed (seen ++ [entry]) i → before[i]? = some x →
        isFinite x = true → rank x ≤ rank y := by
  -- The entry's own logit is the one before, unless the token was reached already.
  have hown {x : Kv.F32} (hx : before[entry.1.toNat]? = some x) :
      Listed seen entry.1.toNat ∨ x = logit := by
    by_cases hseen : Listed seen entry.1.toNat
    · exact .inl hseen
    · refine .inr (Option.some.inj ?_)
      rw [← hx, ← h.kept _ (passes_of_not_listed hseen), hlogit]
  by_cases hnew : (isFinite logit && (match scan.best with
      | none => true
      | some (_, bestVal) => decide (rank bestVal < rank logit))) = true
  · rw [if_pos hnew] at hbest
    subst best
    obtain ⟨hfinite, hbetter⟩ := Bool.and_eq_true_iff.1 hnew
    have hbefore := h.before_of_finite hlogit hfinite
    refine ⟨nofun, fun j y heq => ?_⟩
    cases heq
    refine ⟨listed_append_singleton.2 (.inr rfl), hbefore, hfinite, fun i x hlisted hx hfin => ?_⟩
    rcases listed_append_singleton.1 hlisted with hseen | rfl
    · rcases hold : scan.best with - | ⟨j, y⟩
      · rw [h.unseen hold i x hseen hx] at hfin
        cases hfin
      · rw [hold] at hbetter
        obtain ⟨-, -, -, hall⟩ := h.best j y hold
        exact Int.le_trans (hall i x hseen hx hfin) (Int.le_of_lt (of_decide_eq_true hbetter))
    · rw [hbefore] at hx
      cases hx
      exact Int.le_refl _
  · rw [if_neg hnew] at hbest
    subst hbest
    refine ⟨fun hnone i x hlisted hx => ?_, fun j y hold => ?_⟩
    · rcases listed_append_singleton.1 hlisted with hseen | rfl
      · exact h.unseen hnone i x hseen hx
      · rcases hown hx with hseen | rfl
        · exact h.unseen hnone _ x hseen hx
        · rw [hnone] at hnew
          simpa using hnew
    · obtain ⟨hlisted, hy, hfinite, hall⟩ := h.best j y hold
      refine ⟨listed_append_singleton.2 (.inl hlisted), hy, hfinite,
        fun i x hlisted hx hfin => ?_⟩
      rcases listed_append_singleton.1 hlisted with hseen | rfl
      · exact hall i x hseen hx hfin
      · rcases hown hx with hseen | rfl
        · exact hall _ x hseen hx hfin
        · rw [hold, hfin] at hnew
          by_contra hle
          exact hnew (by simpa using hle)

theorem Scanned.step (h : Scanned state eogTokenIds before seen scan)
    (entry : UInt32 × List UInt8) :
    Scanned state eogTokenIds before (seen ++ [entry])
      (maskToken state state.isComplete eogTokenIds scan entry) := by
  rw [maskToken]
  rcases hlogit : scan.logits[entry.1.toNat]? with - | logit
  · exact h.skip hlogit
  · obtain ⟨hkept, hmasked⟩ := h.logits_step hlogit rfl
    obtain ⟨hunseen, hbest⟩ := h.best_step hlogit rfl
    exact ⟨hkept, hmasked, hunseen, hbest⟩

/-- The loop, when it is through. -/
theorem scanned_vocab (state : GrammarState) (eogTokenIds : List UInt32) (before : List Kv.F32)
    (vocab : TokenVocab) :
    Scanned state eogTokenIds before vocab
      (vocab.foldl (maskToken state state.isComplete eogTokenIds) ⟨before, none⟩) := by
  have hfold : ∀ (rest seen : TokenVocab) (scan : MaskScan),
      Scanned state eogTokenIds before seen scan →
      Scanned state eogTokenIds before (seen ++ rest)
        (rest.foldl (maskToken state state.isComplete eogTokenIds) scan) := by
    intro rest
    induction rest with
    | nil =>
      intro seen scan h
      rw [List.append_nil]
      exact h
    | cons entry rest ih =>
      intro seen scan h
      rw [List.append_cons]
      exact ih _ _ (h.step entry)
  exact hfold vocab [] _ scanned_nil

/-! ### The mask -/

/-- What the fallback does, if it is needed. -/
theorem applyGrammarMask_cases (before : List Kv.F32) (state : GrammarState) (vocab : TokenVocab)
    (eogTokenIds : List UInt32) : ∃ scan, Scanned state eogTokenIds before vocab scan ∧
      (applyGrammarMask before state vocab eogTokenIds = scan.logits ∧
          (scan.best = none ∨ ∃ x ∈ scan.logits, isFinite x = true) ∨
        ∃ i y, scan.best = some (i, y) ∧
          (∀ (j : ℕ) (x : Kv.F32), scan.logits[j]? = some x → isFinite x = false) ∧
          applyGrammarMask before state vocab eogTokenIds = scan.logits.set i y) := by
  refine ⟨_, scanned_vocab state eogTokenIds before vocab, ?_⟩
  rw [applyGrammarMask]
  generalize vocab.foldl (maskToken state state.isComplete eogTokenIds) ⟨before, none⟩ = scan
  rcases hbest : scan.best with - | ⟨i, y⟩
  · exact .inl ⟨rfl, .inl rfl⟩
  · by_cases hall : (scan.logits.all fun v => !isFinite v) = true
    · refine .inr ⟨i, y, rfl, fun j x hx => ?_, if_pos hall⟩
      simpa using List.all_eq_true.1 hall x (List.mem_of_getElem? hx)
    · refine .inl ⟨if_neg hall, .inr ?_⟩
      simpa using hall

variable (before : List Kv.F32) (state : GrammarState) (vocab : TokenVocab)
  (eogTokenIds : List UInt32)

/-- An index without an entry keeps its logit. -/
theorem applyGrammarMask_of_not_listed {i : ℕ} (hi : ¬ Listed vocab i) :
    (applyGrammarMask before state vocab eogTokenIds)[i]? = before[i]? := by
  obtain ⟨scan, h, ⟨heq, -⟩ | ⟨j, y, hbest, -, heq⟩⟩ :=
    applyGrammarMask_cases before state vocab eogTokenIds
  · rw [heq]
    exact h.kept i (passes_of_not_listed hi)
  · obtain ⟨hlisted, -⟩ := h.best j y hbest
    have hne : j ≠ i := by
      rintro rfl
      exact hi hlisted
    rw [heq, List.getElem?_set_ne hne]
    exact h.kept i (passes_of_not_listed hi)

/-- The mask is exact on the tokens of the table. -/
theorem exactOn_listed : ExactOn (Listed vocab) state vocab eogTokenIds before
    (applyGrammarMask before state vocab eogTokenIds) := by
  obtain ⟨scan, h, hcases⟩ := applyGrammarMask_cases before state vocab eogTokenIds
  have hpasses {i : ℕ} (hi : Allows state vocab i ∨ Ends state eogTokenIds i) :
      Passes state eogTokenIds vocab i := hi.elim passes_of_allows passes_of_ends
  -- What the loop leaves finite passed.
  have hfinite {i : ℕ} {x : Kv.F32} (hx : scan.logits[i]? = some x) (hfin : isFinite x = true) :
      Passes state eogTokenIds vocab i := by
    by_contra hp
    rw [h.masked i hp] at hx
    obtain ⟨y, -, rfl⟩ := Option.map_eq_some_iff.1 hx
    exact absurd hfin (by decide)
  rcases hcases with ⟨heq, -⟩ | ⟨i, y, hbest, hall, heq⟩
  · rw [heq]
    refine ⟨fun i x hlisted hx hfin => ?_, fun i hi => h.kept i (hpasses hi)⟩
    exact (allows_or_ends_of_passes hlisted (hfinite hx hfin)).imp_right .inl
  · obtain ⟨hlisted, hy, hyfin, hmax⟩ := h.best i y hbest
    -- The best token was masked: its logit would be finite otherwise.
    have hmasked : ¬ Passes state eogTokenIds vocab i := by
      intro hp
      have hnot := hall i y ((h.kept i hp).trans hy)
      rw [hyfin] at hnot
      cases hnot
    have hlt : i < scan.logits.length := by
      by_contra hge
      have hnone := h.lookup_eq_none (List.getElem?_eq_none (not_lt.1 hge))
      rw [hy] at hnone
      cases hnone
    have hsingle (j : ℕ) (x : Kv.F32) (hx : (scan.logits.set i y)[j]? = some x)
        (hfin : isFinite x = true) : j = i := by
      by_contra hne
      rw [List.getElem?_set_ne (Ne.symm hne)] at hx
      rw [hall j x hx] at hfin
      cases hfin
    rw [heq]
    refine ⟨fun j x _ hx hfin => ?_, fun j hj => ?_⟩
    · obtain rfl := hsingle j x hx hfin
      refine .inr (.inr ⟨hlisted, fun k z hk hz => ?_, ⟨y, hy, List.getElem?_set_self hlt, hyfin,
        hmax⟩, hsingle⟩)
      exact hall k z ((h.kept k (hpasses hk)).trans hz)
    · have hne : i ≠ j := by
        rintro rfl
        exact hmasked (hpasses hj)
      rw [List.getElem?_set_ne hne]
      exact h.kept j (hpasses hj)

/-- **The grammar mask**: of the tokens of the table it leaves finite those that the state allows,
those that end the generation when the grammar is complete, or the best one alone when there is
no other; it changes no logit of a token that may be drawn, and of no index without a token. -/
theorem applyGrammarMask_exact :
    ExactOn (Listed vocab) state vocab eogTokenIds before
        (applyGrammarMask before state vocab eogTokenIds) ∧
      ∀ i, ¬ Listed vocab i →
        (applyGrammarMask before state vocab eogTokenIds)[i]? = before[i]? :=
  ⟨exactOn_listed before state vocab eogTokenIds,
    fun _ hi => applyGrammarMask_of_not_listed before state vocab eogTokenIds hi⟩

/-- **On all indices the mask is exact** when every finite logit is that of a token of the table,
or of one that may end the generation. -/
theorem exact_iff_covered :
    ExactOn (fun _ => True) state vocab eogTokenIds before
        (applyGrammarMask before state vocab eogTokenIds) ↔
      ∀ i x, before[i]? = some x → isFinite x = true →
        Listed vocab i ∨ Ends state eogTokenIds i := by
  constructor
  · intro h i x hx hfin
    by_contra hnot
    obtain ⟨hlisted, hends⟩ := not_or.1 hnot
    have hafter := applyGrammarMask_of_not_listed before state vocab eogTokenIds hlisted
    rcases h.finite i x trivial (hafter.trans hx) hfin with hallows | hends' | hrestored
    · exact hlisted hallows.listed
    · exact hends hends'
    · exact hlisted hrestored.listed
  · intro h
    have hexact := exactOn_listed before state vocab eogTokenIds
    refine ⟨fun i x _ hx hfin => ?_, hexact.kept⟩
    by_cases hlisted : Listed vocab i
    · exact hexact.finite i x hlisted hx hfin
    · rw [applyGrammarMask_of_not_listed before state vocab eogTokenIds hlisted] at hx
      exact .inr (.inl ((h i x hx hfin).resolve_left hlisted))

/-- A table of one token beside two logits: the second one stays, whatever the grammar says. -/
theorem not_exact_padded :
    ¬ ExactOn (fun _ => True) GrammarState.commonHead.initialState [(0, [0x61])] []
      [0x3F800000, 0x40000000]
      (applyGrammarMask [0x3F800000, 0x40000000] GrammarState.commonHead.initialState
        [(0, [0x61])] []) := by
  rw [exact_iff_covered]
  intro h
  rcases h 1 0x40000000 rfl (by decide) with ⟨entry, hentry, hi⟩ | ⟨-, token, htoken, -⟩
  · rw [List.mem_singleton.1 hentry] at hi
    cases hi
  · cases htoken

end Sampling

end Oxillama
