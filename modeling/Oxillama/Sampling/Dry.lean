/-
The DRY penalty (`oxillama-runtime/src/sampling/advanced.rs`, `DryStage`).

A token is penalised when drawing it would repeat what the history ends with: its repeat length
is how far the end of the history can be read backwards from a position where the token stands.
The token itself counts, so that the length is one more than that of the suffix that is
repeated.

* `matchLoop_spec` — what the walk backwards from one position counts;
* `bestMatch_spec` — **the repeat length of a token** is one more than that of the longest suffix
  that occurs with the token behind it;
* `apply_spec` — the logits it leaves;
* `dry_exact` — both together;
* `not_without_itself` — the suffix alone is shorter.
-/
import Mathlib.Data.List.AList
import Oxillama.Sampling.Sampler

namespace Oxillama

namespace Sampling

/-- The operations of `f32` on which the penalty rests.  Nothing is assumed of them. -/
structure FloatOps where
  sub : Kv.F32 → Kv.F32 → Kv.F32
  mul : Kv.F32 → Kv.F32 → Kv.F32
  powf : Kv.F32 → Kv.F32 → Kv.F32
  /-- `n as f32`. -/
  ofUsize : ℕ → Kv.F32

/-- `DryStage`. -/
structure DryStage where
  multiplier : Kv.F32
  base : Kv.F32
  allowedLength : ℕ
  sequenceBreakers : List UInt32
  deriving DecidableEq, Repr

namespace DryStage

/-- The loop over the tokens behind a position, from the `k`-th on. -/
def matchLoop (stage : DryStage) (recent : List UInt32) (pos : ℕ) : ℕ → ℕ → ℕ → Option ℕ
  | 0, _, matchLen => some matchLen
  | rounds + 1, k, matchLen => do
    let histToken ← recent[pos - k]?
    let ctxToken ← recent[recent.length - k]?
    if stage.sequenceBreakers.contains histToken || stage.sequenceBreakers.contains ctxToken then
      return matchLen
    else if histToken = ctxToken then matchLoop stage recent pos rounds (k + 1) (matchLen + 1)
    else return matchLen

/-- The loop over the positions: its body. -/
def matchAt (stage : DryStage) (recent : List UInt32) (best : AList fun _ : UInt32 => ℕ)
    (pos : ℕ) : Option (AList fun _ : UInt32 => ℕ) := do
  let t ← recent[pos]?
  if stage.sequenceBreakers.contains t then return best
  else
    let matchLen ← stage.matchLoop recent pos (min pos (recent.length - 1)) 1 1
    let entry := (best.lookup t).getD 0
    return best.insert t (if entry < matchLen then matchLen else entry)

/-- `best_match`, when the loop over the positions is through. -/
def bestMatch (stage : DryStage) (recent : List UInt32) : Option (AList fun _ : UInt32 => ℕ) :=
  (List.range recent.length).foldlM (stage.matchAt recent) ∅

/-- The penalty of a token, for its repeat length. -/
def penalise (ops : FloatOps) (stage : DryStage) (logits : List Kv.F32) (t : UInt32)
    (matchLen : ℕ) : List Kv.F32 :=
  if matchLen < stage.allowedLength then logits
  else
    match logits[t.toNat]? with
    | none => logits
    | some logit =>
      if isFinite logit then
        let excess := ops.ofUsize (matchLen - stage.allowedLength)
        logits.set t.toNat (ops.sub logit (ops.mul stage.multiplier (ops.powf stage.base excess)))
      else logits

/-- `DryStage::apply`.  The source goes through `best_match` in the order of its hashes; every
entry changes the logit of its own token. -/
def apply (ops : FloatOps) (stage : DryStage) (logits : List Kv.F32) (recent : List UInt32) :
    Option (List Kv.F32) :=
  if rank stage.multiplier = 0 || logits.isEmpty || recent.isEmpty then some logits
  else do
    let best ← stage.bestMatch recent
    return best.entries.foldl (fun logits entry => stage.penalise ops logits entry.1 entry.2) logits

end DryStage

/-! ### Repeats -/

/-- A suffix of the history, `n` tokens long and without a breaker, occurs in the history with
`t` behind it. -/
def Repeats (recent breakers : List UInt32) (t : UInt32) (n : ℕ) : Prop :=
  ∃ s u v, s <:+ recent ∧ s.length = n ∧ (∀ x ∈ s, x ∉ breakers) ∧ recent = u ++ s ++ t :: v

/-- The longest such suffix is `n` tokens long. -/
def LongestRepeat (recent breakers : List UInt32) (t : UInt32) (n : ℕ) : Prop :=
  Repeats recent breakers t n ∧ ∀ m, Repeats recent breakers t m → m ≤ n

/-- The `m` tokens before a position are those that the history ends with, and no breakers. -/
def Agree (recent breakers : List UInt32) (pos m : ℕ) : Prop :=
  m ≤ pos ∧ ∀ k, 1 ≤ k → k ≤ m →
    ∃ x, recent[pos - k]? = some x ∧ recent[recent.length - k]? = some x ∧ x ∉ breakers

variable {recent breakers : List UInt32} {t : UInt32} {pos m n : ℕ}

theorem agree_zero (recent breakers : List UInt32) (pos : ℕ) : Agree recent breakers pos 0 :=
  ⟨Nat.zero_le _, fun k h₁ h₂ => by omega⟩

theorem Agree.mono (h : Agree recent breakers pos m) (hle : n ≤ m) :
    Agree recent breakers pos n :=
  ⟨Nat.le_trans hle h.1, fun k h₁ h₂ => h.2 k h₁ (Nat.le_trans h₂ hle)⟩

/-- What the history repeats, by positions. -/
theorem repeats_iff : Repeats recent breakers t n ↔
    ∃ pos, recent[pos]? = some t ∧ Agree recent breakers pos n := by
  constructor
  · rintro ⟨s, u, v, ⟨w, hw⟩, rfl, hfree, hrecent⟩
    refine ⟨(u ++ s).length, ?_, ?_, fun k h₁ h₂ => ?_⟩
    · rw [hrecent, List.getElem?_append_right (Nat.le_refl _), Nat.sub_self]
      rfl
    · rw [List.length_append]
      omega
    · -- The `k`-th token from the end of the suffix, read in both places.
      have hlt : s.length - k < s.length := by omega
      refine ⟨s[s.length - k], ?_, ?_, hfree _ (List.getElem_mem hlt)⟩
      · have hat : (u ++ s).length - k = u.length + (s.length - k) := by
          rw [List.length_append]
          omega
        rw [hrecent, hat, List.append_assoc, List.getElem?_append_right (by omega),
          Nat.add_sub_cancel_left, List.getElem?_append_left hlt, List.getElem?_eq_getElem hlt]
      · have hat : recent.length - k = w.length + (s.length - k) := by
          rw [← hw, List.length_append]
          omega
        rw [hat, ← hw, List.getElem?_append_right (by omega), Nat.add_sub_cancel_left,
          List.getElem?_eq_getElem hlt]
  · rintro ⟨pos, hpos, hle, hagree⟩
    obtain ⟨hlt, hat⟩ := List.getElem?_eq_some_iff.1 hpos
    have hlength : (recent.drop (recent.length - n)).length = n := by
      rw [List.length_drop]
      omega
    refine ⟨recent.drop (recent.length - n), recent.take (pos - n), recent.drop (pos + 1),
      List.drop_suffix _ _, hlength, fun x hx => ?_, ?_⟩
    · obtain ⟨i, hi, rfl⟩ := List.getElem_of_mem hx
      obtain ⟨x, -, hctx, hx⟩ := hagree (n - i) (by omega) (by omega)
      have hindex : recent.length - (n - i) = recent.length - n + i := by omega
      rw [hindex] at hctx
      rw [List.getElem_drop]
      rwa [(List.getElem?_eq_some_iff.1 hctx).2]
    · have hmid : recent.drop (recent.length - n) = (recent.drop (pos - n)).take n := by
        refine List.ext_getElem? fun i => ?_
        by_cases hi : i < n
        · obtain ⟨x, hhist, hctx, -⟩ := hagree (n - i) (by omega) (by omega)
          have hindex : recent.length - (n - i) = recent.length - n + i := by omega
          have hindex' : pos - (n - i) = pos - n + i := by omega
          rw [hindex] at hctx
          rw [hindex'] at hhist
          rw [List.getElem?_take_of_lt hi, List.getElem?_drop, List.getElem?_drop, hctx, hhist]
        · rw [List.getElem?_eq_none (by omega), List.getElem?_take_eq_none (by omega)]
      have hback : recent.take (pos - n) ++ (recent.drop (pos - n)).take n = recent.take pos := by
        rw [← List.take_add]
        congr 1
        omega
      rw [hmid, hback, ← hat, ← List.drop_eq_getElem_cons, List.take_append_drop]

/-! ### The walk backwards -/

variable {stage : DryStage}

/-- **The walk from a position** counts the token there and those before it that agree with the
end of the history. -/
theorem matchLoop_spec (hpos : pos < recent.length) {rounds j : ℕ} (hrounds : rounds + j = pos)
    (h : Agree recent stage.sequenceBreakers pos j) :
    ∃ m, stage.matchLoop recent pos rounds (j + 1) (j + 1) = some (m + 1) ∧
      Agree recent stage.sequenceBreakers pos m ∧
      ∀ m', Agree recent stage.sequenceBreakers pos m' → m' ≤ m := by
  induction rounds generalizing j with
  | zero =>
    refine ⟨j, rfl, h, fun m' hm' => ?_⟩
    have hle := hm'.1
    omega
  | succ rounds ih =>
    have hhist : pos - (j + 1) < recent.length := by omega
    have hctx : recent.length - (j + 1) < recent.length := by omega
    rw [DryStage.matchLoop, List.getElem?_eq_getElem hhist, List.getElem?_eq_getElem hctx]
    simp only [Option.bind_eq_bind, Option.bind_some, Bool.or_eq_true, List.contains_iff_mem]
    -- A longer agreement would need these two tokens to be the same, and no breaker.
    have hstop (hnot : ¬ (recent[pos - (j + 1)] = recent[recent.length - (j + 1)] ∧
        recent[pos - (j + 1)] ∉ stage.sequenceBreakers)) (m' : ℕ)
        (hm' : Agree recent stage.sequenceBreakers pos m') : m' ≤ j := by
      by_contra hlt
      obtain ⟨x, hx, hx', hfree⟩ := hm'.2 (j + 1) (by omega) (by omega)
      rw [List.getElem?_eq_getElem hhist] at hx
      rw [List.getElem?_eq_getElem hctx] at hx'
      obtain rfl := Option.some.inj hx
      exact hnot ⟨(Option.some.inj hx').symm, hfree⟩
    split
    next hbreaker =>
      refine ⟨j, rfl, h, hstop fun hboth => ?_⟩
      rcases hbreaker with hhist' | hctx'
      · exact hboth.2 hhist'
      · rw [← hboth.1] at hctx'
        exact hboth.2 hctx'
    next hfree =>
      obtain ⟨hfree, -⟩ := not_or.1 hfree
      split
      next hsame =>
        refine ih (by omega) ⟨by omega, fun k h₁ h₂ => ?_⟩
        by_cases hk : k = j + 1
        · subst hk
          refine ⟨_, List.getElem?_eq_getElem hhist, ?_, hfree⟩
          rw [List.getElem?_eq_getElem hctx, hsame]
        · exact h.2 k h₁ (by omega)
      next hdiffer => exact ⟨j, rfl, h, hstop fun hboth => hdiffer hboth.1⟩

/-! ### The longest repeats -/

/-- What `best` holds when the positions below `p` were gone through. -/
structure Matched (stage : DryStage) (recent : List UInt32) (p : ℕ)
    (best : AList fun _ : UInt32 => ℕ) : Prop where
  sound : ∀ t n, best.lookup t = some n → t ∉ stage.sequenceBreakers ∧
    ∃ m pos, n = m + 1 ∧ pos < p ∧ recent[pos]? = some t ∧
      Agree recent stage.sequenceBreakers pos m
  complete : ∀ t pos m, pos < p → recent[pos]? = some t → t ∉ stage.sequenceBreakers →
    Agree recent stage.sequenceBreakers pos m → ∃ n, best.lookup t = some n ∧ m + 1 ≤ n

theorem matched_empty : Matched stage recent 0 ∅ where
  sound t n h := by
    rw [AList.lookup_empty] at h
    cases h
  complete t pos m h := by omega

theorem Matched.step {p : ℕ} {best : AList fun _ : UInt32 => ℕ}
    (h : Matched stage recent p best) (hp : p < recent.length) :
    ∃ best', stage.matchAt recent best p = some best' ∧ Matched stage recent (p + 1) best' := by
  have hat := List.getElem?_eq_getElem hp
  rw [DryStage.matchAt, hat]
  simp only [Option.bind_eq_bind, Option.bind_some, List.contains_iff_mem]
  split
  next hbreaker =>
    refine ⟨best, rfl, fun t n hn => ?_, fun t pos m hpos ht hfree hagree => ?_⟩
    · obtain ⟨hfree, m, pos, hm, hpos, hrest⟩ := h.sound t n hn
      exact ⟨hfree, m, pos, hm, by omega, hrest⟩
    · by_cases hnew : pos = p
      · subst hnew
        rw [hat] at ht
        obtain rfl := Option.some.inj ht
        exact absurd hbreaker hfree
      · exact h.complete t pos m (by omega) ht hfree hagree
  next hfree =>
    have hmin : min p (recent.length - 1) = p := by omega
    obtain ⟨m, hloop, hagree, hmax⟩ :=
      @matchLoop_spec recent p stage hp p 0 (Nat.add_zero p) (agree_zero _ _ p)
    rw [hmin, hloop, Option.bind_some]
    refine ⟨_, rfl, fun t n hn => ?_, fun t pos m' hpos ht hfree' hagree' => ?_⟩
    · by_cases ht : t = recent[p]
      · subst ht
        rw [AList.lookup_insert] at hn
        obtain rfl := Option.some.inj hn
        refine ⟨hfree, ?_⟩
        split
        · exact ⟨m, p, rfl, by omega, hat, hagree⟩
        next hle =>
          -- The entry that stays was made for an earlier position.
          rcases hold : best.lookup recent[p] with - | n
          · rw [hold] at hle
            exact absurd (Nat.succ_pos m) hle
          · obtain ⟨-, m', pos, rfl, hpos, hrest⟩ := h.sound _ n hold
            exact ⟨m', pos, rfl, by omega, hrest⟩
      · rw [AList.lookup_insert_ne ht] at hn
        obtain ⟨hfree', m', pos, hm', hpos, hrest⟩ := h.sound t n hn
        exact ⟨hfree', m', pos, hm', by omega, hrest⟩
    · by_cases hsame : t = recent[p]
      · subst hsame
        refine ⟨_, AList.lookup_insert _, ?_⟩
        by_cases hnew : pos = p
        · subst hnew
          have hle := hmax m' hagree'
          split <;> omega
        · obtain ⟨n, hn, hle⟩ := h.complete _ pos m' (by omega) ht hfree' hagree'
          rw [hn, Option.getD_some]
          split <;> omega
      · have hnew : pos ≠ p := by
          rintro rfl
          rw [hat] at ht
          exact hsame (Option.some.inj ht).symm
        rw [AList.lookup_insert_ne hsame]
        exact h.complete t pos m' (by omega) ht hfree' hagree'

/-- The loop over the positions, when it is through. -/
theorem matched_bestMatch (stage : DryStage) (recent : List UInt32) :
    ∃ best, stage.bestMatch recent = some best ∧ Matched stage recent recent.length best := by
  have hloop : ∀ p ≤ recent.length, ∃ best,
      (List.range p).foldlM (stage.matchAt recent) ∅ = some best ∧
        Matched stage recent p best := by
    intro p
    induction p with
    | zero =>
      intro _
      exact ⟨∅, rfl, matched_empty⟩
    | succ p ih =>
      intro hle
      obtain ⟨best, hfold, hmatched⟩ := ih (by omega)
      obtain ⟨best', hstep, hmatched'⟩ := hmatched.step hle
      refine ⟨best', ?_, hmatched'⟩
      rw [List.range_succ, List.foldlM_append, hfold]
      simp only [Option.bind_eq_bind, Option.bind_some, List.foldlM_cons, hstep, List.foldlM_nil]
      rfl
  exact hloop recent.length (Nat.le_refl _)

/-- **The repeat length of a token** counts the longest suffix that occurs with the token behind
it, and the token. -/
theorem Matched.lookup_iff {best : AList fun _ : UInt32 => ℕ}
    (h : Matched stage recent recent.length best) : best.lookup t = some n ↔
      t ∉ stage.sequenceBreakers ∧ ∃ m, n = m + 1 ∧
        LongestRepeat recent stage.sequenceBreakers t m := by
  constructor
  · intro hn
    obtain ⟨hfree, m, pos, rfl, -, hpos, hagree⟩ := h.sound t n hn
    refine ⟨hfree, m, rfl, repeats_iff.2 ⟨pos, hpos, hagree⟩, fun m' hm' => ?_⟩
    obtain ⟨pos', hpos', hagree'⟩ := repeats_iff.1 hm'
    have hlt := (List.getElem?_eq_some_iff.1 hpos').1
    obtain ⟨n', hn', hle⟩ := h.complete t pos' m' hlt hpos' hfree hagree'
    obtain rfl := Option.some.inj (hn.symm.trans hn')
    omega
  · rintro ⟨hfree, m, rfl, hrepeats, hmax⟩
    obtain ⟨pos, hpos, hagree⟩ := repeats_iff.1 hrepeats
    have hlt := (List.getElem?_eq_some_iff.1 hpos).1
    obtain ⟨n, hn, hle⟩ := h.complete t pos m hlt hpos hfree hagree
    obtain ⟨-, m', pos', rfl, -, hpos', hagree'⟩ := h.sound t n hn
    have hle' := hmax m' (repeats_iff.2 ⟨pos', hpos', hagree'⟩)
    obtain rfl : m' = m := by omega
    exact hn

/-! ### The logits -/

/-- What becomes of the logit of a token with a repeat length. -/
def DryStage.adjust (ops : FloatOps) (stage : DryStage) (matchLen : ℕ) (logit : Kv.F32) : Kv.F32 :=
  if stage.allowedLength ≤ matchLen ∧ isFinite logit = true then
    ops.sub logit (ops.mul stage.multiplier
      (ops.powf stage.base (ops.ofUsize (matchLen - stage.allowedLength))))
  else logit

variable {ops : FloatOps} {logits : List Kv.F32}

theorem penalise_self (t : UInt32) (n : ℕ) : (stage.penalise ops logits t n)[t.toNat]? =
    logits[t.toNat]?.map (stage.adjust ops n) := by
  rw [DryStage.penalise]
  rcases hlogit : logits[t.toNat]? with - | logit
  · split
    · exact hlogit
    · exact hlogit
  · have hlt := (List.getElem?_eq_some_iff.1 hlogit).1
    rw [Option.map_some, DryStage.adjust]
    by_cases hshort : n < stage.allowedLength
    · rw [if_pos hshort, if_neg (by omega)]
      exact hlogit
    · rw [if_neg hshort]
      by_cases hfinite : isFinite logit = true
      · rw [if_pos ⟨by omega, hfinite⟩]
        simp only [if_pos hfinite]
        exact List.getElem?_set_self hlt
      · rw [if_neg fun hboth => hfinite hboth.2]
        simp only [if_neg hfinite]
        exact hlogit

theorem penalise_ne {t' : UInt32} (hne : t' ≠ t) (n : ℕ) :
    (stage.penalise ops logits t' n)[t.toNat]? = logits[t.toNat]? := by
  have hindex : t'.toNat ≠ t.toNat := fun heq => hne (UInt32.toNat_inj.1 heq)
  rw [DryStage.penalise]
  split
  · rfl
  · split
    · rfl
    · split
      · exact List.getElem?_set_ne hindex
      · rfl

/-- The penalties of some tokens, in whatever order. -/
theorem foldl_penalise {entries : List (Sigma fun _ : UInt32 => ℕ)} (hkeys : entries.NodupKeys)
    (t : UInt32) :
    (entries.foldl (fun logits entry => stage.penalise ops logits entry.1 entry.2)
        logits)[t.toNat]? =
      match entries.dlookup t with
      | none => logits[t.toNat]?
      | some n => logits[t.toNat]?.map (stage.adjust ops n) := by
  induction entries generalizing logits with
  | nil => rfl
  | cons entry entries ih =>
    obtain ⟨t', n⟩ := entry
    obtain ⟨hnew, hrest⟩ := List.nodupKeys_cons.1 hkeys
    rw [List.foldl_cons, ih hrest]
    by_cases hsame : t' = t
    · subst hsame
      rw [List.dlookup_eq_none.2 hnew, List.dlookup_cons_eq]
      exact penalise_self t' n
    · rw [List.dlookup_cons_ne _ _ (Ne.symm hsame)]
      split
      · exact penalise_ne hsame n
      · rw [penalise_ne hsame n]

/-- What the stage leaves, when it has something to do. -/
theorem apply_spec {best : AList fun _ : UInt32 => ℕ} (hbest : stage.bestMatch recent = some best)
    (hactive : rank stage.multiplier ≠ 0) (hrecent : recent ≠ []) :
    ∃ logits', stage.apply ops logits recent = some logits' ∧
      ∀ t : UInt32, logits'[t.toNat]? = match best.lookup t with
        | none => logits[t.toNat]?
        | some n => logits[t.toNat]?.map (stage.adjust ops n) := by
  rw [DryStage.apply]
  split
  next hskip =>
    have hempty : logits = [] := by
      simpa [hactive, hrecent] using hskip
    subst hempty
    refine ⟨[], rfl, fun t => ?_⟩
    split
    · rfl
    · rfl
  next =>
    rw [hbest]
    exact ⟨_, rfl, fun t => foldl_penalise best.nodupKeys t⟩

/-- A stage that is switched off leaves the logits alone. -/
theorem apply_of_disabled (h : rank stage.multiplier = 0 ∨ recent = []) :
    stage.apply ops logits recent = some logits := by
  rw [DryStage.apply, if_pos]
  rcases h with hzero | hempty
  · simp [hzero]
  · simp [hempty]

/-- **The DRY penalty**: the repeat length of a token that is no breaker is one more than the
length of the longest suffix that occurs with the token behind it; the logit becomes what this
length makes of it, and stays where the token is a breaker or its repeats are too short. -/
theorem dry_exact (ops : FloatOps) (stage : DryStage) (recent : List UInt32)
    (logits : List Kv.F32) :
    ∃ best logits', stage.bestMatch recent = some best ∧
      stage.apply ops logits recent = some logits' ∧
      (∀ t n, best.lookup t = some n ↔ t ∉ stage.sequenceBreakers ∧
        ∃ m, n = m + 1 ∧ LongestRepeat recent stage.sequenceBreakers t m) ∧
      (∀ t n, best.lookup t = some n → rank stage.multiplier ≠ 0 →
        logits'[t.toNat]? = logits[t.toNat]?.map (stage.adjust ops n)) ∧
      ∀ t, (t ∈ stage.sequenceBreakers ∨ ∀ m, Repeats recent stage.sequenceBreakers t m →
        m + 1 < stage.allowedLength) → logits'[t.toNat]? = logits[t.toNat]? := by
  obtain ⟨best, hbest, hmatched⟩ := matched_bestMatch stage recent
  by_cases hdisabled : rank stage.multiplier = 0 ∨ recent = []
  · refine ⟨best, logits, hbest, apply_of_disabled hdisabled, fun t n => hmatched.lookup_iff,
      fun t n hn hactive => ?_, fun t _ => rfl⟩
    -- An empty history repeats nothing.
    have hempty := hdisabled.resolve_left hactive
    obtain ⟨-, m, pos, -, hpos, -⟩ := hmatched.sound t n hn
    rw [hempty] at hpos
    exact absurd hpos (Nat.not_lt_zero pos)
  · obtain ⟨hactive, hrecent⟩ := not_or.1 hdisabled
    obtain ⟨logits', happly, hlogits⟩ :=
      @apply_spec recent stage ops logits best hbest hactive hrecent
    refine ⟨best, logits', hbest, happly, fun t n => hmatched.lookup_iff, fun t n hn _ => ?_,
      fun t ht => ?_⟩
    · rw [hlogits t, hn]
    · rw [hlogits t]
      rcases hn : best.lookup t with - | n
      · rfl
      · obtain ⟨hfree, m, rfl, hlongest⟩ := hmatched.lookup_iff.1 hn
        have hshort := ht.resolve_left hfree m hlongest.1
        have hid : stage.adjust ops (m + 1) = id := by
          funext logit
          rw [DryStage.adjust, if_neg (by omega)]
          rfl
        dsimp only
        rw [hid, Option.map_id_fun]
        rfl

/-- The length of the suffix alone is not what the stage uses: behind `0 1 2 0 1` the token `2`
repeats the two tokens `0 1`, and its repeat length is three. -/
theorem not_without_itself : ¬ ∀ (stage : DryStage) (recent : List UInt32)
    (best : AList fun _ : UInt32 => ℕ) (t : UInt32) (n : ℕ),
    stage.bestMatch recent = some best → t ∉ stage.sequenceBreakers →
    LongestRepeat recent stage.sequenceBreakers t n → best.lookup t = some n := by
  intro h
  let stage : DryStage := ⟨0x40000000, 0x3FE00000, 2, []⟩
  obtain ⟨best, hbest, hmatched⟩ := matched_bestMatch stage [0, 1, 2, 0, 1]
  have hthree : (stage.bestMatch [0, 1, 2, 0, 1]).bind (fun best => best.lookup 2) = some 3 := by
    decide
  rw [hbest, Option.bind_some] at hthree
  obtain ⟨hfree, m, hm, hlongest⟩ := hmatched.lookup_iff.1 hthree
  obtain rfl : m = 2 := by omega
  have htwo := h stage [0, 1, 2, 0, 1] best 2 2 hbest hfree hlongest
  rw [hthree] at htwo
  cases htwo

end Sampling

end Oxillama
