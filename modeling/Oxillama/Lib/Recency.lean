/-
Keys in the order of their last use.

A recency list holds each key of a map once, the least recently used one first: `touch`
moves a key to its end, and what has to go is taken from its front.

* `Tracks lru keys` — the list holds exactly the keys, without duplicates; `Tracks.touch`,
  `Tracks.insert`, `Tracks.push`, `Tracks.remove` and `Tracks.pop` keep it;
* `InUseOrder uses lru` — the keys of the list stand in the order of their last occurrence
  in the list of all uses, so that its front is the least recently used key
  (`InUseOrder.front_least`);
* `recency uses` — the list that the uses leave behind, if no key is ever taken out, and
  `latest n` its last `n` keys: `latest_touch_of_mem` and `latest_touch_of_notMem` say how
  one use changes them.
-/
import Mathlib.Data.List.Induction
import Mathlib.Data.List.Perm.Basic
import Mathlib.Data.List.Nodup
import Mathlib.Data.List.Pairwise
import Mathlib.Tactic.Common

namespace Oxillama

variable {κ : Type*} [DecidableEq κ]

/-- `k` at the recent end of the list, and nowhere else. -/
def touch (k : κ) (lru : List κ) : List κ := lru.filter (· ≠ k) ++ [k]

/-- The list holds exactly the keys, each of them once. -/
structure Tracks (lru keys : List κ) : Prop where
  nodup : lru.Nodup
  perm : lru.Perm keys

namespace Tracks

variable {lru keys : List κ} {k : κ}

omit [DecidableEq κ] in
theorem nil : Tracks ([] : List κ) [] := ⟨List.nodup_nil, .refl []⟩

omit [DecidableEq κ] in
theorem mem_iff (h : Tracks lru keys) {a : κ} : a ∈ lru ↔ a ∈ keys := h.perm.mem_iff

omit [DecidableEq κ] in
theorem length_eq (h : Tracks lru keys) : lru.length = keys.length := h.perm.length_eq

omit [DecidableEq κ] in
/-- A list without duplicates and with the same members as the keys tracks them. -/
theorem of_mem_iff (hlru : lru.Nodup) (hkeys : keys.Nodup) (h : ∀ a, a ∈ lru ↔ a ∈ keys) :
    Tracks lru keys :=
  ⟨hlru, (List.perm_ext_iff_of_nodup hlru hkeys).mpr h⟩

/-- Where no key occurs twice, its first occurrence is all there is. -/
theorem erase_eq_filter (h : Tracks lru keys) (k : κ) : lru.erase k = lru.filter (· ≠ k) := by
  rw [h.nodup.erase_eq_filter]
  refine List.filter_congr fun a _ => ?_
  simp [bne, beq_eq_decide]

theorem erase_append (h : Tracks lru keys) (k : κ) :
    lru.erase k ++ [k] = Oxillama.touch k lru := by
  rw [h.erase_eq_filter, Oxillama.touch]

/-- Taking a key out of both. -/
theorem remove (h : Tracks lru keys) (k : κ) :
    Tracks (lru.filter (· ≠ k)) (keys.erase k) := by
  rw [← h.erase_eq_filter]
  exact ⟨h.nodup.erase k, h.perm.erase k⟩

/-- The front of the list leaves both. -/
theorem pop {rest : List κ} (h : Tracks (k :: rest) keys) : Tracks rest (keys.erase k) := by
  have hperm := h.perm.erase k
  rw [List.erase_cons_head] at hperm
  exact ⟨h.nodup.of_cons, hperm⟩

/-- A key that was not there comes to the end. -/
theorem push (h : Tracks lru keys) (hk : k ∉ keys) : Tracks (lru ++ [k]) (k :: keys.erase k) := by
  rw [List.erase_of_not_mem hk]
  have hperm : (lru ++ [k]).Perm (k :: keys) :=
    (List.perm_append_singleton k lru).trans (h.perm.cons k)
  exact ⟨hperm.nodup_iff.mpr (List.nodup_cons.mpr ⟨hk, h.perm.nodup_iff.mp h.nodup⟩), hperm⟩

/-- Inserting a key, new or not, and touching it. -/
theorem insert (h : Tracks lru keys) (k : κ) :
    Tracks (Oxillama.touch k lru) (k :: keys.erase k) := by
  have hkeys : keys.Nodup := h.perm.nodup_iff.mp h.nodup
  have hnew : k ∉ keys.erase k := fun hmem => (hkeys.mem_erase_iff.mp hmem).1 rfl
  have hpush := (h.remove k).push hnew
  rwa [List.erase_of_not_mem hnew] at hpush

/-- Touching a key that is there. -/
theorem touch (h : Tracks lru keys) (hk : k ∈ keys) : Tracks (Oxillama.touch k lru) keys := by
  have hinsert := h.insert k
  exact ⟨hinsert.nodup, hinsert.perm.trans (List.perm_cons_erase hk).symm⟩

end Tracks

/-! ### The order of the last uses -/

/-- When `k` was last used: one more than the position of its last occurrence in `uses`,
and 0 if it does not occur. -/
def lastUse (uses : List κ) (k : κ) : ℕ := uses.length - uses.reverse.idxOf k

theorem lastUse_le (uses : List κ) (k : κ) : lastUse uses k ≤ uses.length := Nat.sub_le _ _

@[simp] theorem lastUse_append_self (uses : List κ) (k : κ) :
    lastUse (uses ++ [k]) k = uses.length + 1 := by
  simp [lastUse]

theorem lastUse_append_ne (uses : List κ) {a k : κ} (h : a ≠ k) :
    lastUse (uses ++ [k]) a = lastUse uses a := by
  have hidx : (uses ++ [k]).reverse.idxOf a = uses.reverse.idxOf a + 1 := by
    rw [List.reverse_append, List.reverse_singleton, List.singleton_append,
      List.idxOf_cons_ne _ (Ne.symm h)]
  rw [lastUse, lastUse, hidx, List.length_append, List.length_singleton]
  omega

/-- Each key of the list was last used before the keys behind it. -/
def InUseOrder (uses lru : List κ) : Prop :=
  lru.Pairwise fun a b => lastUse uses a < lastUse uses b

namespace InUseOrder

variable {uses lru : List κ} {k : κ}

theorem nil (uses : List κ) : InUseOrder uses [] := List.Pairwise.nil

theorem sublist {rest : List κ} (h : InUseOrder uses lru) (hsub : rest.Sublist lru) :
    InUseOrder uses rest :=
  List.Pairwise.sublist hsub h

/-- Using a key and touching it keeps the order. -/
theorem touch (h : InUseOrder uses lru) (k : κ) :
    InUseOrder (uses ++ [k]) (Oxillama.touch k lru) := by
  rw [InUseOrder, Oxillama.touch, List.pairwise_append]
  refine ⟨?_, List.pairwise_singleton _ _, ?_⟩
  · have hrest : InUseOrder uses (lru.filter (· ≠ k)) := h.sublist List.filter_sublist
    refine List.Pairwise.imp_of_mem (fun {a b} ha hb hab => ?_) hrest
    have hak : a ≠ k := by simpa using List.of_mem_filter ha
    have hbk : b ≠ k := by simpa using List.of_mem_filter hb
    rw [lastUse_append_ne uses hak, lastUse_append_ne uses hbk]
    exact hab
  · intro a ha b hb
    have hak : a ≠ k := by simpa using List.of_mem_filter ha
    obtain rfl := List.mem_singleton.mp hb
    rw [lastUse_append_ne uses hak, lastUse_append_self]
    have := lastUse_le uses a
    omega

/-- **The front is the least recently used key.** -/
theorem front_least {rest : List κ} (h : InUseOrder uses (k :: rest)) {a : κ} (ha : a ∈ rest) :
    lastUse uses k < lastUse uses a :=
  (List.pairwise_cons.mp h).1 a ha

end InUseOrder

/-! ### The most recently used keys -/

/-- The keys of `uses` in the order of their last use. -/
def recency (uses : List κ) : List κ := uses.foldl (fun lru k => touch k lru) []

theorem recency_append (uses : List κ) (k : κ) : recency (uses ++ [k]) = touch k (recency uses) := by
  rw [recency, List.foldl_append]
  rfl

theorem nodup_touch {lru : List κ} (h : lru.Nodup) (k : κ) : (touch k lru).Nodup := by
  rw [touch, List.nodup_append]
  refine ⟨h.filter _, List.nodup_singleton k, ?_⟩
  intro a ha b hb hab
  obtain rfl := List.mem_singleton.mp hb
  simpa [hab] using List.of_mem_filter ha

theorem nodup_recency (uses : List κ) : (recency uses).Nodup := by
  induction uses using List.reverseRecOn with
  | nil => exact List.nodup_nil
  | append_singleton uses k ih =>
    rw [recency_append]
    exact nodup_touch ih k

/-- The last `n` keys. -/
def latest (n : ℕ) (lru : List κ) : List κ := lru.drop (lru.length - n)

omit [DecidableEq κ] in
theorem latest_append {n : ℕ} {old recent : List κ} (h : recent.length ≤ n)
    (hold : old ≠ [] → recent.length = n) : latest n (old ++ recent) = recent := by
  by_cases hnil : old = []
  · subst hnil
    rw [latest, List.nil_append, Nat.sub_eq_zero_of_le h]
    rfl
  · have hlen : (old ++ recent).length - n = old.length := by
      rw [List.length_append, hold hnil]
      omega
    rw [latest, hlen, List.drop_left]

omit [DecidableEq κ] in
theorem length_latest (n : ℕ) (lru : List κ) : (latest n lru).length = min n lru.length := by
  rw [latest, List.length_drop]
  omega

omit [DecidableEq κ] in
/-- What stands in front of the last keys. -/
theorem exists_older (n : ℕ) (lru : List κ) :
    ∃ old, lru = old ++ latest n lru ∧ (old ≠ [] → (latest n lru).length = n) := by
  refine ⟨lru.take (lru.length - n), (List.take_append_drop _ _).symm, fun hne => ?_⟩
  have hpos : lru.length - n ≠ 0 := by
    rintro hzero
    exact hne (by rw [hzero, List.take_zero])
  rw [length_latest]
  omega

/-- **Using one of the last keys** leaves them the last keys. -/
theorem latest_touch_of_mem {n : ℕ} {lru : List κ} {k : κ} (hnodup : lru.Nodup)
    (hk : k ∈ latest n lru) : latest n (touch k lru) = touch k (latest n lru) := by
  obtain ⟨old, hlru, hold⟩ := exists_older n lru
  set recent := latest n lru with hrecent
  have hrnodup : recent.Nodup := (hlru ▸ hnodup).of_append_right
  have hkold : k ∉ old := fun hmem =>
    (List.nodup_append.mp (hlru ▸ hnodup)).2.2 k hmem k hk rfl
  have hfilter : old.filter (· ≠ k) = old :=
    List.filter_eq_self.mpr fun a ha => by
      have hne : a ≠ k := by
        rintro rfl
        exact hkold ha
      simpa using hne
  have hlen : (touch k recent).length = recent.length :=
    ((Tracks.mk hrnodup (.refl recent)).touch hk).length_eq
  have hle : recent.length ≤ n := by
    rw [hrecent, length_latest]
    omega
  have htouch : touch k lru = old ++ touch k recent := by
    rw [hlru, touch, List.filter_append, hfilter, List.append_assoc]
    rfl
  rw [htouch]
  exact latest_append (by omega) fun hne => by rw [hlen, hold hne]

/-- **Using another key** puts it behind them. -/
theorem latest_touch_of_notMem {n : ℕ} {lru : List κ} {k : κ} (hk : k ∉ latest n lru) :
    latest (n + 1) (touch k lru) = latest n lru ++ [k] := by
  obtain ⟨old, hlru, hold⟩ := exists_older n lru
  set recent := latest n lru with hrecent
  have hfilter : recent.filter (· ≠ k) = recent :=
    List.filter_eq_self.mpr fun a ha => by
      have hne : a ≠ k := by
        rintro rfl
        exact hk ha
      simpa using hne
  have htouch : touch k lru = old.filter (· ≠ k) ++ (recent ++ [k]) := by
    rw [hlru, touch, List.filter_append, hfilter, List.append_assoc]
  have hle : recent.length ≤ n := by
    rw [hrecent, length_latest]
    omega
  rw [htouch]
  refine latest_append (by simpa using hle) fun hne => ?_
  rw [List.length_append, List.length_singleton, hold]
  rintro rfl
  exact hne rfl

omit [DecidableEq κ] in
/-- Without the first of them. -/
theorem tail_latest {n : ℕ} {lru : List κ} (h : (latest (n + 1) lru).length = n + 1) :
    (latest (n + 1) lru).tail = latest n lru := by
  rw [length_latest] at h
  rw [latest, latest, List.tail_drop]
  congr 1
  omega

end Oxillama
