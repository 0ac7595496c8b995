/-
Slots that are lent out and taken back.

A pool of `n` slots keeps the free ones in a list.  `held` records every slot that has been
lent and not been given back, with its holder.

* `Partitioned n free held` — every slot is in one of the two lists, exactly once;
* `Partitioned.lend`, `Partitioned.takeBack` — lending the last free slot and taking a held
  one back keep it that way.

That no slot is free and held, none is held twice and none is lost are consequences
(`NeverAliased`).
-/
import Mathlib.Data.List.Nodup
import Mathlib.Data.List.Perm.Basic
import Mathlib.Data.List.Range

namespace Oxillama

/-- Every slot below `n` is in one of the two lists, and in one place of it. -/
def Partitioned {α : Type*} (n : ℕ) (free : List ℕ) (held : List (ℕ × α)) : Prop :=
  (free ++ held.map Prod.fst).Perm (List.range n)

/-- What is held after `slot` has been given back. -/
def withoutSlot {α : Type*} (slot : ℕ) (held : List (ℕ × α)) : List (ℕ × α) :=
  held.eraseP fun h => h.1 = slot

/-- What a pool owes to its holders: no slot is free or held twice, none is both, the used slots
are the held ones, and with the free ones they add up to the capacity. -/
structure NeverAliased {α : Type*} (capacity : ℕ) (free : List ℕ) (used : ℕ)
    (held : List (ℕ × α)) : Prop where
  free_nodup : free.Nodup
  held_nodup : (held.map Prod.fst).Nodup
  disjoint : ∀ g ∈ held, g.1 ∉ free
  used_eq : used = held.length
  length_add : free.length + used = capacity

namespace Partitioned

variable {α : Type*} {n slot : ℕ} {free : List ℕ} {held : List (ℕ × α)}

/-- At the start every slot is free. -/
theorem start (n : ℕ) : Partitioned n (List.range n) ([] : List (ℕ × α)) := by
  rw [Partitioned, List.map_nil, List.append_nil]

theorem nodup (h : Partitioned n free held) : (free ++ held.map Prod.fst).Nodup :=
  h.nodup_iff.mpr List.nodup_range

theorem nodup_free (h : Partitioned n free held) : free.Nodup := h.nodup.of_append_left

/-- No slot is held twice. -/
theorem nodup_held (h : Partitioned n free held) : (held.map Prod.fst).Nodup :=
  h.nodup.of_append_right

/-- No slot is free and held. -/
theorem disjoint (h : Partitioned n free held) : ∀ g ∈ held, g.1 ∉ free := by
  intro g hg hfree
  exact List.disjoint_of_nodup_append h.nodup hfree (List.mem_map_of_mem hg)

/-- No slot is lost. -/
theorem length_add (h : Partitioned n free held) : free.length + held.length = n := by
  have hlen := h.length_eq
  rwa [List.length_append, List.length_map, List.length_range] at hlen

theorem lt_iff (h : Partitioned n free held) :
    slot < n ↔ slot ∈ free ∨ slot ∈ held.map Prod.fst := by
  rw [← List.mem_range, ← h.mem_iff, List.mem_append]

theorem lt_of_free (h : Partitioned n free held) (hslot : slot ∈ free) : slot < n :=
  h.lt_iff.mpr (.inl hslot)

theorem lt_of_held (h : Partitioned n free held) {g : ℕ × α} (hg : g ∈ held) : g.1 < n :=
  h.lt_iff.mpr (.inr (List.mem_map_of_mem hg))

/-- The slots that are not free are held. -/
theorem held_iff (h : Partitioned n free held) :
    slot ∈ held.map Prod.fst ↔ slot < n ∧ slot ∉ free := by
  constructor
  · intro hslot
    obtain ⟨g, hg, rfl⟩ := List.mem_map.mp hslot
    exact ⟨h.lt_of_held hg, h.disjoint g hg⟩
  · rintro ⟨hlt, hfree⟩
    exact (h.lt_iff.mp hlt).resolve_left hfree

/-- A holder of a slot is its only one. -/
theorem holder_unique (h : Partitioned n free held) {a b : α} (ha : (slot, a) ∈ held)
    (hb : (slot, b) ∈ held) : a = b := by
  have heq := List.inj_on_of_nodup_map h.nodup_held ha hb rfl
  exact congrArg Prod.snd heq

/-- **Lending the last free slot.** -/
theorem lend (h : Partitioned n (free ++ [slot]) held) (a : α) :
    Partitioned n free ((slot, a) :: held) := by
  rw [Partitioned, List.append_assoc, List.singleton_append] at h
  exact h

theorem map_withoutSlot (slot : ℕ) (held : List (ℕ × α)) :
    (withoutSlot slot held).map Prod.fst = (held.map Prod.fst).erase slot := by
  induction held with
  | nil => rfl
  | cons g held ih =>
    rw [withoutSlot, List.eraseP_cons, List.map_cons, List.erase_cons]
    by_cases hg : g.1 = slot
    · simp [hg]
    · simp only [hg, decide_false, if_false, beq_iff_eq]
      exact congrArg (g.1 :: ·) ih

/-- **Taking a held slot back.** -/
theorem takeBack (h : Partitioned n free held) (hslot : slot ∈ held.map Prod.fst) :
    Partitioned n (free ++ [slot]) (withoutSlot slot held) := by
  rw [Partitioned, map_withoutSlot, List.append_assoc, List.singleton_append]
  exact ((List.perm_cons_erase hslot).symm.append_left free).trans h

theorem mem_of_withoutSlot {g : ℕ × α} (hg : g ∈ withoutSlot slot held) : g ∈ held :=
  List.mem_of_mem_eraseP hg

/-- Nobody holds a slot that has been taken back. -/
theorem ne_of_withoutSlot (h : Partitioned n free held) {g : ℕ × α}
    (hg : g ∈ withoutSlot slot held) : g.1 ≠ slot := by
  intro heq
  have hmem : g.1 ∈ (held.map Prod.fst).erase slot := by
    rw [← map_withoutSlot]
    exact List.mem_map_of_mem hg
  rw [heq] at hmem
  exact (h.nodup_held.mem_erase_iff.mp hmem).1 rfl

theorem neverAliased {used : ℕ} (h : Partitioned n free held) (hused : used = held.length) :
    NeverAliased n free used held where
  free_nodup := h.nodup_free
  held_nodup := h.nodup_held
  disjoint := h.disjoint
  used_eq := hused
  length_add := hused ▸ h.length_add

/-- Changing the holders, not the slots. -/
theorem map_holders (h : Partitioned n free held) (f : ℕ × α → α) :
    Partitioned n free (held.map fun g => (g.1, f g)) := by
  rw [Partitioned, List.map_map]
  exact h

end Partitioned

end Oxillama
