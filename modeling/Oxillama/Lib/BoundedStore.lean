/-
A store of at most `max` values, the least recently used one going first.

A value belongs to a key; whoever visits a key changes its value, which is made on the first
visit.  A map holds the values and a recency list the order of the visits.

* `BoundedStore.Inv` — the list tracks the keys of the map in the order of their visits, and
  there are at most `max` of them; `BoundedStore.inv_visit` keeps it;
* `Admits` — what one visit does to the values of the other keys: nothing, except that a new
  key in a full store takes the place of the least recently visited one;
  `BoundedStore.admits_visit` shows that a visit does just that.
-/
import Oxillama.Lib.Maps
import Oxillama.Lib.Recency

namespace Oxillama

variable {κ β : Type} [DecidableEq κ]

/-- The values, and their keys in the order of the visits. -/
structure BoundedStore (κ β : Type) [DecidableEq κ] where
  entries : AList fun _ : κ => β
  lru : List κ

namespace BoundedStore

/-- The front of the list leaves, and its value with it unless it is the key `k`. -/
def evictFront (k : κ) (s : BoundedStore κ β) : BoundedStore κ β :=
  match s.lru with
  | [] => s
  | victim :: rest => ⟨if victim = k then s.entries else s.entries.erase victim, rest⟩

/-- A visit to `k`: its value, made of `init` if there is none, is changed by `f`. -/
def visit (max : ℕ) (k : κ) (init : β) (f : β → β) (s : BoundedStore κ β) : BoundedStore κ β :=
  let s₁ : BoundedStore κ β := ⟨s.entries, touch k s.lru⟩
  let s₂ := if k ∉ s.entries ∧ max < s₁.lru.length then s₁.evictFront k else s₁
  ⟨s₂.entries.insert k (f ((s₂.entries.lookup k).getD init)), s₂.lru⟩

/-- The list tracks the keys in the order of their visits, and they are at most `max`. -/
structure Inv (max : ℕ) (visits : List κ) (s : BoundedStore κ β) : Prop where
  tracks : Tracks s.lru s.entries.keys
  bounded : s.entries.keys.length ≤ max
  inOrder : InUseOrder visits s.lru

theorem inv_empty (max : ℕ) : Inv max ([] : List κ) (⟨∅, []⟩ : BoundedStore κ β) where
  tracks := .nil
  bounded := Nat.zero_le max
  inOrder := .nil []

end BoundedStore

/-- **One visit to `k`**, as the values of the other keys see it.  Where `k` has a value or
there is room for one more, they stay; where `k` is new and the store is full, the least
recently visited key loses its value, and the others stay. -/
structure Admits (max : ℕ) (visits : List κ) (k : κ) (before after : AList fun _ : κ => β) :
    Prop where
  here : k ∈ after
  room : k ∈ before ∨ before.keys.length < max →
    ∀ other, other ≠ k → after.lookup other = before.lookup other
  full : k ∉ before → before.keys.length = max →
    ∃ victim ∈ before, victim ∉ after ∧
      (∀ other ∈ before, other ≠ victim → lastUse visits victim < lastUse visits other) ∧
      ∀ other, other ≠ k → other ≠ victim → after.lookup other = before.lookup other

namespace BoundedStore

variable {max : ℕ} {visits : List κ} {s : BoundedStore κ β} {k : κ}

/-- A visit that evicts nothing. -/
theorem visit_of_room (init : β) (f : β → β) (h : k ∈ s.entries ∨ (touch k s.lru).length ≤ max) :
    s.visit max k init f =
      ⟨s.entries.insert k (f ((s.entries.lookup k).getD init)), touch k s.lru⟩ := by
  rw [visit, if_neg]
  rintro ⟨hnew, hfull⟩
  rcases h with hmem | hroom
  · exact hnew hmem
  · exact absurd hfull (Nat.not_lt.mpr hroom)

theorem length_touch (h : s.Inv max visits) (hnew : k ∉ s.entries) :
    (touch k s.lru).length = s.entries.keys.length + 1 := by
  have hinsert := h.tracks.insert k
  rw [hinsert.length_eq, List.erase_of_not_mem (AList.mem_keys.not.mp hnew), List.length_cons]

/-- In a full store the list is not empty, and its front is another key. -/
theorem front_of_full (hmax : 0 < max) (h : s.Inv max visits) (hnew : k ∉ s.entries)
    (hfull : s.entries.keys.length = max) :
    ∃ victim rest, s.lru = victim :: rest ∧ victim ≠ k ∧ victim ∈ s.entries ∧
      touch k s.lru = victim :: (rest ++ [k]) := by
  have hlen := h.tracks.length_eq
  cases hlru : s.lru with
  | nil =>
    rw [hlru] at hlen
    simp at hlen
    omega
  | cons victim rest =>
    have hmem : ∀ a ∈ s.lru, a ∈ s.entries := fun a ha =>
      AList.mem_keys.mpr (h.tracks.mem_iff.mp ha)
    have hne : ∀ a ∈ s.lru, a ≠ k := fun a ha heq => hnew (heq ▸ hmem a ha)
    have hfront : victim ∈ s.lru := by
      rw [hlru]
      exact List.mem_cons_self
    refine ⟨victim, rest, rfl, hne victim hfront, hmem victim hfront, ?_⟩
    have hkeep : s.lru.filter (· ≠ k) = s.lru :=
      List.filter_eq_self.mpr fun a ha => by simpa using hne a ha
    rw [hlru] at hkeep
    rw [touch, hkeep]
    rfl

/-- A visit that evicts the front of the list. -/
theorem visit_of_full (hmax : 0 < max) (h : s.Inv max visits) (hnew : k ∉ s.entries)
    (hfull : s.entries.keys.length = max) (init : β) (f : β → β) :
    ∃ victim rest, s.lru = victim :: rest ∧ victim ≠ k ∧ victim ∈ s.entries ∧
      s.visit max k init f =
        ⟨(s.entries.erase victim).insert k (f init), rest ++ [k]⟩ := by
  obtain ⟨victim, rest, hlru, hne, hmem, htouch⟩ := front_of_full hmax h hnew hfull
  refine ⟨victim, rest, hlru, hne, hmem, ?_⟩
  have hlen := length_touch h hnew
  have hgone : (s.entries.erase victim).lookup k = none := by
    rw [AList.lookup_erase_ne (Ne.symm hne)]
    exact AList.lookup_eq_none.mpr hnew
  rw [visit, if_pos ⟨hnew, by dsimp only; omega⟩, htouch]
  simp only [evictFront, if_neg hne, hgone, Option.getD_none]

/-- **Every visit keeps the invariant.** -/
theorem inv_visit (hmax : 0 < max) (h : s.Inv max visits) (k : κ) (init : β) (f : β → β) :
    (s.visit max k init f).Inv max (visits ++ [k]) := by
  by_cases hroom : k ∈ s.entries ∨ s.entries.keys.length < max
  · have hroom' : k ∈ s.entries ∨ (touch k s.lru).length ≤ max := by
      by_cases hmem : k ∈ s.entries
      · exact .inl hmem
      · have := length_touch h hmem
        have := hroom.resolve_left hmem
        exact .inr (by omega)
    rw [visit_of_room init f hroom']
    have htracks := h.tracks.insert k
    refine ⟨?_, ?_, h.inOrder.touch k⟩
    · show Tracks (touch k s.lru) (s.entries.insert k _).keys
      rw [AList.keys_insert]
      exact htracks
    · show (s.entries.insert k _).keys.length ≤ max
      rw [AList.keys_insert, ← htracks.length_eq]
      rcases hroom' with hmem | hlen
      · rw [(h.tracks.touch (AList.mem_keys.mp hmem)).length_eq]
        exact h.bounded
      · exact hlen
  · rw [not_or] at hroom
    have hbounded := h.bounded
    have hfull : s.entries.keys.length = max := by omega
    obtain ⟨victim, rest, hlru, hne, hmem, hvisit⟩ :=
      visit_of_full hmax h hroom.1 hfull init f
    rw [hvisit]
    have htracks : Tracks rest (s.entries.erase victim).keys := by
      rw [AList.keys_erase]
      have htracks := h.tracks
      rw [hlru] at htracks
      exact htracks.pop
    have hnew : k ∉ (s.entries.erase victim).keys := by
      rw [← AList.mem_keys, AList.mem_erase]
      exact fun hk => hroom.1 hk.2
    refine ⟨?_, ?_, ?_⟩
    · show Tracks (rest ++ [k]) ((s.entries.erase victim).insert k (f init)).keys
      rw [AList.keys_insert]
      exact htracks.push hnew
    · show ((s.entries.erase victim).insert k (f init)).keys.length ≤ max
      rw [AList.keys_insert, List.erase_of_not_mem hnew, List.length_cons, ← htracks.length_eq]
      have hlen := h.tracks.length_eq
      rw [hlru, List.length_cons] at hlen
      omega
    · obtain ⟨front, back, hfront, -, -, htouch⟩ := front_of_full hmax h hroom.1 hfull
      obtain ⟨rfl, rfl⟩ := List.cons.inj (hfront.symm.trans hlru)
      have horder := h.inOrder.touch k
      rw [htouch] at horder
      exact horder.sublist (List.sublist_cons_self _ _)

/-- **A visit admits its key** and evicts exactly the least recently visited one, if any. -/
theorem admits_visit (hmax : 0 < max) (h : s.Inv max visits) (k : κ) (init : β) (f : β → β) :
    Admits max visits k s.entries (s.visit max k init f).entries where
  here := (AList.mem_insert _).mpr (.inl rfl)
  room := by
    intro hroom other hother
    rw [visit_of_room init f]
    · exact AList.lookup_insert_ne hother
    · by_cases hmem : k ∈ s.entries
      · exact .inl hmem
      · have := length_touch h hmem
        have := hroom.resolve_left hmem
        exact .inr (by omega)
  full := by
    intro hnew hfull
    obtain ⟨victim, rest, hlru, hne, hmem, hvisit⟩ := visit_of_full hmax h hnew hfull init f
    rw [hvisit]
    refine ⟨victim, hmem, ?_, ?_, ?_⟩
    · intro hvictim
      rcases (AList.mem_insert _).mp hvictim with heq | hold
      · exact hne heq
      · exact (AList.mem_erase.mp hold).1 rfl
    · intro other hother hne'
      have horder := h.inOrder
      have hlisted := h.tracks.mem_iff.mpr (AList.mem_keys.mp hother)
      rw [hlru] at horder hlisted
      rcases List.mem_cons.mp hlisted with heq | hrest
      · exact absurd heq hne'
      · exact horder.front_least hrest
    · intro other hk hvictim
      exact (AList.lookup_insert_ne hk).trans (AList.lookup_erase_ne hvictim)

end BoundedStore

end Oxillama
