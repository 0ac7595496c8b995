/-
What the namespaces of prefix caches tell apart (`oxillama-server/src/prefix_registry.rs`).

`cacheNamespace` writes the model id and the sorted pairs of names and scales one behind the
other, with `|` before a name and `:` before a scale.  Names and model ids are free texts, and a
scale is written with six decimals.

* `fields`, `toList_cacheNamespace` — a namespace is the text of a list of fields;
* `fields_eq_iff` — the fields tell the names, but scales only up to their six decimals;
* `cacheNamespace_separates_iff` — **two requests are told apart exactly if their scales are, and
  no name of theirs runs over a `|` of the other**.
-/
import Mathlib.Data.String.Basic
import Oxillama.Lib.Fields
import Oxillama.Server.LoraWorker

namespace Oxillama

namespace Server

open Fields (Straddles)

variable {modelId modelId' : String} {l l' : List (String × Kv.F32)} {a b c : String × Kv.F32}

/-! ### The order of the pairs -/

theorem totalKey_injective {x y : Kv.F32} (h : totalKey x = totalKey y) : x = y := by
  rw [← UInt32.toNat_inj]
  have hx := x.toNat_lt
  have hy := y.toNat_lt
  simp only [totalKey] at h
  split at h
  · split at h <;> omega
  · split at h <;> omega

instance : Std.Total PairLe where
  total a b := by
    rcases lt_trichotomy a.1 b.1 with h | h | h
    · exact .inl (.inl h)
    · rcases le_total (totalKey a.2) (totalKey b.2) with hkey | hkey
      · exact .inl (.inr ⟨h, hkey⟩)
      · exact .inr (.inr ⟨h.symm, hkey⟩)
    · exact .inr (.inl h)

instance : IsTrans (String × Kv.F32) PairLe where
  trans a b c := by
    rintro (hab | ⟨hab, hkey⟩) (hbc | ⟨hbc, hkey'⟩)
    · exact .inl (hab.trans hbc)
    · exact .inl (hbc ▸ hab)
    · exact .inl (hab ▸ hbc)
    · exact .inr ⟨hab.trans hbc, hkey.trans hkey'⟩

instance : Std.Antisymm PairLe where
  antisymm a b := by
    rintro (hab | ⟨hab, hkey⟩) (hba | ⟨hba, hkey'⟩)
    · exact absurd hba (lt_asymm hab)
    · exact absurd hab (hba ▸ lt_irrefl _)
    · exact absurd hba (hab ▸ lt_irrefl _)
    · exact Prod.ext hab (totalKey_injective (le_antisymm hkey hkey'))

/-- The order in which a request lists its adapters does not matter. -/
theorem insertionSort_eq_iff : l.insertionSort PairLe = l'.insertionSort PairLe ↔ l.Perm l' := by
  constructor
  · intro h
    exact (List.perm_insertionSort PairLe l).symm.trans (h ▸ List.perm_insertionSort PairLe l')
  · intro h
    refine List.Perm.eq_of_pairwise' (List.pairwise_insertionSort PairLe l)
      (List.pairwise_insertionSort PairLe l') ?_
    exact ((List.perm_insertionSort PairLe l).trans h).trans (List.perm_insertionSort PairLe l').symm

/-! ### The text of a namespace -/

/-- What is written between the `|`: the model id, and a name with its scale for every adapter. -/
def fields (modelId : String) (loraSelection : List (String × Kv.F32)) : List (List Char) :=
  modelId.toList :: (loraSelection.insertionSort PairLe).map fun pair =>
    pair.1.toList ++ ':' :: (formatScale pair.2).toList

theorem fields_ne_nil (modelId : String) (l : List (String × Kv.F32)) : fields modelId l ≠ [] :=
  List.cons_ne_nil _ _

/-- **A namespace** is its fields with `|` between them. -/
theorem toList_cacheNamespace (modelId : String) (l : List (String × Kv.F32)) :
    (cacheNamespace modelId l).toList = ['|'].intercalate (fields modelId l) := by
  rw [cacheNamespace, fields]
  generalize l.insertionSort PairLe = sorted
  induction sorted generalizing modelId with
  | nil => rw [List.foldl_nil, List.map_nil, List.intercalate_singleton]
  | cons pair sorted ih =>
    rw [List.foldl_cons, ih, List.map_cons, String.toList_append, String.toList_append,
      String.toList_append, String.toList_append]
    have hfield : (modelId.toList ++ "|".toList ++ pair.1.toList ++ ":".toList ++
        (formatScale pair.2).toList) =
      modelId.toList ++ '|' :: (pair.1.toList ++ ':' :: (formatScale pair.2).toList) := by
      simp [show "|".toList = ['|'] from rfl, show ":".toList = [':'] from rfl]
    rw [hfield, Fields.intercalate_append_cons, Fields.intercalate_cons (List.cons_ne_nil _ _)]

theorem isDigit_of_mem_repr {n : ℕ} {ch : Char} (h : ch ∈ (Nat.repr n).toList) : ch.isDigit := by
  rw [Nat.repr, String.toList_ofList] at h
  exact Nat.isDigit_of_mem_toDigits (by decide) (by decide) h

/-- A scale is written without separators. -/
theorem not_mem_formatScale {x : Kv.F32} {ch : Char} (h : ch ∈ (formatScale x).toList) :
    ch ≠ ':' ∧ ch ≠ '|' := by
  have hdigit : ∀ {ch : Char}, ch.isDigit → ch ≠ ':' ∧ ch ≠ '|' := by
    rintro ch hch
    exact ⟨by rintro rfl; exact absurd hch (by decide), by rintro rfl; exact absurd hch (by decide)⟩
  rw [formatScale] at h
  generalize hsign : (if x.toNat < 2 ^ 31 then "" else "-") = sign at h
  have hsigned : ∀ ch ∈ sign.toList, ch ≠ ':' ∧ ch ≠ '|' := by
    rw [← hsign]
    split <;> simp
  dsimp only at h
  split at h
  · exact (by simp : ∀ ch ∈ "NaN".toList, ch ≠ ':' ∧ ch ≠ '|') ch h
  · split at h
    · rw [String.toList_append, List.mem_append] at h
      exact h.elim (hsigned ch) ((by simp : ∀ ch ∈ "inf".toList, ch ≠ ':' ∧ ch ≠ '|') ch)
    · simp only [String.toList_append, List.mem_append, String.toList_ofList] at h
      rcases h with ((h | h) | h) | h
      · exact hsigned ch h
      · exact hdigit (isDigit_of_mem_repr h)
      · exact (by simp : ∀ ch ∈ ".".toList, ch ≠ ':' ∧ ch ≠ '|') ch h
      · exact hdigit (Nat.isDigit_of_mem_toDigits (by decide) (by decide) (List.mem_of_mem_tail h))

/-- The last `:` of a field ends the name. -/
theorem append_colon_inj {name name' text text' : List Char} (htext : ':' ∉ text)
    (htext' : ':' ∉ text') :
    name ++ ':' :: text = name' ++ ':' :: text' ↔ name = name' ∧ text = text' := by
  constructor
  · intro h
    rcases List.append_eq_append_iff.mp h with ⟨z, rfl, hz⟩ | ⟨z, rfl, hz⟩
    · cases z with
      | nil => exact ⟨(List.append_nil _).symm, (List.cons.inj hz).2⟩
      | cons ch z =>
        refine absurd ?_ htext
        rw [(List.cons.inj hz).2]
        simp
    · cases z with
      | nil => exact ⟨List.append_nil _, (List.cons.inj hz).2.symm⟩
      | cons ch z =>
        refine absurd ?_ htext'
        rw [(List.cons.inj hz).2]
        simp
  · rintro ⟨rfl, rfl⟩
    rfl

/-- A pair as a namespace has it: the scale with six decimals. -/
def shown (pair : String × Kv.F32) : String × String := (pair.1, formatScale pair.2)

theorem field_eq_iff : a.1.toList ++ ':' :: (formatScale a.2).toList =
    b.1.toList ++ ':' :: (formatScale b.2).toList ↔ shown a = shown b := by
  rw [append_colon_inj (fun h => (not_mem_formatScale h).1 rfl)
      (fun h => (not_mem_formatScale h).1 rfl),
    String.toList_inj, String.toList_inj, shown, shown, Prod.mk.injEq]

/-- **The fields** tell the model id and the names, and what is shown of the scales. -/
theorem fields_eq_iff : fields modelId l = fields modelId' l' ↔
    modelId = modelId' ∧
      (l.insertionSort PairLe).map shown = (l'.insertionSort PairLe).map shown := by
  have hmap : ∀ s s' : List (String × Kv.F32),
      (s.map fun pair => pair.1.toList ++ ':' :: (formatScale pair.2).toList) =
        (s'.map fun pair => pair.1.toList ++ ':' :: (formatScale pair.2).toList) ↔
      s.map shown = s'.map shown := by
    intro s
    induction s with
    | nil => intro s'; cases s' <;> simp
    | cons a s ih =>
      intro s'
      cases s' with
      | nil => simp
      | cons b s' =>
        rw [List.map_cons, List.map_cons, List.map_cons, List.map_cons, List.cons.injEq,
          List.cons.injEq, ih, field_eq_iff]
  rw [fields, fields, List.cons.injEq, String.toList_inj, hmap]

/-! ### What is told apart -/

/-- Adapters with the same names, but not at the same scales: in the order of the namespace their
scales have the same six decimals. -/
def Blurred (l l' : List (String × Kv.F32)) : Prop :=
  ¬ l.Perm l' ∧ (l.insertionSort PairLe).map shown = (l'.insertionSort PairLe).map shown

/-- **When namespaces tell two requests apart**: the scales of one model are not blurred, and no
field of one request runs over a `|` of the other. -/
theorem cacheNamespace_separates_iff (modelId modelId' : String) (l l' : List (String × Kv.F32)) :
    (cacheNamespace modelId l = cacheNamespace modelId' l' ↔ modelId = modelId' ∧ l.Perm l') ↔
      ¬ (modelId = modelId' ∧ Blurred l l') ∧
        ¬ Straddles '|' (fields modelId l) (fields modelId' l') := by
  rw [← String.toList_inj, toList_cacheNamespace, toList_cacheNamespace,
    Fields.intercalate_eq_iff (fields_ne_nil _ _) (fields_ne_nil _ _)]
  constructor
  · intro h
    constructor
    · rintro ⟨rfl, hnot, hshown⟩
      exact hnot (h.mp (.inl (fields_eq_iff.mpr ⟨rfl, hshown⟩))).2
    · intro hstraddles
      obtain ⟨rfl, hperm⟩ := h.mp (.inr hstraddles)
      refine hstraddles.ne (fields_eq_iff.mpr ⟨rfl, ?_⟩)
      rw [insertionSort_eq_iff.mpr hperm]
  · rintro ⟨hblurred, hstraddles⟩
    constructor
    · rintro (hfields | hover)
      · obtain ⟨rfl, hshown⟩ := fields_eq_iff.mp hfields
        exact ⟨rfl, by_contra fun hnot => hblurred ⟨rfl, hnot, hshown⟩⟩
      · exact absurd hover hstraddles
    · rintro ⟨rfl, hperm⟩
      refine .inl (fields_eq_iff.mpr ⟨rfl, ?_⟩)
      rw [insertionSort_eq_iff.mpr hperm]

/-- Two scales that are next to each other, and a name with separators. -/
theorem cacheNamespace_collides :
    (cacheNamespace "m" [("a", 0x3DCCCCCD)] = cacheNamespace "m" [("a", 0x3DCCCCCE)] ∧
        ¬ [("a", (0x3DCCCCCD : Kv.F32))].Perm [("a", 0x3DCCCCCE)]) ∧
      cacheNamespace "m" [("a", 0x3F800000), ("b", 0x3F800000)] =
          cacheNamespace "m" [("a:1.000000|b", 0x3F800000)] ∧
        ¬ [("a", (0x3F800000 : Kv.F32)), ("b", 0x3F800000)].Perm [("a:1.000000|b", 0x3F800000)] := by
  decide_cbv

/-- Without `|` in model ids and names, no field runs over one. -/
theorem not_straddles_of_free (hid : '|' ∉ modelId.toList) (hid' : '|' ∉ modelId'.toList)
    (hl : ∀ pair ∈ l, '|' ∉ pair.1.toList) (hl' : ∀ pair ∈ l', '|' ∉ pair.1.toList) :
    ¬ Straddles '|' (fields modelId l) (fields modelId' l') := by
  have hfree : ∀ {modelId : String} {l : List (String × Kv.F32)}, '|' ∉ modelId.toList →
      (∀ pair ∈ l, '|' ∉ pair.1.toList) → ∀ field ∈ fields modelId l, '|' ∉ field := by
    intro modelId l hid hl field hfield hbar
    rcases List.mem_cons.mp hfield with rfl | hfield
    · exact hid hbar
    · obtain ⟨pair, hpair, rfl⟩ := List.mem_map.mp hfield
      rcases List.mem_append.mp hbar with hbar | hbar
      · exact hl pair ((List.mem_insertionSort PairLe).mp hpair) hbar
      · rcases List.mem_cons.mp hbar with hbar | hbar
        · exact absurd hbar (by decide)
        · exact (not_mem_formatScale hbar).2 rfl
  intro h
  obtain ⟨field, hfield, hbar⟩ := h.exists_mem
  rcases List.mem_append.mp hfield with hfield | hfield
  · exact hfree hid hl field hfield hbar
  · exact hfree hid' hl' field hfield hbar

end Server

end Oxillama
