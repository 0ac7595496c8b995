/-
The LRU weight pager, one call at a time.

`LayerPager.acquire` answers a resident tensor at once and moves it to the recent end of
the LRU list; any other tensor it loads from the source, evicting the least recently used
tensors that are not pinned until the new one fits.

* `LayerPager.Consistent` — the byte counter is the sum of the resident sizes and the LRU
  list holds exactly the resident tensors;
* `LayerPager.evictLoop_enough` — an eviction loop that ends at all ends within as many
  rounds as the LRU list is long, and one round more;
* `LayerPager.evictToFit_spec` — from a consistent state the loop ends, takes away tensors
  that are not pinned only, and stops where the new tensor fits or none of these is left;
* `LayerPager.acquire_faithful` — **the pager is a faithful bounded cache**, in every run.

A 64-bit target is assumed.  Nothing in the pager panics while it holds a lock, so no lock
is ever poisoned.
-/
import Mathlib.Algebra.Group.Nat.Defs
import Mathlib.Data.Finset.Basic
import Oxillama.Lib.Maps
import Oxillama.Lib.Recency
import Oxillama.Lib.Run
import Oxillama.Lib.Usize

namespace Oxillama

namespace Offload

/-- `TensorId`: the name of a weight tensor. -/
structure TensorId where
  name : String
deriving DecidableEq

/-- `TensorEntry`: where a tensor lies in the backing weight file. -/
structure TensorEntry where
  fileOffset : ℕ
  sizeBytes : ℕ
deriving DecidableEq

/-- `ResidentTensor`: a tensor in RAM. -/
structure ResidentTensor where
  data : List UInt8
  sizeBytes : ℕ
deriving DecidableEq

/-- The errors of the pager. -/
inductive RuntimeError
  | tensorNotFound (id : String)
  | offloadEof (offset needed available : ℕ)
  | io (message : String)
deriving DecidableEq

/-- `PagerSource`: the backing byte store. -/
structure PagerSource where
  bytes : List UInt8

/-- `PagerSource::read_bytes_at`: exactly `len` bytes at `offset`.  `fault` is the error of
a read that fails for a reason of its own. -/
def PagerSource.readBytesAt (source : PagerSource) (fault : Option RuntimeError)
    (offset len : ℕ) : Except RuntimeError (List UInt8) :=
  match fault with
  | some e => .error e
  | none =>
    if offset + len ≤ source.bytes.length then .ok ((source.bytes.drop offset).take len)
    else .error (.offloadEof offset len (source.bytes.length - offset))

/-- `LayerPager`. -/
structure LayerPager where
  source : PagerSource
  tensorMap : AList fun _ : TensorId => TensorEntry
  resident : AList fun _ : TensorId => ResidentTensor
  pinned : Finset TensorId
  lru : List TensorId
  budgetBytes : ℕ
  residentBytes : ℕ

namespace LayerPager

/-- `LayerPager::new`. -/
def new (source : PagerSource) (tensorMap : AList fun _ : TensorId => TensorEntry)
    (budgetBytes : ℕ) (pinned : Finset TensorId) : LayerPager where
  source
  tensorMap
  resident := ∅
  pinned
  lru := []
  budgetBytes
  residentBytes := 0

/-! ### The sections of the pager -/

/-- `resident_bytes.fetch_add`, which wraps. -/
def fetchAdd (p : LayerPager) (n : ℕ) : LayerPager :=
  { p with residentBytes := (p.residentBytes + n) % 2 ^ 64 }

/-- `resident_bytes.fetch_sub`, which wraps. -/
def fetchSub (p : LayerPager) (n : ℕ) : LayerPager :=
  { p with residentBytes := (p.residentBytes + (2 ^ 64 - n % 2 ^ 64)) % 2 ^ 64 }

/-- `bump_lru`: the first occurrence of `id` goes, and `id` comes to the end. -/
def bumpLru (p : LayerPager) (id : TensorId) : LayerPager :=
  { p with lru := p.lru.erase id ++ [id] }

/-- `lru.push_back(id)`. -/
def pushLru (p : LayerPager) (id : TensorId) : LayerPager :=
  { p with lru := p.lru ++ [id] }

/-- `lru.retain(|x| x != id)`. -/
def retainLru (p : LayerPager) (id : TensorId) : LayerPager :=
  { p with lru := p.lru.filter (· ≠ id) }

/-- `resident.remove(id)`. -/
def removeResident (p : LayerPager) (id : TensorId) : LayerPager :=
  { p with resident := p.resident.erase id }

/-- `resident.insert(id, tensor)`. -/
def insertResident (p : LayerPager) (id : TensorId) (tensor : ResidentTensor) : LayerPager :=
  { p with resident := p.resident.insert id tensor }

/-- Whether `needed` more bytes stay within the budget. -/
def fits (p : LayerPager) (needed : ℕ) : Prop :=
  saturatingAdd p.residentBytes needed ≤ p.budgetBytes

instance (p : LayerPager) (needed : ℕ) : Decidable (p.fits needed) :=
  inferInstanceAs (Decidable (_ ≤ _))

/-- The oldest entry of the LRU list that is not pinned. -/
def findVictim (p : LayerPager) : Option TensorId :=
  p.lru.find? fun id => id ∉ p.pinned

/-- The bytes of all resident tensors. -/
def residentTotal (p : LayerPager) : ℕ := mapSum ResidentTensor.sizeBytes p.resident

/-! ### `evict_to_fit` and `acquire` -/

/-- The eviction of one victim.  A victim that is not resident stays in the LRU list. -/
def evict (p : LayerPager) (victim : TensorId) : LayerPager :=
  match p.resident.lookup victim with
  | some evicted => ((p.removeResident victim).fetchSub evicted.sizeBytes).retainLru victim
  | none => p

/-- One round of the loop of `evict_to_fit`; `none` when it breaks. -/
def evictRound (p : LayerPager) (needed : ℕ) : Option LayerPager :=
  if p.fits needed then none else p.findVictim.map p.evict

/-- The loop of `evict_to_fit`; `none` when `rounds` rounds are not enough. -/
def evictLoop (needed : ℕ) : ℕ → LayerPager → Option LayerPager
  | 0, _ => none
  | rounds + 1, p =>
    match p.evictRound needed with
    | none => some p
    | some p' => evictLoop needed rounds p'

/-- `evict_to_fit`.  A loop that takes more rounds than these never ends
(`evictLoop_enough`). -/
def evictToFit (p : LayerPager) (needed : ℕ) : Option LayerPager :=
  evictLoop needed (p.lru.length + 1) p

/-- The slow path of `acquire`.  The allocation of the buffer aborts the process where the
resident tensors and the new one do not fit into the address space together. -/
def load (p : LayerPager) (id : TensorId) (fault : Option RuntimeError) :
    Option (LayerPager × Except RuntimeError ResidentTensor) :=
  match p.tensorMap.lookup id with
  | none => some (p, .error (.tensorNotFound id.name))
  | some entry =>
    (p.evictToFit entry.sizeBytes).bind fun p =>
      if p.residentTotal + entry.sizeBytes < 2 ^ 64 then
        match p.source.readBytesAt fault entry.fileOffset entry.sizeBytes with
        | .error e => some (p, .error e)
        | .ok data =>
          let tensor : ResidentTensor := ⟨data, entry.sizeBytes⟩
          some (((p.insertResident id tensor).pushLru id).fetchAdd entry.sizeBytes, .ok tensor)
      else none

/-- `LayerPager::acquire`. -/
def acquire (p : LayerPager) (id : TensorId) (fault : Option RuntimeError) :
    Option (LayerPager × Except RuntimeError ResidentTensor) :=
  match p.resident.lookup id with
  | some _ =>
    let p := p.bumpLru id
    match p.resident.lookup id with
    | some tensor => some (p, .ok tensor)
    | none => p.load id fault
  | none => p.load id fault

/-- One call: the tensor asked for, and the fault of the read should there be one. -/
def step (p : LayerPager) (call : TensorId × Option RuntimeError) :
    Option (LayerPager × Except RuntimeError ResidentTensor) :=
  p.acquire call.1 call.2

/-! ### Consistency -/

/-- The counter is the sum of the resident sizes, and the LRU list holds exactly the
resident tensors. -/
structure Consistent (p : LayerPager) : Prop where
  bytes : p.residentBytes = p.residentTotal
  tracks : Tracks p.lru p.resident.keys

/-- The counter as the machine word it is. -/
theorem fetchSub_bytes {p : LayerPager} {n rest : ℕ} (h : p.residentBytes = n + rest)
    (hlt : p.residentBytes < 2 ^ 64) : (p.fetchSub n).residentBytes = rest := by
  show (p.residentBytes + (2 ^ 64 - n % 2 ^ 64)) % 2 ^ 64 = rest
  rw [Nat.mod_eq_of_lt (show n < 2 ^ 64 by omega), h]
  omega

theorem fetchAdd_bytes {p : LayerPager} {n : ℕ} (hlt : p.residentBytes + n < 2 ^ 64) :
    (p.fetchAdd n).residentBytes = p.residentBytes + n :=
  Nat.mod_eq_of_lt hlt

theorem mem_resident_iff {p : LayerPager} {id : TensorId} :
    id ∈ p.resident ↔ ∃ tensor, p.resident.lookup id = some tensor := by
  rw [← AList.lookup_isSome, Option.isSome_iff_exists]

theorem findVictim_spec {p : LayerPager} {victim : TensorId} (h : p.findVictim = some victim) :
    victim ∈ p.lru ∧ victim ∉ p.pinned :=
  ⟨List.mem_of_find?_eq_some h, by simpa using List.find?_some h⟩

theorem findVictim_eq_none {p : LayerPager} (h : p.findVictim = none) :
    ∀ id ∈ p.lru, id ∈ p.pinned := by
  intro id hid
  simpa using List.find?_eq_none.mp h id hid

/-! ### The eviction loop -/

/-- No call changes the configuration. -/
structure SameConfig (p p' : LayerPager) : Prop where
  source : p'.source = p.source
  tensorMap : p'.tensorMap = p.tensorMap
  pinned : p'.pinned = p.pinned
  budget : p'.budgetBytes = p.budgetBytes

namespace SameConfig

theorem refl (p : LayerPager) : SameConfig p p := ⟨rfl, rfl, rfl, rfl⟩

theorem trans {p p' p'' : LayerPager} (h : SameConfig p p') (h' : SameConfig p' p'') :
    SameConfig p p'' where
  source := h'.source.trans h.source
  tensorMap := h'.tensorMap.trans h.tensorMap
  pinned := h'.pinned.trans h.pinned
  budget := h'.budget.trans h.budget

end SameConfig

/-- What an eviction leaves alone: the tensors that stay, and the pinned ones. -/
structure EvictedTo (p p' : LayerPager) : Prop extends SameConfig p p' where
  stays : ∀ id tensor, p'.resident.lookup id = some tensor → p.resident.lookup id = some tensor
  keeps : ∀ id ∈ p.pinned, p'.resident.lookup id = p.resident.lookup id

namespace EvictedTo

theorem refl (p : LayerPager) : EvictedTo p p :=
  ⟨.refl p, fun _ _ h => h, fun _ _ => rfl⟩

theorem trans {p p' p'' : LayerPager} (h : EvictedTo p p') (h' : EvictedTo p' p'') :
    EvictedTo p p'' where
  toSameConfig := h.toSameConfig.trans h'.toSameConfig
  stays id tensor hid := h.stays id tensor (h'.stays id tensor hid)
  keeps id hid := (h'.keeps id (by rwa [h.pinned])).trans (h.keeps id hid)

end EvictedTo

/-- What the eviction of a resident tensor does. -/
theorem evict_of_lookup {p : LayerPager} {victim : TensorId} {evicted : ResidentTensor}
    (h : p.resident.lookup victim = some evicted) :
    p.evict victim = ((p.removeResident victim).fetchSub evicted.sizeBytes).retainLru victim := by
  rw [evict, h]

theorem evict_of_not_resident {p : LayerPager} {victim : TensorId}
    (h : p.resident.lookup victim = none) : p.evict victim = p := by
  rw [evict, h]

/-- **One eviction** of a resident tensor that is not pinned. -/
theorem evict_spec {p : LayerPager} (h : p.Consistent) (hlt : p.residentTotal < 2 ^ 64)
    {victim : TensorId} (hlru : victim ∈ p.lru) (hpinned : victim ∉ p.pinned) :
    (p.evict victim).Consistent ∧ (p.evict victim).residentTotal ≤ p.residentTotal ∧
      (p.evict victim).lru.length < p.lru.length ∧ EvictedTo p (p.evict victim) := by
  obtain ⟨evicted, hlookup⟩ := mem_resident_iff.mp
    (AList.mem_keys.mpr (h.tracks.mem_iff.mp hlru))
  have hsum : evicted.sizeBytes + (p.removeResident victim).residentTotal = p.residentTotal :=
    mapSum_erase ResidentTensor.sizeBytes hlookup
  rw [evict_of_lookup hlookup]
  refine ⟨⟨?_, ?_⟩, ?_, ?_, ⟨⟨rfl, rfl, rfl, rfl⟩, ?_, ?_⟩⟩
  · have hbytes := h.bytes
    refine fetchSub_bytes (p := p.removeResident victim) (n := evicted.sizeBytes) ?_ ?_
    · show p.residentBytes = evicted.sizeBytes + (p.removeResident victim).residentTotal
      omega
    · show p.residentBytes < 2 ^ 64
      omega
  · show Tracks (p.lru.filter (· ≠ victim)) (p.resident.erase victim).keys
    rw [AList.keys_erase]
    exact h.tracks.remove victim
  · show (p.removeResident victim).residentTotal ≤ p.residentTotal
    omega
  · exact List.length_filter_lt_length_iff_exists.mpr ⟨victim, hlru, by simp⟩
  · intro id tensor hid
    have hne : id ≠ victim := by
      rintro rfl
      have hgone : (p.resident.erase id).lookup id = none := AList.lookup_erase id p.resident
      cases hgone.symm.trans hid
    exact (AList.lookup_erase_ne hne).symm.trans hid
  · intro id hid
    exact AList.lookup_erase_ne fun heq => hpinned (heq ▸ hid)

theorem evictLoop_mono {needed rounds rounds' : ℕ} {p p' : LayerPager} (hle : rounds ≤ rounds')
    (h : evictLoop needed rounds p = some p') : evictLoop needed rounds' p = some p' := by
  induction rounds generalizing p rounds' with
  | zero => cases h
  | succ rounds ih =>
    obtain ⟨more, rfl⟩ : ∃ more, rounds' = more + 1 := ⟨rounds' - 1, by omega⟩
    rw [evictLoop] at h ⊢
    cases hround : p.evictRound needed with
    | none => rwa [hround] at h
    | some p₁ =>
      rw [hround] at h
      exact ih (by omega) h

/-- A round either shortens the LRU list or changes nothing at all. -/
theorem evictRound_progress {p p₁ : LayerPager} {needed : ℕ}
    (h : p.evictRound needed = some p₁) : p₁.lru.length < p.lru.length ∨ p₁ = p := by
  rw [evictRound] at h
  split at h
  · cases h
  · obtain ⟨victim, hvictim, rfl⟩ := Option.map_eq_some_iff.mp h
    cases hlookup : p.resident.lookup victim with
    | none => exact .inr (evict_of_not_resident hlookup)
    | some evicted =>
      rw [evict_of_lookup hlookup]
      left
      exact List.length_filter_lt_length_iff_exists.mpr
        ⟨victim, (findVictim_spec hvictim).1, by simp⟩

/-- **The rounds are enough.**  A loop that ends at all ends within them. -/
theorem evictLoop_enough {needed rounds : ℕ} {p p' : LayerPager}
    (h : evictLoop needed rounds p = some p') : p.evictToFit needed = some p' := by
  induction rounds generalizing p with
  | zero => cases h
  | succ rounds ih =>
    rw [evictLoop] at h
    cases hround : p.evictRound needed with
    | none =>
      rw [hround] at h
      rw [evictToFit, evictLoop, hround]
      exact h
    | some p₁ =>
      rw [hround] at h
      -- a round that changes nothing would repeat itself for ever
      rcases evictRound_progress hround with hshorter | rfl
      · rw [evictToFit, evictLoop, hround]
        exact evictLoop_mono (by omega) (ih h)
      · exact ih h

/-- **`evict_to_fit` from a consistent state** ends in a consistent state, where the new
tensor fits or only pinned tensors are left. -/
theorem evictLoop_spec {p : LayerPager} (h : p.Consistent) (hlt : p.residentTotal < 2 ^ 64)
    (needed : ℕ) {rounds : ℕ} (hrounds : p.lru.length < rounds) :
    ∃ p', evictLoop needed rounds p = some p' ∧ p'.Consistent ∧
      p'.residentTotal ≤ p.residentTotal ∧ EvictedTo p p' ∧
      (p'.fits needed ∨ ∀ id ∈ p'.resident, id ∈ p.pinned) := by
  induction rounds generalizing p with
  | zero => omega
  | succ rounds ih =>
    rw [evictLoop, evictRound]
    by_cases hfits : p.fits needed
    · rw [if_pos hfits]
      exact ⟨p, rfl, h, le_rfl, .refl p, .inl hfits⟩
    rw [if_neg hfits]
    cases hvictim : p.findVictim with
    | none =>
      refine ⟨p, rfl, h, le_rfl, .refl p, .inr fun id hid => ?_⟩
      exact findVictim_eq_none hvictim id (h.tracks.mem_iff.mpr (AList.mem_keys.mp hid))
    | some victim =>
      obtain ⟨hlru, hpinned⟩ := findVictim_spec hvictim
      obtain ⟨hcons, htotal, hshorter, hto⟩ := evict_spec h hlt hlru hpinned
      obtain ⟨p', hloop, hcons', htotal', hto', hend⟩ := ih hcons (by omega) (by omega)
      refine ⟨p', hloop, hcons', by omega, hto.trans hto', ?_⟩
      rwa [hto.pinned] at hend

theorem evictToFit_spec {p : LayerPager} (h : p.Consistent) (hlt : p.residentTotal < 2 ^ 64)
    (needed : ℕ) :
    ∃ p', p.evictToFit needed = some p' ∧ p'.Consistent ∧
      p'.residentTotal ≤ p.residentTotal ∧ EvictedTo p p' ∧
      (p'.fits needed ∨ ∀ id ∈ p'.resident, id ∈ p.pinned) :=
  evictLoop_spec h hlt needed (Nat.lt_succ_self _)

/-! ### One call -/

/-- The bytes the source holds for a tensor. -/
def sourceBytes (source : PagerSource) (tensorMap : AList fun _ : TensorId => TensorEntry)
    (id : TensorId) : Option (List UInt8) :=
  (tensorMap.lookup id).map fun entry => (source.bytes.drop entry.fileOffset).take entry.sizeBytes

theorem readBytesAt_ok {source : PagerSource} {fault : Option RuntimeError} {offset len : ℕ}
    {data : List UInt8} (h : source.readBytesAt fault offset len = .ok data) :
    data = (source.bytes.drop offset).take len ∧ data.length = len := by
  unfold PagerSource.readBytesAt at h
  cases fault with
  | some e => cases h
  | none =>
    dsimp only at h
    split at h
    · rename_i hin
      cases h
      refine ⟨rfl, ?_⟩
      rw [List.length_take, List.length_drop]
      omega
    · cases h

/-- **The invariant of a pager** over its source: it is consistent, the resident tensors fit
into the address space, and each of them is what the source holds for it. -/
structure Inv (p : LayerPager) : Prop extends p.Consistent where
  small : p.residentTotal < 2 ^ 64
  faithful : ∀ id tensor, p.resident.lookup id = some tensor →
    sourceBytes p.source p.tensorMap id = some tensor.data ∧
      tensor.sizeBytes = tensor.data.length

theorem inv_new (source : PagerSource) (tensorMap : AList fun _ : TensorId => TensorEntry)
    (budgetBytes : ℕ) (pinned : Finset TensorId) :
    (new source tensorMap budgetBytes pinned).Inv where
  bytes := rfl
  tracks := .nil
  small := by
    show 0 < 2 ^ 64
    omega
  faithful := fun _ _ h => by cases h

/-- A call that finds its tensor: only the LRU list changes. -/
structure Hit (p : LayerPager) (id : TensorId) (p' : LayerPager)
    (out : Except RuntimeError ResidentTensor) : Prop where
  was : id ∈ p.resident
  state : p' = p.bumpLru id
  answer : ∃ tensor, p.resident.lookup id = some tensor ∧ out = .ok tensor

/-- A call that finds no entry for its tensor, or whose read fails. -/
structure Failed (p : LayerPager) (id : TensorId) (p' : LayerPager)
    (out : Except RuntimeError ResidentTensor) : Prop where
  wasNot : id ∉ p.resident
  answer : ∃ e, out = .error e
  evicted : EvictedTo p p'
  room : p' = p ∨ p'.residentBytes ≤ p'.budgetBytes ∨ ∀ k ∈ p'.resident, k ∈ p.pinned

/-- A call that loads its tensor. -/
structure Loaded (p : LayerPager) (id : TensorId) (p' : LayerPager)
    (out : Except RuntimeError ResidentTensor) : Prop where
  wasNot : id ∉ p.resident
  answer : ∃ tensor, out = .ok tensor ∧ p'.resident.lookup id = some tensor
  config : SameConfig p p'
  others : ∀ k tensor, k ≠ id → p'.resident.lookup k = some tensor →
    p.resident.lookup k = some tensor
  keeps : ∀ k ∈ p.pinned, k ∈ p.resident → p'.resident.lookup k = p.resident.lookup k
  room : p'.residentBytes ≤ p'.budgetBytes ∨ ∀ k ∈ p'.resident, k ∈ p.pinned ∨ k = id

/-- Room for `needed` more bytes leaves the counter within the budget, whether they come or
not. -/
theorem fits_iff_of_small {p : LayerPager} {needed : ℕ}
    (hlt : p.residentBytes + needed < 2 ^ 64) :
    p.fits needed ↔ p.residentBytes + needed ≤ p.budgetBytes := by
  rw [fits, saturatingAdd, Nat.min_eq_left (by omega)]

/-- A state reached by an eviction keeps the invariant. -/
theorem Inv.evictedTo {p p' : LayerPager} (h : p.Inv) (hcons : p'.Consistent)
    (htotal : p'.residentTotal ≤ p.residentTotal) (hto : EvictedTo p p') : p'.Inv where
  toConsistent := hcons
  small := lt_of_le_of_lt htotal h.small
  faithful := by
    intro id tensor hid
    rw [hto.source, hto.tensorMap]
    exact h.faithful id tensor (hto.stays id tensor hid)

/-- **A load that reads its bytes** puts the tensor in and counts it. -/
theorem Inv.insert {p : LayerPager} (h : p.Inv) {id : TensorId} {data : List UInt8} {n : ℕ}
    (hnew : id ∉ p.resident) (hroom : p.residentTotal + n < 2 ^ 64)
    (hdata : sourceBytes p.source p.tensorMap id = some data) (hlen : data.length = n) :
    (((p.insertResident id ⟨data, n⟩).pushLru id).fetchAdd n).Inv ∧
      (((p.insertResident id ⟨data, n⟩).pushLru id).fetchAdd n).residentBytes =
        p.residentBytes + n := by
  have hbytes := h.bytes
  have hadd : (((p.insertResident id ⟨data, n⟩).pushLru id).fetchAdd n).residentBytes =
      p.residentBytes + n :=
    fetchAdd_bytes (p := (p.insertResident id ⟨data, n⟩).pushLru id)
      (show p.residentBytes + n < 2 ^ 64 by omega)
  have htotal : (((p.insertResident id ⟨data, n⟩).pushLru id).fetchAdd n).residentTotal =
      n + p.residentTotal :=
    mapSum_insert_of_notMem ResidentTensor.sizeBytes hnew _
  refine ⟨⟨⟨?_, ?_⟩, ?_, ?_⟩, hadd⟩
  · rw [hadd, htotal]
    omega
  · show Tracks (p.lru ++ [id]) (p.resident.insert id ⟨data, n⟩).keys
    rw [AList.keys_insert]
    exact h.tracks.push (AList.mem_keys.not.mp hnew)
  · rw [htotal]
    omega
  · intro k tensor hk
    by_cases hkid : k = id
    · subst hkid
      obtain rfl := Option.some.inj ((AList.lookup_insert p.resident).symm.trans hk)
      exact ⟨hdata, hlen.symm⟩
    · exact h.faithful k tensor ((AList.lookup_insert_ne hkid).symm.trans hk)

/-- **The slow path** fails or loads. -/
theorem load_spec {p : LayerPager} (h : p.Inv) {id : TensorId} {fault : Option RuntimeError}
    (hnew : id ∉ p.resident) {p' : LayerPager} {out : Except RuntimeError ResidentTensor}
    (hload : p.load id fault = some (p', out)) :
    p'.Inv ∧ (Failed p id p' out ∨ Loaded p id p' out) := by
  rw [load] at hload
  cases hentry : p.tensorMap.lookup id with
  | none =>
    rw [hentry] at hload
    cases hload
    exact ⟨h, .inl ⟨hnew, ⟨_, rfl⟩, .refl p, .inl rfl⟩⟩
  | some entry =>
    rw [hentry] at hload
    obtain ⟨p₁, hevict, hload⟩ := Option.bind_eq_some_iff.mp hload
    obtain ⟨p₁', hevict', hcons, htotal, hto, hroom⟩ :=
      evictToFit_spec h.toConsistent h.small entry.sizeBytes
    obtain rfl := Option.some.inj (hevict'.symm.trans hevict)
    have h₁ := h.evictedTo hcons htotal hto
    have hbytes := h₁.bytes
    -- the allocation of the buffer went through
    split at hload
    rotate_left
    · cases hload
    rename_i halloc
    rw [fits_iff_of_small (by omega)] at hroom
    cases hread : p₁'.source.readBytesAt fault entry.fileOffset entry.sizeBytes with
    | error e =>
      rw [hread] at hload
      cases hload
      refine ⟨h₁, .inl ⟨hnew, ⟨e, rfl⟩, hto, .inr ?_⟩⟩
      rcases hroom with hfits | honly
      · left
        omega
      · exact .inr honly
    | ok data =>
      rw [hread] at hload
      cases hload
      obtain ⟨hdata, hlen⟩ := readBytesAt_ok hread
      have hnew₁ : id ∉ p₁'.resident := by
        intro hmem
        obtain ⟨tensor, htensor⟩ := mem_resident_iff.mp hmem
        exact hnew (mem_resident_iff.mpr ⟨tensor, hto.stays id tensor htensor⟩)
      have hsource : sourceBytes p₁'.source p₁'.tensorMap id = some data := by
        rw [sourceBytes, hto.tensorMap, hentry, hdata]
        rfl
      obtain ⟨hinv, hadd⟩ := h₁.insert hnew₁ halloc hsource hlen
      refine ⟨hinv, .inr ⟨hnew, ⟨_, rfl, AList.lookup_insert _⟩,
        ⟨hto.source, hto.tensorMap, hto.pinned, hto.budget⟩, ?_, ?_, ?_⟩⟩
      · intro k tensor hk hlookup
        exact hto.stays k tensor ((AList.lookup_insert_ne hk).symm.trans hlookup)
      · intro k hk hmem
        have hne : k ≠ id := fun heq => hnew (heq ▸ hmem)
        exact (AList.lookup_insert_ne hne).trans (hto.keeps k hk)
      · rw [hadd]
        rcases hroom with hfits | honly
        · exact .inl hfits
        · refine .inr fun k hk => ?_
          rcases (AList.mem_insert p₁'.resident).mp hk with rfl | hold
          · exact .inr rfl
          · exact .inl (honly k hold)

/-- **What one call does**: it hits, fails or loads. -/
theorem acquire_spec {p : LayerPager} (h : p.Inv) {id : TensorId} {fault : Option RuntimeError}
    {p' : LayerPager} {out : Except RuntimeError ResidentTensor}
    (hcall : p.acquire id fault = some (p', out)) :
    p'.Inv ∧ (Hit p id p' out ∨ Failed p id p' out ∨ Loaded p id p' out) := by
  rw [acquire] at hcall
  cases hlookup : p.resident.lookup id with
  | none =>
    rw [hlookup] at hcall
    obtain ⟨hinv, hcase⟩ := load_spec h (AList.lookup_eq_none.mp hlookup) hcall
    exact ⟨hinv, .inr hcase⟩
  | some tensor =>
    rw [hlookup] at hcall
    -- the second look finds what the first one found
    have hagain : (p.bumpLru id).resident.lookup id = some tensor := hlookup
    dsimp only at hcall
    rw [hagain] at hcall
    cases hcall
    have hmem : id ∈ p.resident := mem_resident_iff.mpr ⟨tensor, hlookup⟩
    refine ⟨⟨⟨h.bytes, ?_⟩, h.small, h.faithful⟩, .inl ⟨hmem, rfl, tensor, hlookup, rfl⟩⟩
    show Tracks (p.lru.erase id ++ [id]) p.resident.keys
    rw [h.tracks.erase_append]
    exact h.tracks.touch (AList.mem_keys.mp hmem)

/-- **A call answers** unless the buffer cannot be allocated: the eviction ends. -/
theorem acquire_answers {p : LayerPager} (h : p.Inv) (id : TensorId)
    (fault : Option RuntimeError)
    (halloc : ∀ entry, p.tensorMap.lookup id = some entry →
      p.residentTotal + entry.sizeBytes < 2 ^ 64) :
    ∃ p' out, p.acquire id fault = some (p', out) := by
  have hload : ∃ p' out, p.load id fault = some (p', out) := by
    rw [load]
    cases hentry : p.tensorMap.lookup id with
    | none => exact ⟨_, _, rfl⟩
    | some entry =>
      obtain ⟨p₁, hevict, -, htotal, -⟩ :=
        evictToFit_spec h.toConsistent h.small entry.sizeBytes
      have hroom : p₁.residentTotal + entry.sizeBytes < 2 ^ 64 := by
        have := halloc entry hentry
        omega
      show ∃ p' out, (p.evictToFit entry.sizeBytes).bind _ = some (p', out)
      rw [hevict, Option.bind_some, if_pos hroom]
      split
      · exact ⟨_, _, rfl⟩
      · exact ⟨_, _, rfl⟩
  rw [acquire]
  cases hlookup : p.resident.lookup id with
  | none => exact hload
  | some tensor =>
    have hagain : (p.bumpLru id).resident.lookup id = some tensor := hlookup
    dsimp only
    rw [hagain]
    exact ⟨_, _, rfl⟩

/-! ### Runs -/

/-- The tensors the calls load, in order. -/
def loads : LayerPager → List (TensorId × Option RuntimeError) → List TensorId
  | _, [] => []
  | p, call :: calls =>
    match p.step call with
    | none => []
    | some (p', _) =>
      (if call.1 ∉ p.resident ∧ call.1 ∈ p'.resident then [call.1] else []) ++ loads p' calls

/-- The counter is within the budget, or only pinned tensors and the one loaded last are
resident. -/
def Bounded (p : LayerPager) (newest : Option TensorId) : Prop :=
  p.residentBytes ≤ p.budgetBytes ∨ ∀ k ∈ p.resident, k ∈ p.pinned ∨ newest = some k

theorem Hit.bounded {p p' : LayerPager} {id : TensorId} {out} (h : Hit p id p' out)
    {newest : Option TensorId} (hb : p.Bounded newest) : p'.Bounded newest := by
  rw [h.state]
  exact hb

theorem Failed.bounded {p p' : LayerPager} {id : TensorId} {out} (h : Failed p id p' out)
    {newest : Option TensorId} (hb : p.Bounded newest) : p'.Bounded newest := by
  rcases h.room with rfl | hfits | honly
  · exact hb
  · exact .inl hfits
  · refine .inr fun k hk => .inl ?_
    rw [h.evicted.pinned]
    exact honly k hk

theorem Loaded.bounded {p p' : LayerPager} {id : TensorId} {out} (h : Loaded p id p' out) :
    p'.Bounded (some id) := by
  rcases h.room with hfits | honly
  · exact .inl hfits
  · refine .inr fun k hk => ?_
    rw [h.config.pinned]
    exact (honly k hk).imp_right fun heq => by rw [heq]

/-- **What a run does**: the invariant and the bound hold at its end, and every tensor it
answered was the source's. -/
theorem run_spec {p p' : LayerPager}
    {tr : List ((TensorId × Option RuntimeError) × Except RuntimeError ResidentTensor)}
    (hr : Run step p tr p') (h : p.Inv) {newest : Option TensorId} (hb : p.Bounded newest) :
    p'.Inv ∧ SameConfig p p' ∧
      p'.Bounded ((loads p (tr.map Prod.fst)).getLast?.or newest) ∧
      ∀ call tensor, (call, .ok tensor) ∈ tr →
        sourceBytes p.source p.tensorMap call.1 = some tensor.data := by
  induction hr generalizing newest with
  | nil p => exact ⟨h, .refl p, hb, fun _ _ hmem => by cases hmem⟩
  | @cons p p₁ p' call out tr hs _ ih =>
    obtain ⟨h₁, hcase⟩ := acquire_spec h hs
    -- what the call adds to the loads, and what it answers
    have hstep : SameConfig p p₁ ∧
        p₁.Bounded ((if call.1 ∉ p.resident ∧ call.1 ∈ p₁.resident then [call.1]
          else []).getLast?.or newest) ∧
        ∀ tensor, out = .ok tensor →
          sourceBytes p.source p.tensorMap call.1 = some tensor.data := by
      rcases hcase with hhit | hfailed | hloaded
      · rw [if_neg fun hc => hc.1 hhit.was]
        refine ⟨?_, hhit.bounded hb, ?_⟩
        · rw [hhit.state]
          exact ⟨rfl, rfl, rfl, rfl⟩
        · rintro tensor rfl
          obtain ⟨found, hfound, hans⟩ := hhit.answer
          cases hans
          exact (h.faithful call.1 tensor hfound).1
      · have hgone : call.1 ∉ p₁.resident := by
          intro hmem
          obtain ⟨tensor, htensor⟩ := mem_resident_iff.mp hmem
          exact hfailed.wasNot
            (mem_resident_iff.mpr ⟨tensor, hfailed.evicted.stays call.1 tensor htensor⟩)
        rw [if_neg fun hc => hgone hc.2]
        refine ⟨hfailed.evicted.toSameConfig, hfailed.bounded hb, ?_⟩
        rintro tensor rfl
        obtain ⟨e, hans⟩ := hfailed.answer
        cases hans
      · obtain ⟨loaded, hout, hlookup⟩ := hloaded.answer
        rw [if_pos ⟨hloaded.wasNot, mem_resident_iff.mpr ⟨loaded, hlookup⟩⟩]
        refine ⟨hloaded.config, hloaded.bounded, ?_⟩
        intro tensor hans
        obtain rfl := Except.ok.inj (hout.symm.trans hans)
        have hfaithful := (h₁.faithful call.1 loaded hlookup).1
        rwa [hloaded.config.source, hloaded.config.tensorMap] at hfaithful
    obtain ⟨hconfig, hbounded, hanswer⟩ := hstep
    obtain ⟨hinv, hconfig', hbounded', hanswers⟩ := ih h₁ hbounded
    refine ⟨hinv, hconfig.trans hconfig', ?_, ?_⟩
    · have hloads : loads p (((call, out) :: tr).map Prod.fst) =
          (if call.1 ∉ p.resident ∧ call.1 ∈ p₁.resident then [call.1] else []) ++
            loads p₁ (tr.map Prod.fst) := by
        rw [List.map_cons, loads, hs]
      rw [hloads, List.getLast?_append, Option.or_assoc]
      exact hbounded'
    · intro c tensor hmem
      rcases List.mem_cons.mp hmem with heq | htail
      · obtain ⟨rfl, rfl⟩ := Prod.mk.inj heq
        exact hanswer tensor rfl
      · have hrest := hanswers c tensor htail
        rwa [hconfig.source, hconfig.tensorMap] at hrest

/-- A call never takes a pinned tensor out. -/
theorem acquire_keeps_pinned {p p' : LayerPager} {id : TensorId} {fault : Option RuntimeError}
    {out : Except RuntimeError ResidentTensor} (h : p.Inv)
    (hcall : p.acquire id fault = some (p', out)) {k : TensorId} (hk : k ∈ p.pinned)
    (hmem : k ∈ p.resident) : p'.resident.lookup k = p.resident.lookup k := by
  rcases (acquire_spec h hcall).2 with hhit | hfailed | hloaded
  · rw [hhit.state]
    rfl
  · exact hfailed.evicted.keeps k hk
  · exact hloaded.keeps k hk hmem

/-- **The pager is a faithful bounded cache.**  After every run of calls, reads failing or
not: every tensor answered was what the source holds; the counter is the sum of the resident
sizes; the LRU list holds the resident tensors, each once; the counter is within the budget
unless only pinned tensors and the one loaded last are resident; the next call, whatever it
is, keeps every pinned tensor; and `evict_to_fit` ends, for any number of bytes. -/
theorem acquire_faithful {source : PagerSource}
    {tensorMap : AList fun _ : TensorId => TensorEntry} {budgetBytes : ℕ}
    {pinned : Finset TensorId} {p : LayerPager}
    {tr : List ((TensorId × Option RuntimeError) × Except RuntimeError ResidentTensor)}
    (hr : Run step (new source tensorMap budgetBytes pinned) tr p) :
    (∀ call tensor, (call, .ok tensor) ∈ tr →
      sourceBytes source tensorMap call.1 = some tensor.data) ∧
    p.residentBytes = p.residentTotal ∧
    (p.lru.Nodup ∧ p.lru.Perm p.resident.keys) ∧
    (p.residentBytes ≤ budgetBytes ∨ ∀ k ∈ p.resident, k ∈ pinned ∨
      (loads (new source tensorMap budgetBytes pinned) (tr.map Prod.fst)).getLast? = some k) ∧
    (∀ call p' out, p.step call = some (p', out) → ∀ k ∈ p.resident, k ∈ pinned →
      p'.resident.lookup k = p.resident.lookup k) ∧
    ∀ needed, ∃ p', p.evictToFit needed = some p' := by
  have hstart := inv_new source tensorMap budgetBytes pinned
  have hempty : (new source tensorMap budgetBytes pinned).Bounded none := .inl (Nat.zero_le _)
  obtain ⟨h, hconfig, hbounded, hanswers⟩ := run_spec hr hstart hempty
  rw [Option.or_none] at hbounded
  refine ⟨hanswers, h.bytes, ⟨h.tracks.nodup, h.tracks.perm⟩, ?_, ?_, ?_⟩
  · rw [Bounded, hconfig.budget, hconfig.pinned] at hbounded
    exact hbounded
  · intro call p' out hcall k hmem hk
    refine acquire_keeps_pinned h hcall ?_ hmem
    rw [hconfig.pinned]
    exact hk
  · intro needed
    obtain ⟨p', hevict, -⟩ := evictToFit_spec h.toConsistent h.small needed
    exact ⟨p', hevict⟩

/-- Two tensors of three bytes each. -/
def twoTensors : AList fun _ : TensorId => TensorEntry :=
  (AList.insert ⟨"a"⟩ ⟨0, 3⟩ ∅).insert ⟨"b"⟩ ⟨3, 3⟩

/-- In a budget for one of them, the second one takes the place of the first, after a read
that failed. -/
theorem acquire_faithful_twoTensors :
    ∃ tr p, Run step (new ⟨[1, 2, 3, 4, 5, 6]⟩ twoTensors 3 ∅) tr p ∧
      tr.map Prod.snd = [.ok ⟨[1, 2, 3], 3⟩, .error (.io "disk"), .ok ⟨[4, 5, 6], 3⟩] ∧
      p.lru = [⟨"b"⟩] ∧ p.residentBytes = p.residentTotal ∧ p.lru.Perm p.resident.keys := by
  have hr : Run step (new ⟨[1, 2, 3, 4, 5, 6]⟩ twoTensors 3 ∅) _ _ :=
    .cons (i := (⟨"a"⟩, none)) rfl
      (.cons (i := (⟨"b"⟩, some (.io "disk"))) rfl
        (.cons (i := (⟨"b"⟩, none)) rfl (.nil _)))
  exact ⟨_, _, hr, rfl, rfl, (acquire_faithful hr).2.1, (acquire_faithful hr).2.2.1.2⟩

end LayerPager

end Offload

end Oxillama
