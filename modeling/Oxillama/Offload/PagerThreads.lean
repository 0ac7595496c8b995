/-
Concurrent acquires of the weight pager.

Each section of `acquire` that holds a lock is one step, and so are the counter's atomic
operations and the read between them; the steps of any number of acquires interleave.

* `Threads.alone` — the sections of one acquire that runs alone do what `acquire` does;
* `Threads.Guard` — a load puts its tensor in while it is not resident, a bump finds its
  tensor in the LRU list or an eviction of it that has yet to clear the list, and the last
  such eviction clears the list when exactly the pushes to come will match the map;
* `Threads.inv_step` — a step that meets its guard keeps the account of what the acquires
  under way still owe to the counter and to the list;
* `Threads.consistent_of_guarded` — **under the guards the pager is consistent whenever no
  acquire is in progress**;
* `Threads.two_loads_and_a_late_bump` — without them it is not: two loads of one tensor count
  it twice, and a bump of an evicted tensor makes `evict_to_fit` loop forever.
-/
import Oxillama.Lib.Run
import Oxillama.Offload.LayerPager

namespace Oxillama

namespace Offload

/-- The section an acquire runs next. -/
inductive Phase
  | lookup (id : TensorId)
  | bump (id : TensorId)
  | lookupAgain (id : TensorId)
  | check (id : TensorId) (entry : TensorEntry)
  | find (id : TensorId) (entry : TensorEntry)
  | remove (id : TensorId) (entry : TensorEntry) (victim : TensorId)
  | subtract (id : TensorId) (entry : TensorEntry) (victim : TensorId) (size : ℕ)
  | retain (id : TensorId) (entry : TensorEntry) (victim : TensorId)
  | read (id : TensorId) (entry : TensorEntry)
  | insert (id : TensorId) (tensor : ResidentTensor)
  | push (id : TensorId) (tensor : ResidentTensor)
  | add (id : TensorId) (tensor : ResidentTensor)
  | done (out : Except RuntimeError ResidentTensor)

/-- A pager and the acquires that have been started on it. -/
structure Threads where
  pager : LayerPager
  acquires : List Phase

/-- A new acquire, or the next section of the `i`-th one. -/
inductive Event
  | start (id : TensorId)
  | advance (i : ℕ) (fault : Option RuntimeError)

namespace Phase

/-- The slow path: the tensor map is never written. -/
def slowPath (p : LayerPager) (id : TensorId) : Phase :=
  match p.tensorMap.lookup id with
  | none => .done (.error (.tensorNotFound id.name))
  | some entry => .check id entry

/-- The bytes of a tensor that has been read and is not yet in the map. -/
def inFlight : Phase → ℕ
  | .insert _ tensor => tensor.sizeBytes
  | _ => 0

/-- Whether an acquire has answered. -/
def isDone : Phase → Bool
  | .done _ => true
  | _ => false

/-- One section.  `held` are the bytes that other loads have read and not yet put in. -/
def run (p : LayerPager) (held : ℕ) (fault : Option RuntimeError) :
    Phase → Option (LayerPager × Phase)
  | .lookup id => some (p, if id ∈ p.resident then .bump id else slowPath p id)
  | .bump id => some (p.bumpLru id, .lookupAgain id)
  | .lookupAgain id =>
    match p.resident.lookup id with
    | some tensor => some (p, .done (.ok tensor))
    | none => some (p, slowPath p id)
  | .check id entry =>
    some (p, if p.fits entry.sizeBytes then .read id entry else .find id entry)
  | .find id entry =>
    match p.findVictim with
    | none => some (p, .read id entry)
    | some victim => some (p, .remove id entry victim)
  | .remove id entry victim =>
    match p.resident.lookup victim with
    | some evicted =>
      some (p.removeResident victim, .subtract id entry victim evicted.sizeBytes)
    | none => some (p, .check id entry)
  | .subtract id entry victim size => some (p.fetchSub size, .retain id entry victim)
  | .retain id entry victim => some (p.retainLru victim, .check id entry)
  | .read id entry =>
    if p.residentTotal + held + entry.sizeBytes < 2 ^ 64 then
      match p.source.readBytesAt fault entry.fileOffset entry.sizeBytes with
      | .error e => some (p, .done (.error e))
      | .ok data => some (p, .insert id ⟨data, entry.sizeBytes⟩)
    else none
  | .insert id tensor => some (p.insertResident id tensor, .push id tensor)
  | .push id tensor => some (p.pushLru id, .add id tensor)
  | .add id tensor => some (p.fetchAdd tensor.sizeBytes, .done (.ok tensor))
  | .done out => some (p, .done out)

/-! ### What an acquire under way owes -/

/-- The entries for `id` it has yet to push to the LRU list. -/
def pushes (id : TensorId) : Phase → ℕ
  | .push k _ => if k = id then 1 else 0
  | _ => 0

/-- The evictions of `id` that have yet to clear the LRU list. -/
def retains (id : TensorId) : Phase → ℕ
  | .subtract _ _ k _ => if k = id then 1 else 0
  | .retain _ _ k => if k = id then 1 else 0
  | _ => 0

/-- The bytes it has yet to add to the counter. -/
def adds : Phase → ℕ
  | .push _ tensor => tensor.sizeBytes
  | .add _ tensor => tensor.sizeBytes
  | _ => 0

/-- The bytes it has yet to subtract from the counter. -/
def subs : Phase → ℕ
  | .subtract _ _ _ size => size
  | _ => 0

/-- Whether an acquire is where it owes nothing. -/
def idle : Phase → Bool
  | .subtract .. | .retain .. | .insert .. | .push .. | .add .. => false
  | _ => true

/-- An acquire that owes nothing. -/
structure Quiet (phase : Phase) : Prop where
  pushes : ∀ id, phase.pushes id = 0
  retains : ∀ id, phase.retains id = 0
  adds : phase.adds = 0
  subs : phase.subs = 0
  inFlight : phase.inFlight = 0

theorem quiet_of_idle {phase : Phase} (h : phase.idle = true) : phase.Quiet := by
  cases phase with
  | subtract | retain | insert | push | add => cases h
  | _ => exact ⟨fun _ => rfl, fun _ => rfl, rfl, rfl, rfl⟩

theorem idle_slowPath (p : LayerPager) (id : TensorId) : (slowPath p id).idle = true := by
  rw [slowPath]
  split
  · rfl
  · rfl

/-- **What a section can do.** -/
inductive Moves (p : LayerPager) (held : ℕ) : Phase → LayerPager → Phase → Prop
  | quiet {phase phase' : Phase} (h : phase.idle = true) (h' : phase'.idle = true) :
      Moves p held phase p phase'
  | bump (id : TensorId) : Moves p held (.bump id) (p.bumpLru id) (.lookupAgain id)
  | remove {id victim : TensorId} {entry : TensorEntry} {evicted : ResidentTensor}
      (h : p.resident.lookup victim = some evicted) :
      Moves p held (.remove id entry victim) (p.removeResident victim)
        (.subtract id entry victim evicted.sizeBytes)
  | subtract (id victim : TensorId) (entry : TensorEntry) (size : ℕ) :
      Moves p held (.subtract id entry victim size) (p.fetchSub size) (.retain id entry victim)
  | retain (id victim : TensorId) (entry : TensorEntry) :
      Moves p held (.retain id entry victim) (p.retainLru victim) (.check id entry)
  | read {id : TensorId} {entry : TensorEntry} (data : List UInt8)
      (h : p.residentTotal + held + entry.sizeBytes < 2 ^ 64) :
      Moves p held (.read id entry) p (.insert id ⟨data, entry.sizeBytes⟩)
  | insert (id : TensorId) (tensor : ResidentTensor) :
      Moves p held (.insert id tensor) (p.insertResident id tensor) (.push id tensor)
  | push (id : TensorId) (tensor : ResidentTensor) :
      Moves p held (.push id tensor) (p.pushLru id) (.add id tensor)
  | add (id : TensorId) (tensor : ResidentTensor) :
      Moves p held (.add id tensor) (p.fetchAdd tensor.sizeBytes) (.done (.ok tensor))

theorem run_moves {p p' : LayerPager} {held : ℕ} {fault : Option RuntimeError}
    {phase phase' : Phase} (h : phase.run p held fault = some (p', phase')) :
    Moves p held phase p' phase' := by
  cases phase with
  | lookup id =>
    obtain ⟨rfl, rfl⟩ := Prod.mk.inj (Option.some.inj h)
    refine .quiet rfl ?_
    split
    · rfl
    · exact idle_slowPath p id
  | bump id =>
    obtain ⟨rfl, rfl⟩ := Prod.mk.inj (Option.some.inj h)
    exact .bump id
  | lookupAgain id =>
    rw [run] at h
    split at h
    · obtain ⟨rfl, rfl⟩ := Prod.mk.inj (Option.some.inj h)
      exact .quiet rfl rfl
    · obtain ⟨rfl, rfl⟩ := Prod.mk.inj (Option.some.inj h)
      exact .quiet rfl (idle_slowPath p id)
  | check id entry =>
    obtain ⟨rfl, rfl⟩ := Prod.mk.inj (Option.some.inj h)
    refine .quiet rfl ?_
    split
    · rfl
    · rfl
  | find id entry =>
    rw [run] at h
    split at h
    · obtain ⟨rfl, rfl⟩ := Prod.mk.inj (Option.some.inj h)
      exact .quiet rfl rfl
    · obtain ⟨rfl, rfl⟩ := Prod.mk.inj (Option.some.inj h)
      exact .quiet rfl rfl
  | remove id entry victim =>
    rw [run] at h
    split at h
    · rename_i evicted hlookup
      obtain ⟨rfl, rfl⟩ := Prod.mk.inj (Option.some.inj h)
      exact .remove hlookup
    · obtain ⟨rfl, rfl⟩ := Prod.mk.inj (Option.some.inj h)
      exact .quiet rfl rfl
  | subtract id entry victim size =>
    obtain ⟨rfl, rfl⟩ := Prod.mk.inj (Option.some.inj h)
    exact .subtract id victim entry size
  | retain id entry victim =>
    obtain ⟨rfl, rfl⟩ := Prod.mk.inj (Option.some.inj h)
    exact .retain id victim entry
  | read id entry =>
    rw [run] at h
    split at h
    · rename_i hroom
      split at h
      · obtain ⟨rfl, rfl⟩ := Prod.mk.inj (Option.some.inj h)
        exact .quiet rfl rfl
      · obtain ⟨rfl, rfl⟩ := Prod.mk.inj (Option.some.inj h)
        exact .read _ hroom
    · cases h
  | insert id tensor =>
    obtain ⟨rfl, rfl⟩ := Prod.mk.inj (Option.some.inj h)
    exact .insert id tensor
  | push id tensor =>
    obtain ⟨rfl, rfl⟩ := Prod.mk.inj (Option.some.inj h)
    exact .push id tensor
  | add id tensor =>
    obtain ⟨rfl, rfl⟩ := Prod.mk.inj (Option.some.inj h)
    exact .add id tensor
  | done out =>
    obtain ⟨rfl, rfl⟩ := Prod.mk.inj (Option.some.inj h)
    exact .quiet rfl rfl

end Phase

namespace Threads

open LayerPager (twoTensors)

/-- No acquire has been started yet. -/
def init (source : PagerSource) (tensorMap : AList fun _ : TensorId => TensorEntry)
    (budgetBytes : ℕ) (pinned : Finset TensorId) : Threads :=
  ⟨.new source tensorMap budgetBytes pinned, []⟩

/-- A new acquire, or one section of one that has been started. -/
def step (s : Threads) : Event → Option (Threads × Unit)
  | .start id => some ({ s with acquires := s.acquires ++ [.lookup id] }, ())
  | .advance i fault =>
    match s.acquires[i]? with
    | none => some (s, ())
    | some phase =>
      (phase.run s.pager (tally Phase.inFlight s.acquires) fault).map fun (pager, phase') =>
        (⟨pager, s.acquires.set i phase'⟩, ())

/-- No acquire is in progress. -/
def Quiescent (s : Threads) : Prop := ∀ phase ∈ s.acquires, phase.isDone = true

/-! ### The guards -/

/-- **What a section must find.**  A load puts its tensor in while it is not resident; a bump
finds its tensor in the LRU list, or an eviction that has yet to clear the list of it; and
the last eviction of a tensor to clear the list does so when one load is still to push the
tensor if it is resident, and none if it is not. -/
def Finds (s : Threads) : Phase → Prop
  | .insert id _ => id ∉ s.pager.resident
  | .bump id => id ∈ s.pager.lru ∨ 0 < tally (Phase.retains id) s.acquires
  | .retain _ _ id =>
    1 < tally (Phase.retains id) s.acquires ∨
      tally (Phase.pushes id) s.acquires = if id ∈ s.pager.resident then 1 else 0
  | _ => True

/-- The acquire that takes the step finds what it must. -/
def Guard (s : Threads) : Event → Prop
  | .start _ => True
  | .advance i _ => ∀ phase ∈ s.acquires[i]?, s.Finds phase

instance (s : Threads) : DecidablePred s.Finds
  | .insert .. => inferInstanceAs (Decidable (_ ∉ _))
  | .bump .. => inferInstanceAs (Decidable (_ ∨ _))
  | .retain .. => inferInstanceAs (Decidable (_ ∨ _))
  | .lookup .. | .lookupAgain .. | .check .. | .find .. | .remove .. | .subtract .. | .read ..
  | .push .. | .add .. | .done .. => .isTrue trivial

instance (s : Threads) : DecidablePred s.Guard
  | .start _ => .isTrue trivial
  | .advance .. => inferInstanceAs (Decidable (∀ phase ∈ _, _))

/-- **The account of the acquires under way.**  A tensor that no eviction has still to clear
from the LRU list stands there once, or has one push to come, exactly if it is resident;
and the counter and what is still to be added come to the resident bytes and what is still
to be subtracted. -/
structure Inv (s : Threads) : Prop where
  listed : ∀ id, tally (Phase.retains id) s.acquires = 0 →
    s.pager.lru.count id + tally (Phase.pushes id) s.acquires =
      if id ∈ s.pager.resident then 1 else 0
  counted : (s.pager.residentBytes + tally Phase.adds s.acquires) % 2 ^ 64 =
    (s.pager.residentTotal + tally Phase.subs s.acquires) % 2 ^ 64
  word : s.pager.residentBytes < 2 ^ 64
  small : s.pager.residentTotal + tally Phase.inFlight s.acquires < 2 ^ 64

theorem inv_init (source : PagerSource) (tensorMap : AList fun _ : TensorId => TensorEntry)
    (budgetBytes : ℕ) (pinned : Finset TensorId) :
    (init source tensorMap budgetBytes pinned).Inv where
  listed := fun id _ => by simp [init, LayerPager.new]
  counted := rfl
  word := by
    show 0 < 2 ^ 64
    omega
  small := by
    show 0 < 2 ^ 64
    omega

theorem inv_start {s : Threads} (h : s.Inv) (id : TensorId) :
    Inv { s with acquires := s.acquires ++ [.lookup id] } := by
  have hsame : ∀ f : Phase → ℕ, f (.lookup id) = 0 →
      tally f (s.acquires ++ [.lookup id]) = tally f s.acquires := by
    intro f hf
    rw [tally_start, hf, Nat.add_zero]
  constructor
  · intro k
    rw [hsame _ rfl, hsame _ rfl]
    exact h.listed k
  · rw [hsame _ rfl, hsame _ rfl]
    exact h.counted
  · exact h.word
  · rw [hsame _ rfl]
    exact h.small

/-! ### One section -/

section Moves

variable {s : Threads} {i : ℕ} {phase phase' : Phase}

/-- A tally that the move of one acquire leaves as it is. -/
theorem tally_same (hi : s.acquires[i]? = some phase) (f : Phase → ℕ) (h : f phase' = f phase) :
    tally f (s.acquires.set i phase') = tally f s.acquires := by
  have := tally_set f hi phase'
  omega

/-- **A move that owes nothing** before and after. -/
theorem Inv.quiet (h : s.Inv) (hi : s.acquires[i]? = some phase) (hq : phase.Quiet)
    (hq' : phase'.Quiet) : Inv ⟨s.pager, s.acquires.set i phase'⟩ where
  listed k := by
    rw [tally_same hi _ ((hq'.retains k).trans (hq.retains k).symm),
      tally_same hi _ ((hq'.pushes k).trans (hq.pushes k).symm)]
    exact h.listed k
  counted := by
    rw [tally_same hi _ (hq'.adds.trans hq.adds.symm),
      tally_same hi _ (hq'.subs.trans hq.subs.symm)]
    exact h.counted
  word := h.word
  small := by
    rw [tally_same hi _ (hq'.inFlight.trans hq.inFlight.symm)]
    exact h.small

/-- **A bump** of a tensor that is in the list, or that the list will be cleared of. -/
theorem Inv.bump (h : s.Inv) {id : TensorId} (hi : s.acquires[i]? = some (.bump id))
    (hguard : id ∈ s.pager.lru ∨ 0 < tally (Phase.retains id) s.acquires) :
    Inv ⟨s.pager.bumpLru id, s.acquires.set i (.lookupAgain id)⟩ where
  listed k := by
    rw [tally_same hi _ (by rfl), tally_same hi _ (by rfl)]
    intro hretains
    refine Eq.trans ?_ (h.listed k hretains)
    congr 1
    show (s.pager.lru.erase id ++ [id]).count k = s.pager.lru.count k
    rw [List.count_append]
    by_cases hk : k = id
    · subst hk
      have hmem : k ∈ s.pager.lru := by
        rcases hguard with hmem | hpos
        · exact hmem
        · omega
      have hpos := List.count_pos_iff.mpr hmem
      rw [List.count_erase_self, List.count_singleton_self]
      omega
    · rw [List.count_erase_of_ne hk, List.count_singleton, if_neg (by simpa using Ne.symm hk)]
      rfl
  counted := by
    rw [tally_same hi _ (by rfl), tally_same hi _ (by rfl)]
    exact h.counted
  word := h.word
  small := by
    rw [tally_same hi _ (by rfl)]
    exact h.small

/-- **The victim leaves the map**: its bytes and its list entry are still to be taken away. -/
theorem Inv.remove (h : s.Inv) {id victim : TensorId} {entry : TensorEntry}
    {evicted : ResidentTensor} (hi : s.acquires[i]? = some (.remove id entry victim))
    (hlookup : s.pager.resident.lookup victim = some evicted) :
    Inv ⟨s.pager.removeResident victim,
      s.acquires.set i (.subtract id entry victim evicted.sizeBytes)⟩ := by
  have hsum : evicted.sizeBytes + (s.pager.removeResident victim).residentTotal =
      s.pager.residentTotal :=
    mapSum_erase ResidentTensor.sizeBytes hlookup
  constructor
  · intro k hretains
    dsimp only at hretains ⊢
    have hset := tally_set (Phase.retains k) hi (.subtract id entry victim evicted.sizeBytes)
    simp only [Phase.retains] at hset
    have hk : victim ≠ k := by
      rintro rfl
      rw [if_pos rfl] at hset
      omega
    rw [if_neg hk] at hset
    rw [tally_same hi _ (by rfl)]
    have hlisted := h.listed k (by omega)
    have hmem : k ∈ s.pager.resident.erase victim ↔ k ∈ s.pager.resident := by
      rw [AList.mem_erase]
      exact and_iff_right (Ne.symm hk)
    show s.pager.lru.count k + _ = if k ∈ s.pager.resident.erase victim then 1 else 0
    rw [hlisted]
    simp only [hmem]
  · have hsubs := tally_set Phase.subs hi (.subtract id entry victim evicted.sizeBytes)
    simp only [Phase.subs] at hsubs
    have hcounted := h.counted
    rw [tally_same hi _ (by rfl)]
    show (s.pager.residentBytes + _) % 2 ^ 64 = _
    rw [hcounted]
    congr 1
    dsimp only
    omega
  · exact h.word
  · have hsmall := h.small
    rw [tally_same hi _ (by rfl)]
    dsimp only
    omega

/-- **The counter gives back** what an eviction has taken from the map. -/
theorem Inv.subtract (h : s.Inv) {id victim : TensorId} {entry : TensorEntry} {size : ℕ}
    (hi : s.acquires[i]? = some (.subtract id entry victim size)) :
    Inv ⟨s.pager.fetchSub size, s.acquires.set i (.retain id entry victim)⟩ where
  listed k := by
    rw [tally_same hi _ (by rfl), tally_same hi _ (by rfl)]
    exact h.listed k
  counted := by
    have hsubs := tally_set Phase.subs hi (.retain id entry victim)
    simp only [Phase.subs] at hsubs
    have hcounted := h.counted
    rw [tally_same hi _ (by rfl)]
    show ((s.pager.residentBytes + (2 ^ 64 - size % 2 ^ 64)) % 2 ^ 64 +
      tally Phase.adds s.acquires) % 2 ^ 64 = (s.pager.residentTotal +
        tally Phase.subs (s.acquires.set i (.retain id entry victim))) % 2 ^ 64
    have hsize := Nat.div_add_mod size (2 ^ 64)
    omega
  word := Nat.mod_lt _ (by omega)
  small := by
    rw [tally_same hi _ (by rfl)]
    exact h.small

/-- **The list is cleared** of a tensor. -/
theorem Inv.retain (h : s.Inv) {id victim : TensorId} {entry : TensorEntry}
    (hi : s.acquires[i]? = some (.retain id entry victim))
    (hguard : 1 < tally (Phase.retains victim) s.acquires ∨
      tally (Phase.pushes victim) s.acquires = if victim ∈ s.pager.resident then 1 else 0) :
    Inv ⟨s.pager.retainLru victim, s.acquires.set i (.check id entry)⟩ where
  listed k := by
    intro hretains
    dsimp only at hretains
    have hset := tally_set (Phase.retains k) hi (.check id entry)
    simp only [Phase.retains] at hset
    rw [tally_same hi _ (by rfl)]
    show (s.pager.lru.filter (· ≠ victim)).count k + _ = if k ∈ s.pager.resident then 1 else 0
    by_cases hk : victim = k
    · subst hk
      rw [if_pos rfl] at hset
      have hgone : (s.pager.lru.filter (· ≠ victim)).count victim = 0 :=
        List.count_eq_zero_of_not_mem fun hmem => by simpa using List.of_mem_filter hmem
      rw [hgone, Nat.zero_add]
      exact hguard.resolve_left (by omega)
    · rw [if_neg hk] at hset
      rw [List.count_filter (by simpa using Ne.symm hk)]
      exact h.listed k (by omega)
  counted := by
    rw [tally_same hi _ (by rfl), tally_same hi _ (by rfl)]
    exact h.counted
  word := h.word
  small := by
    rw [tally_same hi _ (by rfl)]
    exact h.small

/-- **The bytes are read** into memory of their own. -/
theorem Inv.read (h : s.Inv) {id : TensorId} {entry : TensorEntry}
    (hi : s.acquires[i]? = some (.read id entry)) (data : List UInt8)
    (hroom : s.pager.residentTotal + tally Phase.inFlight s.acquires + entry.sizeBytes < 2 ^ 64) :
    Inv ⟨s.pager, s.acquires.set i (.insert id ⟨data, entry.sizeBytes⟩)⟩ where
  listed k := by
    rw [tally_same hi _ (by rfl), tally_same hi _ (by rfl)]
    exact h.listed k
  counted := by
    rw [tally_same hi _ (by rfl), tally_same hi _ (by rfl)]
    exact h.counted
  word := h.word
  small := by
    have hset := tally_set Phase.inFlight hi (.insert id ⟨data, entry.sizeBytes⟩)
    simp only [Phase.inFlight] at hset
    dsimp only
    omega

/-- **The tensor is put in** where it is not resident: its list entry and its bytes are still
to come. -/
theorem Inv.insert (h : s.Inv) {id : TensorId} {tensor : ResidentTensor}
    (hi : s.acquires[i]? = some (.insert id tensor)) (hnew : id ∉ s.pager.resident) :
    Inv ⟨s.pager.insertResident id tensor, s.acquires.set i (.push id tensor)⟩ := by
  have hsum : (s.pager.insertResident id tensor).residentTotal =
      tensor.sizeBytes + s.pager.residentTotal :=
    mapSum_insert_of_notMem ResidentTensor.sizeBytes hnew tensor
  constructor
  · intro k
    rw [tally_same hi _ (by rfl)]
    intro hretains
    have hset := tally_set (Phase.pushes k) hi (.push id tensor)
    simp only [Phase.pushes] at hset
    have hlisted := h.listed k hretains
    show s.pager.lru.count k + tally (Phase.pushes k) (s.acquires.set i (.push id tensor)) =
      if k ∈ s.pager.resident.insert id tensor then 1 else 0
    by_cases hk : id = k
    · subst hk
      rw [if_neg hnew] at hlisted
      rw [if_pos rfl] at hset
      rw [if_pos ((AList.mem_insert _).mpr (.inl rfl))]
      omega
    · have hmem : k ∈ s.pager.resident.insert id tensor ↔ k ∈ s.pager.resident := by
        rw [AList.mem_insert]
        exact or_iff_right (Ne.symm hk)
      rw [if_neg hk] at hset
      simp only [hmem]
      omega
  · have hset := tally_set Phase.adds hi (.push id tensor)
    simp only [Phase.adds] at hset
    have hcounted := h.counted
    rw [tally_same hi Phase.subs (by rfl)]
    dsimp only
    rw [hsum]
    show (s.pager.residentBytes + _) % 2 ^ 64 = _
    omega
  · exact h.word
  · have hset := tally_set Phase.inFlight hi (.push id tensor)
    simp only [Phase.inFlight] at hset
    have hsmall := h.small
    dsimp only
    omega

/-- **The list entry is pushed.** -/
theorem Inv.push (h : s.Inv) {id : TensorId} {tensor : ResidentTensor}
    (hi : s.acquires[i]? = some (.push id tensor)) :
    Inv ⟨s.pager.pushLru id, s.acquires.set i (.add id tensor)⟩ where
  listed k := by
    rw [tally_same hi _ (by rfl)]
    intro hretains
    have hset := tally_set (Phase.pushes k) hi (.add id tensor)
    simp only [Phase.pushes] at hset
    have hlisted := h.listed k hretains
    show (s.pager.lru ++ [id]).count k + tally (Phase.pushes k) (s.acquires.set i _) =
      if k ∈ s.pager.resident then 1 else 0
    rw [List.count_append, List.count_singleton]
    by_cases hk : id = k
    · subst hk
      rw [if_pos rfl] at hset
      rw [if_pos (by simp)]
      omega
    · rw [if_neg hk] at hset
      rw [if_neg (by simpa using hk)]
      omega
  counted := by
    rw [tally_same hi _ (by rfl), tally_same hi _ (by rfl)]
    exact h.counted
  word := h.word
  small := by
    rw [tally_same hi _ (by rfl)]
    exact h.small

/-- **The bytes are counted.** -/
theorem Inv.add (h : s.Inv) {id : TensorId} {tensor : ResidentTensor}
    (hi : s.acquires[i]? = some (.add id tensor)) :
    Inv ⟨s.pager.fetchAdd tensor.sizeBytes, s.acquires.set i (.done (.ok tensor))⟩ where
  listed k := by
    rw [tally_same hi _ (by rfl), tally_same hi _ (by rfl)]
    exact h.listed k
  counted := by
    have hset := tally_set Phase.adds hi (.done (.ok tensor))
    simp only [Phase.adds] at hset
    have hcounted := h.counted
    rw [tally_same hi Phase.subs (by rfl)]
    show ((s.pager.residentBytes + tensor.sizeBytes) % 2 ^ 64 +
      tally Phase.adds (s.acquires.set i (.done (.ok tensor)))) % 2 ^ 64 =
        (s.pager.residentTotal + tally Phase.subs s.acquires) % 2 ^ 64
    omega
  word := Nat.mod_lt _ (by omega)
  small := by
    rw [tally_same hi _ (by rfl)]
    exact h.small

end Moves

/-- **One step that meets its guard** keeps the account. -/
theorem inv_step {s s' : Threads} {e : Event} {out : Unit} (h : s.Inv) (hguard : s.Guard e)
    (hs : s.step e = some (s', out)) : s'.Inv := by
  cases e with
  | start id =>
    cases hs
    exact inv_start h id
  | advance i fault =>
    rw [step] at hs
    cases hi : s.acquires[i]? with
    | none =>
      rw [hi] at hs
      cases hs
      exact h
    | some phase =>
      rw [hi] at hs
      obtain ⟨⟨pager, phase'⟩, hrun, heq⟩ := Option.map_eq_some_iff.mp hs
      cases heq
      have hfinds : s.Finds phase := hguard phase hi
      cases Phase.run_moves hrun with
      | quiet hq hq' =>
        exact h.quiet hi (Phase.quiet_of_idle hq) (Phase.quiet_of_idle hq')
      | bump id => exact h.bump hi hfinds
      | remove hlookup => exact h.remove hi hlookup
      | subtract id victim entry size => exact h.subtract hi
      | retain id victim entry => exact h.retain hi hfinds
      | read data hroom => exact h.read hi data hroom
      | insert id tensor => exact h.insert hi hfinds
      | push id tensor => exact h.push hi
      | add id tensor => exact h.add hi

/-- **A run whose steps meet their guards** keeps the account. -/
theorem inv_run {s s' : Threads} {tr : List (Event × Unit)} (hr : Run step s tr s')
    (hmeet : StepsMeet step Guard s (tr.map Prod.fst)) (h : s.Inv) : s'.Inv :=
  hr.invariant_of_stepsMeet inv_step hmeet h

/-- Where no acquire is in progress nothing is owed. -/
theorem Quiescent.consistent {s : Threads} (hq : s.Quiescent) (h : s.Inv) :
    s.pager.Consistent ∧ s.pager.residentTotal < 2 ^ 64 := by
  have hzero : ∀ f : Phase → ℕ, (∀ out, f (.done out) = 0) → tally f s.acquires = 0 := by
    intro f hf
    refine tally_eq_zero fun phase hphase => ?_
    have hdone := hq phase hphase
    cases phase with
    | done out => exact hf out
    | _ => cases hdone
  have hcounted := h.counted
  rw [hzero _ fun _ => rfl, hzero _ fun _ => rfl, Nat.add_zero, Nat.add_zero,
    Nat.mod_eq_of_lt h.word, Nat.mod_eq_of_lt (Nat.lt_of_le_of_lt (Nat.le_add_right _ _) h.small)]
    at hcounted
  have hcount : ∀ id, s.pager.lru.count id = if id ∈ s.pager.resident then 1 else 0 := by
    intro id
    have hlisted := h.listed id (hzero _ fun _ => rfl)
    rwa [hzero (Phase.pushes id) fun _ => rfl, Nat.add_zero] at hlisted
  refine ⟨⟨hcounted, .of_mem_iff ?_ s.pager.resident.keys_nodup ?_⟩,
    Nat.lt_of_le_of_lt (Nat.le_add_right _ _) h.small⟩
  · refine List.nodup_iff_count_le_one.mpr fun id => ?_
    rw [hcount id]
    split <;> omega
  · intro id
    rw [← List.count_pos_iff, hcount id, ← AList.mem_keys]
    split <;> simp_all

/-! ### One acquire alone -/

/-- What the sections of a single acquire lead to. -/
def Leads (p : LayerPager) (phase : Phase) (p' : LayerPager) (phase' : Phase) : Prop :=
  ∃ tr, Run step ⟨p, [phase]⟩ tr ⟨p', [phase']⟩

theorem Leads.refl (p : LayerPager) (phase : Phase) : Leads p phase p phase := ⟨[], .nil _⟩

theorem Leads.trans {p p' p'' : LayerPager} {phase phase' phase'' : Phase}
    (h : Leads p phase p' phase') (h' : Leads p' phase' p'' phase'') :
    Leads p phase p'' phase'' := by
  obtain ⟨tr, hr⟩ := h
  obtain ⟨tr', hr'⟩ := h'
  exact ⟨tr ++ tr', hr.append hr'⟩

/-- One section more in front. -/
theorem Leads.head {p p₁ p' : LayerPager} {phase phase' : Phase} (phase₁ : Phase)
    (fault : Option RuntimeError) (h : phase.run p phase.inFlight fault = some (p₁, phase₁))
    (hrest : Leads p₁ phase₁ p' phase') : Leads p phase p' phase' := by
  obtain ⟨tr, hr⟩ := hrest
  refine ⟨(.advance 0 fault, ()) :: tr, .cons ?_ hr⟩
  show (phase.run p (phase.inFlight + 0) fault).map _ = _
  rw [Nat.add_zero, h]
  rfl

/-- The loop of `evict_to_fit`, section by section. -/
theorem leads_evictLoop {id : TensorId} {entry : TensorEntry} {rounds : ℕ} {p p' : LayerPager}
    (h : LayerPager.evictLoop entry.sizeBytes rounds p = some p') :
    Leads p (.check id entry) p' (.read id entry) := by
  induction rounds generalizing p with
  | zero => cases h
  | succ rounds ih =>
    rw [LayerPager.evictLoop, LayerPager.evictRound] at h
    by_cases hfits : p.fits entry.sizeBytes
    · rw [if_pos hfits] at h
      cases h
      refine .head _ none ?_ (.refl p' _)
      rw [Phase.run, if_pos hfits]
    · rw [if_neg hfits] at h
      refine .head (.find id entry) none (by rw [Phase.run, if_neg hfits]) ?_
      cases hvictim : p.findVictim with
      | none =>
        rw [hvictim] at h
        cases h
        exact .head _ none (by rw [Phase.run, hvictim]) (.refl p' _)
      | some victim =>
        rw [hvictim] at h
        refine .head (.remove id entry victim) none (by rw [Phase.run, hvictim]) ?_
        cases hlookup : p.resident.lookup victim with
        | none =>
          have hround : LayerPager.evictLoop entry.sizeBytes rounds (p.evict victim) = some p' := h
          rw [LayerPager.evict_of_not_resident hlookup] at hround
          exact .head _ none (by rw [Phase.run, hlookup]) (ih hround)
        | some evicted =>
          have hround : LayerPager.evictLoop entry.sizeBytes rounds (p.evict victim) = some p' := h
          rw [LayerPager.evict_of_lookup hlookup] at hround
          exact .head _ none (by rw [Phase.run, hlookup])
            (.head _ none rfl (.head _ none rfl (ih hround)))

theorem leads_load {p p' : LayerPager} {id : TensorId} {fault : Option RuntimeError}
    {out : Except RuntimeError ResidentTensor} (h : p.load id fault = some (p', out)) :
    Leads p (Phase.slowPath p id) p' (.done out) := by
  rw [LayerPager.load] at h
  rw [Phase.slowPath]
  cases hentry : p.tensorMap.lookup id with
  | none =>
    rw [hentry] at h
    cases h
    exact .refl p _
  | some entry =>
    rw [hentry] at h
    obtain ⟨p₁, hevict, h⟩ := Option.bind_eq_some_iff.mp h
    have hloop : Leads p (.check id entry) p₁ (.read id entry) := leads_evictLoop hevict
    refine hloop.trans ?_
    split at h
    rotate_left
    · cases h
    rename_i hroom
    cases hbytes : p₁.source.readBytesAt fault entry.fileOffset entry.sizeBytes with
    | error e =>
      rw [hbytes] at h
      cases h
      refine .head _ fault ?_ (.refl _ _)
      show (if p'.residentTotal + entry.sizeBytes < 2 ^ 64 then _ else none) = _
      rw [if_pos hroom, hbytes]
    | ok data =>
      rw [hbytes] at h
      cases h
      refine .head (.insert id ⟨data, entry.sizeBytes⟩) fault ?_
        (.head _ none rfl (.head _ none rfl (.head _ none rfl (.refl _ _))))
      show (if p₁.residentTotal + entry.sizeBytes < 2 ^ 64 then _ else none) = _
      rw [if_pos hroom, hbytes]

/-- **An acquire that runs alone** does, section by section, what `acquire` does. -/
theorem alone {p p' : LayerPager} {id : TensorId} {fault : Option RuntimeError}
    {out : Except RuntimeError ResidentTensor} (h : p.acquire id fault = some (p', out)) :
    Leads p (.lookup id) p' (.done out) := by
  rw [LayerPager.acquire] at h
  cases hlookup : p.resident.lookup id with
  | none =>
    rw [hlookup] at h
    have hmem : id ∉ p.resident := AList.lookup_eq_none.mp hlookup
    refine .head _ none ?_ (leads_load h)
    rw [Phase.run, if_neg hmem]
  | some tensor =>
    rw [hlookup] at h
    have hmem : id ∈ p.resident := LayerPager.mem_resident_iff.mpr ⟨tensor, hlookup⟩
    have hagain : (p.bumpLru id).resident.lookup id = some tensor := hlookup
    dsimp only at h
    rw [hagain] at h
    cases h
    refine .head (.bump id) none (by rw [Phase.run, if_pos hmem])
      (.head _ none rfl (.head _ none ?_ (.refl _ _)))
    rw [Phase.run, hagain]

/-! ### Every run -/

/-- **When concurrent acquires keep the pager consistent.**  In every run whose sections find
what their guards ask for, in every state in which no acquire is in progress, the counter is
the sum of the resident sizes, the LRU list holds the resident tensors, each once, and
`evict_to_fit` ends, for any number of bytes. -/
theorem consistent_of_guarded {source : PagerSource}
    {tensorMap : AList fun _ : TensorId => TensorEntry} {budgetBytes : ℕ}
    {pinned : Finset TensorId} {s : Threads} {tr : List (Event × Unit)}
    (hr : Run step (init source tensorMap budgetBytes pinned) tr s)
    (hmeet : StepsMeet step Guard (init source tensorMap budgetBytes pinned) (tr.map Prod.fst))
    (hq : s.Quiescent) :
    s.pager.residentBytes = s.pager.residentTotal ∧
    (s.pager.lru.Nodup ∧ s.pager.lru.Perm s.pager.resident.keys) ∧
    ∀ needed, ∃ p', s.pager.evictToFit needed = some p' := by
  have hinv : s.Inv :=
    inv_run hr hmeet (inv_init source tensorMap budgetBytes pinned)
  obtain ⟨hcons, hlt⟩ := hq.consistent hinv
  refine ⟨hcons.bytes, ⟨hcons.tracks.nodup, hcons.tracks.perm⟩, fun needed => ?_⟩
  obtain ⟨p', hevict, -⟩ := LayerPager.evictToFit_spec hcons hlt needed
  exact ⟨p', hevict⟩

/-- The sections of the acquires with the given numbers, one after the other. -/
def sections (is : List ℕ) : List Event := is.map fun i => .advance i none

/-- A pager with the budget for one of its two tensors. -/
def oneOfTwo : Threads := init ⟨[1, 2, 3, 4, 5, 6]⟩ twoTensors 3 ∅

/-- One acquire finds a tensor and bumps it, and another one evicts it, in steps that take
turns. -/
def takingTurns : List Event :=
  .start ⟨"a"⟩ :: sections [0, 0, 0, 0, 0, 0] ++
    [.start ⟨"a"⟩, .start ⟨"b"⟩] ++ sections [1, 2, 1, 2, 1, 2, 2, 2, 2, 2, 2, 2, 2, 2]

theorem consistent_of_guarded_takingTurns :
    ∃ tr s, Run step oneOfTwo tr s ∧ s.acquires.length = 3 ∧ s.pager.lru = [⟨"b"⟩] ∧
      s.pager.residentBytes = s.pager.residentTotal := by
  have hrun := run_of_runInputs (show runInputs step oneOfTwo takingTurns = some _ from rfl)
  have hmeet : StepsMeet step Guard oneOfTwo takingTurns := stepsMeet_of_meets rfl
  have hq := consistent_of_guarded hrun hmeet (List.all_eq_true.mp rfl)
  exact ⟨_, _, hrun, rfl, rfl, hq.1⟩

/-! ### Runs that break the pager -/

/-- Two loads of one tensor that overlap. -/
def twoLoads : List Event :=
  [.start ⟨"a"⟩, .start ⟨"a"⟩] ++ sections [0, 0, 0, 1, 1, 1, 0, 0, 0, 1, 1, 1]

/-- An acquire finds its tensor; a load of another one evicts it; then comes the bump, and
the read of the slow path fails. -/
def lateBump : List Event :=
  .start ⟨"a"⟩ :: sections [0, 0, 0, 0, 0, 0] ++
    .start ⟨"a"⟩ :: sections [1] ++
    .start ⟨"b"⟩ :: sections [2, 2, 2, 2, 2, 2, 2, 2, 2, 2, 2] ++
    sections [1, 1, 1, 1, 1, 1, 1, 1] ++ [.advance 1 (some (.io "disk"))]

/-- **Two loads of one tensor count it twice, and a late bump leaves an entry behind** with
which `evict_to_fit` never ends. -/
theorem two_loads_and_a_late_bump :
    (∃ tr s, Run step oneOfTwo tr s ∧ s.Quiescent ∧
      s.pager.residentBytes = 6 ∧ s.pager.residentTotal = 3 ∧ ¬ s.pager.lru.Nodup) ∧
    ∃ tr s, Run step oneOfTwo tr s ∧ s.Quiescent ∧
      ¬ s.pager.lru.Perm s.pager.resident.keys ∧
      ∀ rounds, LayerPager.evictLoop 4 rounds s.pager = none := by
  constructor
  · have hrun := run_of_runInputs (show runInputs step oneOfTwo twoLoads = some _ from rfl)
    exact ⟨_, _, hrun, List.all_eq_true.mp rfl, rfl, rfl, by decide⟩
  · have hrun := run_of_runInputs (show runInputs step oneOfTwo lateBump = some _ from rfl)
    refine ⟨_, _, hrun, List.all_eq_true.mp rfl, by decide, ?_⟩
    intro rounds
    refine Option.eq_none_iff_forall_not_mem.mpr fun p' hp' => ?_
    have hend := LayerPager.evictLoop_enough hp'
    cases hend

end Threads

end Offload

end Oxillama
