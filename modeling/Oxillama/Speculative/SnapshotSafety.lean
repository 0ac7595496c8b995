/-
What decoding a snapshot does on bytes that nobody vouches for.

The fields of a fixed size are read safely.  The two length fields of the engine
snapshots are added to the position before they are compared with the buffer, and
the number of accepted tokens is never compared with it.

* `safe_readExact_bind` — when a read is safe, and what follows it;
* `AlwaysSafe` — the parts of the decoder that are safe from every position;
* `safe_decode_iff` — **exactly the buffers that are decoded safely**.
-/
import Oxillama.Speculative.Snapshot

namespace Oxillama

namespace Speculative

namespace Snapshot

/-! ### Safe runs -/

/-- An operation that does not overflow, stays in the buffer, and allocates for no more items
than the buffer has bytes. -/
def Operation.Safe (len : ℕ) : Operation → Prop
  | .add pos n => pos + n < 2 ^ 64
  | .slice start stop => start ≤ stop ∧ stop ≤ len
  | .allocate capacity => capacity ≤ len

/-- A run that returns, and evaluates no operation that is not safe. -/
def Safe {α : Type} (len : ℕ) (r : Except Stop α × DecodeState) : Prop :=
  r.1 ≠ .error .panic ∧ ∀ op ∈ r.2.evaluated, op.Safe len

/-- A state inside of the buffer, behind safe operations. -/
structure Clean (len : ℕ) (s : DecodeState) : Prop where
  pos_le : s.pos ≤ len
  safe : ∀ op ∈ s.evaluated, op.Safe len

/-- The state behind a read. -/
def DecodeState.after (s : DecodeState) (n : ℕ) : DecodeState :=
  ⟨s.pos + n, .slice s.pos (s.pos + n) :: .add s.pos n :: s.evaluated⟩

section Reads

variable {bytes : List UInt8} {n : ℕ} {label : String} {s : DecodeState} {α β : Type}

theorem readExact_run (bytes : List UInt8) (n : ℕ) (label : String) (s : DecodeState) :
    readExact bytes n label s =
      if s.pos + n < 2 ^ 64 then
        if s.pos + n > bytes.length then
          (.error (.error (.specSnapshotIncompatible (truncated n label s.pos))),
            ⟨s.pos, .add s.pos n :: s.evaluated⟩)
        else (.ok ((bytes.drop s.pos).take n), s.after n)
      else (.error .panic, ⟨s.pos, .add s.pos n :: s.evaluated⟩) := by
  by_cases hadd : s.pos + n < 2 ^ 64
  · rw [if_pos hadd]
    have hrun : readExact bytes n label s =
        (if s.pos + n > bytes.length then fail (truncated n label s.pos)
        else do
          let slice ← evaluate (.slice s.pos (s.pos + n)) (sliceRange bytes s.pos (s.pos + n))
          modify fun s' => { s' with pos := s.pos + n }
          return slice : DecodeM (List UInt8)) ⟨s.pos, .add s.pos n :: s.evaluated⟩ := by
      rw [readExact, exceptT_get_bind, usizeAdd_of_lt hadd]
      rfl
    rw [hrun]
    by_cases hfits : s.pos + n > bytes.length
    · rw [if_pos hfits, if_pos hfits]
      rfl
    · rw [if_neg hfits, if_neg hfits, sliceRange_of_le (not_lt.mp hfits)]
      rfl
  · rw [if_neg hadd, readExact, exceptT_get_bind, usizeAdd, if_neg hadd]
    rfl

theorem Clean.after {len : ℕ} (hs : Clean len s) (hadd : s.pos + n < 2 ^ 64)
    (hfits : s.pos + n ≤ len) : Clean len (s.after n) where
  pos_le := hfits
  safe op hop := by
    rcases List.mem_cons.mp hop with rfl | hop
    · exact ⟨Nat.le_add_right _ _, hfits⟩
    · rcases List.mem_cons.mp hop with rfl | hop
      · exact hadd
      · exact hs.safe op hop

/-- **When a read is safe**: its addition does not overflow, and what follows it is safe if the
bytes are there. -/
theorem safe_readExact_bind (hs : Clean bytes.length s) {f : List UInt8 → DecodeM β} :
    Safe bytes.length ((readExact bytes n label >>= f) s) ↔ s.pos + n < 2 ^ 64 ∧
      (s.pos + n ≤ bytes.length →
        Safe bytes.length (f ((bytes.drop s.pos).take n) (s.after n))) := by
  have hread := readExact_run bytes n label s
  by_cases hadd : s.pos + n < 2 ^ 64
  · rw [if_pos hadd] at hread
    have hclean : ∀ op ∈ Operation.add s.pos n :: s.evaluated, op.Safe bytes.length :=
      List.forall_mem_cons.mpr ⟨hadd, hs.safe⟩
    by_cases hfits : s.pos + n > bytes.length
    · rw [if_pos hfits] at hread
      rw [exceptT_bind_error hread]
      refine iff_of_true ⟨fun h => ?_, hclean⟩ ⟨hadd, fun hle => absurd hfits (not_lt.mpr hle)⟩
      cases h
    · rw [if_neg hfits] at hread
      rw [exceptT_bind_ok hread, and_iff_right hadd]
      exact ⟨fun h _ => h, fun h => h (not_lt.mp hfits)⟩
  · rw [if_neg hadd] at hread
    rw [exceptT_bind_error hread]
    exact iff_of_false (fun h => h.1 rfl) fun h => hadd h.1

/-- The same for an integer. -/
theorem safe_readLe_bind (hs : Clean bytes.length s) {f : ℕ → DecodeM β} :
    Safe bytes.length ((readLe bytes n label >>= f) s) ↔ s.pos + n < 2 ^ 64 ∧
      (s.pos + n ≤ bytes.length →
        Safe bytes.length (f (fromLe ((bytes.drop s.pos).take n)) (s.after n))) := by
  rw [readLe, bind_assoc, safe_readExact_bind hs]
  simp only [pure_bind]

end Reads

/-! ### Fields -/

/-- The integer of `n` bytes at a position. -/
def leAt (bytes : List UInt8) (n pos : ℕ) : ℕ := fromLe ((bytes.drop pos).take n)

section Fields

variable {Snap : Type} {deserialize : List UInt8 → Except String Snap} {bytes : List UInt8}
  {n : ℕ} {label : String} {s : DecodeState} {α β : Type}

/-- A field of a fixed size is always read safely. -/
theorem safe_field_bind (hlen : bytes.length < 2 ^ 63) (hn : n ≤ 8) (hs : Clean bytes.length s)
    {f : ℕ → DecodeM β} : Safe bytes.length ((readLe bytes n label >>= f) s) ↔
      (s.pos + n ≤ bytes.length → Clean bytes.length (s.after n) →
        Safe bytes.length (f (leAt bytes n s.pos) (s.after n))) := by
  have hadd : s.pos + n < 2 ^ 64 := by
    have hpos := hs.pos_le
    omega
  rw [safe_readLe_bind hs, and_iff_right hadd]
  exact ⟨fun h hfits _ => h hfits, fun h hfits => h hfits (hs.after hadd hfits)⟩

/-- A snapshot of an engine, `len` bytes from `start` on. -/
def Holds (deserialize : List UInt8 → Except String Snap) (bytes : List UInt8) (start len : ℕ) :
    Prop :=
  start + len ≤ bytes.length ∧ ∃ snap, deserialize ((bytes.drop start).take len) = .ok snap

/-- **A length field is safe** when the position behind the snapshot does not overflow. -/
theorem safe_readSnapshot_bind (hlen : bytes.length < 2 ^ 63) (hs : Clean bytes.length s)
    {name : String} {f : Snap → DecodeM β} :
    Safe bytes.length ((readSnapshot deserialize bytes name >>= f) s) ↔
      (s.pos + 8 ≤ bytes.length → s.pos + 8 + leAt bytes 8 s.pos < 2 ^ 64 ∧
        ∀ snap, s.pos + 8 + leAt bytes 8 s.pos ≤ bytes.length →
          deserialize ((bytes.drop (s.pos + 8)).take (leAt bytes 8 s.pos)) = .ok snap →
            Clean bytes.length ((s.after 8).after (leAt bytes 8 s.pos)) →
              Safe bytes.length (f snap ((s.after 8).after (leAt bytes 8 s.pos)))) := by
  rw [readSnapshot, bind_assoc, safe_field_bind hlen le_rfl hs]
  simp only [bind_assoc]
  refine ⟨fun h hfits => ?_, fun h hfits hclean => ?_⟩
  · have hclean : Clean bytes.length (s.after 8) := hs.after (by omega) hfits
    obtain ⟨hadd, hrest⟩ := (safe_readExact_bind hclean).mp (h hfits hclean)
    refine ⟨hadd, fun snap hraw hsnap _ => ?_⟩
    have hsafe := hrest hraw
    have hpos : (s.after 8).pos = s.pos + 8 := rfl
    rw [hpos, hsnap] at hsafe
    exact hsafe
  · obtain ⟨hadd, hrest⟩ := h hfits
    refine (safe_readExact_bind hclean).mpr ⟨hadd, fun hraw => ?_⟩
    have hclean' := hclean.after hadd hraw
    have hpos : (s.after 8).pos = s.pos + 8 := rfl
    rw [hpos]
    cases hsnap : deserialize ((bytes.drop (s.pos + 8)).take (leAt bytes 8 s.pos)) with
    | error e =>
      refine ⟨fun h => ?_, hclean'.safe⟩
      cases h
    | ok snap => exact hrest snap hraw hsnap hclean'

end Fields

/-! ### Parts that are safe from every position -/

/-- A part of the decoder that is safe from every position, and stays in the buffer. -/
def AlwaysSafe {α : Type} (len : ℕ) (p : DecodeM α) : Prop :=
  ∀ s, Clean len s → Safe len (p s) ∧ ∀ a s', p s = (.ok a, s') → s'.pos ≤ len

namespace AlwaysSafe

variable {len : ℕ} {α β : Type} {p : DecodeM α}

theorem pure (a : α) : AlwaysSafe len (Pure.pure a) := by
  intro s hs
  refine ⟨⟨fun h => ?_, hs.safe⟩, fun _ s' h => ?_⟩
  · cases h
  · obtain rfl := (Prod.mk.inj h).2
    exact hs.pos_le

theorem bind {f : α → DecodeM β} (hp : AlwaysSafe len p) (hf : ∀ a, AlwaysSafe len (f a)) :
    AlwaysSafe len (p >>= f) := by
  intro s hs
  obtain ⟨hsafe, hpos⟩ := hp s hs
  cases hrun : p s with
  | mk result s' =>
    rw [hrun] at hsafe
    cases result with
    | error e =>
      rw [exceptT_bind_error hrun]
      refine ⟨⟨fun h => ?_, hsafe.2⟩, fun _ _ h => ?_⟩
      · obtain rfl := Except.error.inj h
        exact hsafe.1 rfl
      · cases (Prod.mk.inj h).1
    | ok a =>
      rw [exceptT_bind_ok hrun]
      exact hf a s' ⟨hpos a s' hrun, hsafe.2⟩

theorem iterM {f : α → DecodeM α} (hf : ∀ a, AlwaysSafe len (f a)) (n : ℕ) (a : α) :
    AlwaysSafe len (Oxillama.iterM f n a) := by
  induction n generalizing a with
  | zero => exact pure a
  | succ n ih => exact (hf a).bind ih

theorem readExact {bytes : List UInt8} (hlen : bytes.length < 2 ^ 63) {n : ℕ} (hn : n ≤ 8)
    (label : String) : AlwaysSafe bytes.length (readExact bytes n label) := by
  intro s hs
  have hadd : s.pos + n < 2 ^ 64 := by
    have hpos := hs.pos_le
    omega
  rw [readExact_run, if_pos hadd]
  split
  · refine ⟨⟨fun h => ?_, List.forall_mem_cons.mpr ⟨hadd, hs.safe⟩⟩, fun _ _ h => ?_⟩
    · cases h
    · cases (Prod.mk.inj h).1
  · rename_i hfits
    have hclean := hs.after hadd (not_lt.mp hfits)
    refine ⟨⟨fun h => ?_, hclean.safe⟩, fun _ s' h => ?_⟩
    · cases h
    · obtain rfl := (Prod.mk.inj h).2
      exact hclean.pos_le

theorem readLe {bytes : List UInt8} (hlen : bytes.length < 2 ^ 63) {n : ℕ} (hn : n ≤ 8)
    (label : String) : AlwaysSafe bytes.length (readLe bytes n label) :=
  (readExact hlen hn label).bind fun _ => pure _

end AlwaysSafe

/-- A part of the decoder that forgets no operation. -/
def Keeps {α : Type} (p : DecodeM α) : Prop :=
  ∀ s, ∀ op ∈ s.evaluated, op ∈ (p s).2.evaluated

namespace Keeps

variable {α β : Type} {p : DecodeM α}

theorem pure (a : α) : Keeps (Pure.pure a) := fun _ _ h => h

theorem bind {f : α → DecodeM β} (hp : Keeps p) (hf : ∀ a, Keeps (f a)) : Keeps (p >>= f) := by
  intro s op hop
  have hkept := hp s op hop
  cases hrun : p s with
  | mk result s' =>
    rw [hrun] at hkept
    cases result with
    | error e =>
      rw [exceptT_bind_error hrun]
      exact hkept
    | ok a =>
      rw [exceptT_bind_ok hrun]
      exact hf a s' op hkept

theorem iterM {f : α → DecodeM α} (hf : ∀ a, Keeps (f a)) (n : ℕ) (a : α) :
    Keeps (Oxillama.iterM f n a) := by
  induction n generalizing a with
  | zero => exact pure a
  | succ n ih => exact (hf a).bind ih

theorem readLe (bytes : List UInt8) (n : ℕ) (label : String) : Keeps (readLe bytes n label) := by
  refine bind (fun s op hop => ?_) fun _ => pure _
  rw [readExact_run]
  split
  · split
    · exact List.mem_cons_of_mem _ hop
    · exact List.mem_cons_of_mem _ (List.mem_cons_of_mem _ hop)
  · exact List.mem_cons_of_mem _ hop

end Keeps

/-! ### The decoder -/

section Decode

variable {Snap : Type} {deserialize : List UInt8 → Except String Snap} {bytes : List UInt8}
  {s : DecodeState} {β : Type}

/-- **The number of tokens is safe** when it is no larger than the buffer. -/
theorem safe_readAcceptedTokens_bind (hlen : bytes.length < 2 ^ 63) (hs : Clean bytes.length s)
    {f : List ℕ → DecodeM β} (hf : ∀ tokens, AlwaysSafe bytes.length (f tokens))
    (hkeeps : ∀ tokens, Keeps (f tokens)) :
    Safe bytes.length ((readAcceptedTokens bytes >>= f) s) ↔
      (s.pos + 8 ≤ bytes.length →
        leAt bytes 8 s.pos ≤ bytes.length ∧ 4 * leAt bytes 8 s.pos < 2 ^ 63) := by
  rw [readAcceptedTokens, bind_assoc, safe_field_bind hlen le_rfl hs]
  generalize leAt bytes 8 s.pos = count
  let fill : DecodeM (List ℕ) :=
    iterM (fun tokens => do return tokens ++ [← readLe bytes 4 "accepted_token"]) count []
  refine ⟨fun h hfits => ?_, fun h hfits hclean => ?_⟩
  · have hsafe := h hfits (hs.after (by omega) hfits)
    by_cases hcap : 4 * count < 2 ^ 63
    · rw [if_pos hcap] at hsafe
      -- the allocation is remembered to the end
      have hfill : Keeps fill :=
        Keeps.iterM (fun _ => (Keeps.readLe bytes 4 _).bind fun _ => .pure _) _ _
      exact ⟨hsafe.2 (.allocate count) ((hfill.bind hkeeps) _ _ List.mem_cons_self), hcap⟩
    · rw [if_neg hcap] at hsafe
      exact absurd rfl hsafe.1
  · obtain ⟨hle, hcap⟩ := h hfits
    rw [if_pos hcap]
    have hfill : AlwaysSafe bytes.length fill :=
      AlwaysSafe.iterM (fun _ => (AlwaysSafe.readLe hlen (by decide) _).bind fun _ => .pure _) _ _
    have hclean' : Clean bytes.length ⟨(s.after 8).pos, .allocate count :: (s.after 8).evaluated⟩ :=
      ⟨hclean.pos_le, List.forall_mem_cons.mpr ⟨hle, hclean.safe⟩⟩
    exact ((hfill.bind hf) _ hclean').1

theorem safe_fail (hs : Clean bytes.length s) (reason : String) :
    Safe bytes.length ((fail reason : DecodeM β) s) := by
  refine ⟨fun h => ?_, hs.safe⟩
  cases h

/-- A check that ends in an error. -/
theorem safe_check (hs : Clean bytes.length s) {c : Prop} [Decidable c] {reason : String}
    {p : DecodeM β} : Safe bytes.length ((if c then fail reason else p : DecodeM β) s) ↔
      (¬ c → Safe bytes.length (p s)) := by
  by_cases hc : c
  · rw [if_pos hc]
    exact iff_of_true (safe_fail hs reason) fun h => absurd hc h
  · rw [if_neg hc]
    exact (imp_iff_right hc).symm

/-- Where the field behind the seed stands, if the flag of the seed is at `pos`. -/
def behindSeed (bytes : List UInt8) (pos : ℕ) : ℕ :=
  pos + 1 + if leAt bytes 1 pos = 1 then 8 else 0

/-- The seed is read safely, and the position is behind it then. -/
theorem safe_readSeed_bind (hlen : bytes.length < 2 ^ 63) (hs : Clean bytes.length s)
    {f : Option ℕ → DecodeM β} {q : ℕ → Prop} (hf : ∀ seed s', Clean bytes.length s' →
      (Safe bytes.length (f seed s') ↔ (s'.pos + 8 ≤ bytes.length → q s'.pos))) :
    Safe bytes.length ((readSeed bytes >>= f) s) ↔
      (behindSeed bytes s.pos + 8 ≤ bytes.length → q (behindSeed bytes s.pos)) := by
  rw [readSeed, bind_assoc, safe_field_bind hlen (by decide) hs, behindSeed]
  by_cases hseed : leAt bytes 1 s.pos = 1
  · rw [if_pos hseed]
    simp only [if_pos hseed, bind_assoc, pure_bind]
    refine ⟨fun h hfits => ?_, fun h hfits hclean => ?_⟩
    · have hclean := hs.after (n := 1) (by omega) (by omega)
      have hafter := hclean.after (n := 8) (show s.pos + 1 + 8 < 2 ^ 64 by omega)
        (show s.pos + 1 + 8 ≤ bytes.length by omega)
      have hsafe := (safe_field_bind hlen le_rfl hclean).mp (h (by omega) hclean)
        (show s.pos + 1 + 8 ≤ bytes.length by omega) hafter
      exact (hf _ _ hafter).mp hsafe hfits
    · refine (safe_field_bind hlen le_rfl hclean).mpr fun hfits' hafter => ?_
      exact (hf _ _ hafter).mpr h
  · rw [if_neg hseed]
    simp only [if_neg hseed, pure_bind]
    refine ⟨fun h hfits => ?_, fun h hfits hclean => (hf _ _ hclean).mpr h⟩
    have hclean := hs.after (n := 1) (by omega) (by omega)
    exact (hf _ _ hclean).mp (h (by omega) hclean) hfits

/-- The lengths in a snapshot. -/
def targetLen (bytes : List UInt8) : ℕ := leAt bytes 8 12

def draftLen (bytes : List UInt8) : ℕ := leAt bytes 8 (20 + targetLen bytes)

/-- Where the number of speculative tokens stands. -/
def behindDraft (bytes : List UInt8) : ℕ := 20 + targetLen bytes + 8 + draftLen bytes

/-- Where the number of accepted tokens stands. -/
def acceptedAt (bytes : List UInt8) : ℕ := behindSeed bytes (behindDraft bytes + 8)

/-- A buffer with the magic bytes, the version and the first length field. -/
def Opened (bytes : List UInt8) : Prop :=
  bytes.take 8 = specSnapshotMagic ∧ leAt bytes 4 8 = specSnapshotVersion ∧ 20 ≤ bytes.length

/-- Every length field that is reached fits: the positions behind the snapshots do not
overflow, and there are no more tokens than bytes. -/
structure LengthsFit (deserialize : List UInt8 → Except String Snap) (bytes : List UInt8) :
    Prop where
  target : Opened bytes → 20 + targetLen bytes < 2 ^ 64
  draft : Opened bytes → Holds deserialize bytes 20 (targetLen bytes) →
    20 + targetLen bytes + 8 ≤ bytes.length → behindDraft bytes < 2 ^ 64
  accepted : Opened bytes → Holds deserialize bytes 20 (targetLen bytes) →
    Holds deserialize bytes (20 + targetLen bytes + 8) (draftLen bytes) →
      acceptedAt bytes + 8 ≤ bytes.length → leAt bytes 8 (acceptedAt bytes) ≤ bytes.length ∧
        4 * leAt bytes 8 (acceptedAt bytes) < 2 ^ 63

/-- The fields behind the snapshots. -/
theorem safe_rest (hlen : bytes.length < 2 ^ 63) (hs : Clean bytes.length s)
    (target draft : Snap) : Safe bytes.length ((do
      let numSpeculative ← readLe bytes 8 "num_speculative"
      let specSeed ← readSeed bytes
      let acceptedTokens ← readAcceptedTokens bytes
      let rngState ← readLe bytes 8 "rng_state"
      return ⟨target, draft, numSpeculative, specSeed, acceptedTokens, rngState⟩ :
        DecodeM (SpeculativeEngineSnapshot Snap)) s) ↔
      (behindSeed bytes (s.pos + 8) + 8 ≤ bytes.length →
        leAt bytes 8 (behindSeed bytes (s.pos + 8)) ≤ bytes.length ∧
          4 * leAt bytes 8 (behindSeed bytes (s.pos + 8)) < 2 ^ 63) := by
  have hseed : ∀ s', Clean bytes.length s' → ∀ numSpeculative,
      (Safe bytes.length ((do
        let specSeed ← readSeed bytes
        let acceptedTokens ← readAcceptedTokens bytes
        let rngState ← readLe bytes 8 "rng_state"
        return ⟨target, draft, numSpeculative, specSeed, acceptedTokens, rngState⟩ :
          DecodeM (SpeculativeEngineSnapshot Snap)) s') ↔
        (behindSeed bytes s'.pos + 8 ≤ bytes.length →
          leAt bytes 8 (behindSeed bytes s'.pos) ≤ bytes.length ∧
            4 * leAt bytes 8 (behindSeed bytes s'.pos) < 2 ^ 63)) := by
    intro s' hs' numSpeculative
    refine safe_readSeed_bind hlen hs'
      (q := fun p => leAt bytes 8 p ≤ bytes.length ∧ 4 * leAt bytes 8 p < 2 ^ 63) ?_
    intro seed s'' hs''
    refine safe_readAcceptedTokens_bind hlen hs'' (fun tokens => ?_) fun tokens => ?_
    · exact (AlwaysSafe.readLe hlen le_rfl _).bind fun _ => .pure _
    · exact (Keeps.readLe bytes 8 _).bind fun _ => .pure _
  rw [safe_field_bind hlen le_rfl hs]
  refine ⟨fun h hfits => ?_, fun h hfits hclean => (hseed _ hclean _).mpr h⟩
  have hle : s.pos + 8 ≤ bytes.length := by
    have hbehind : s.pos + 8 ≤ behindSeed bytes (s.pos + 8) := by
      rw [behindSeed, Nat.add_assoc]
      exact Nat.le_add_right _ _
    omega
  have hclean := hs.after (n := 8) (by omega) hle
  exact (hseed _ hclean _).mp (h hle hclean) hfits

/-- **Exactly the buffers that are decoded safely.**  Decoding returns, and evaluates no
addition that overflows, no slice out of range and no allocation for more tokens than there
are bytes, if and only if every length field that it reaches fits.  (No slice has `2 ^ 63`
bytes.) -/
theorem safe_decode_iff (hlen : bytes.length < 2 ^ 63) :
    Safe bytes.length (run deserialize bytes) ↔ LengthsFit deserialize bytes := by
  have hstart : Clean bytes.length ⟨0, []⟩ :=
    ⟨Nat.zero_le _, fun op hop => absurd hop List.not_mem_nil⟩
  rw [run, decode, safe_readExact_bind hstart]
  constructor
  · rintro ⟨-, h⟩
    -- what a buffer that is opened asks of the first snapshot
    have hopened : Opened bytes → 20 + targetLen bytes < 2 ^ 64 ∧
        ∀ target, 20 + targetLen bytes ≤ bytes.length →
          deserialize ((bytes.drop 20).take (targetLen bytes)) = .ok target → ∃ s,
            Clean bytes.length s ∧ s.pos = 20 + targetLen bytes ∧ Safe bytes.length
              ((readSnapshot deserialize bytes "draft" >>= fun draft => do
                let numSpeculative ← readLe bytes 8 "num_speculative"
                let specSeed ← readSeed bytes
                let acceptedTokens ← readAcceptedTokens bytes
                let rngState ← readLe bytes 8 "rng_state"
                return ⟨target, draft, numSpeculative, specSeed, acceptedTokens, rngState⟩ :
                  DecodeM (SpeculativeEngineSnapshot Snap)) s) := by
      rintro ⟨hmagic, hversion, hfits⟩
      have hclean₁ := hstart.after (n := 8) (by decide) (show 0 + 8 ≤ bytes.length by omega)
      have hclean₂ := hclean₁.after (n := 4) (by decide) (show 0 + 8 + 4 ≤ bytes.length by omega)
      have h₁ := (safe_check hclean₁).mp (h (show 0 + 8 ≤ bytes.length by omega))
        (not_not.mpr hmagic)
      have h₂ := (safe_field_bind hlen (by decide) hclean₁).mp h₁
        (show 0 + 8 + 4 ≤ bytes.length by omega) hclean₂
      have h₃ := (safe_check hclean₂).mp h₂ (not_not.mpr hversion)
      obtain ⟨hadd, h₄⟩ := (safe_readSnapshot_bind hlen hclean₂).mp h₃ hfits
      refine ⟨hadd, fun target hin hsnap => ?_⟩
      have hclean₃ := (hclean₂.after (n := 8) (by decide) hfits).after hadd hin
      exact ⟨_, hclean₃, rfl, h₄ target hin hsnap hclean₃⟩
    refine ⟨fun hopen => (hopened hopen).1, ?_, ?_⟩
    · rintro hopen ⟨hin, target, hsnap⟩ hfits
      obtain ⟨s, hs, hpos, hsafe⟩ := (hopened hopen).2 target hin hsnap
      have hread := (safe_readSnapshot_bind hlen hs).mp hsafe
      rw [hpos] at hread
      exact (hread hfits).1
    · rintro hopen ⟨hin, target, hsnap⟩ ⟨hin', draft, hsnap'⟩ hfits
      obtain ⟨s, hs, hpos, hsafe⟩ := (hopened hopen).2 target hin hsnap
      have hread := (safe_readSnapshot_bind hlen hs).mp hsafe
      have hstop := Nat.le_trans (Nat.le_add_right _ _) hin'
      have hclean : Clean bytes.length ((s.after 8).after (draftLen bytes)) := by
        refine (hs.after (n := 8) (by omega) (by omega)).after ?_ ?_
        · show s.pos + 8 + draftLen bytes < 2 ^ 64
          omega
        · show s.pos + 8 + draftLen bytes ≤ bytes.length
          omega
      rw [hpos] at hread
      have hrest := (hread hstop).2 draft hin' hsnap' hclean
      have htokens := (safe_rest hlen hclean target draft).mp hrest
      have hbehind : ((s.after 8).after (draftLen bytes)).pos = behindDraft bytes := by
        show s.pos + 8 + draftLen bytes = _
        rw [hpos, behindDraft]
      rw [hbehind] at htokens
      exact htokens hfits
  · intro h
    refine ⟨by decide, fun hfits => ?_⟩
    have hclean₁ := hstart.after (n := 8) (by decide) hfits
    refine (safe_check hclean₁).mpr fun hmagic => ?_
    refine (safe_field_bind hlen (by decide) hclean₁).mpr fun hfits₂ hclean₂ => ?_
    refine (safe_check hclean₂).mpr fun hversion => ?_
    refine (safe_readSnapshot_bind hlen hclean₂).mpr fun hfits₃ => ?_
    have hopened : Opened bytes := ⟨not_not.mp hmagic, not_not.mp hversion, hfits₃⟩
    refine ⟨h.target hopened, fun target hin hsnap hclean₃ => ?_⟩
    refine (safe_readSnapshot_bind hlen hclean₃).mpr fun hfits₄ => ?_
    have htarget : Holds deserialize bytes 20 (targetLen bytes) := ⟨hin, target, hsnap⟩
    refine ⟨h.draft hopened htarget hfits₄, fun draft hin' hsnap' hclean₄ => ?_⟩
    exact (safe_rest hlen hclean₄ target draft).mpr
      (h.accepted hopened htarget ⟨hin', draft, hsnap'⟩)

end Decode

/-- A buffer that ends behind its first length field. -/
def headerOf (targetLen : ℕ) : List UInt8 := specSnapshotMagic ++ toLe 4 1 ++ toLe 8 targetLen

/-- A codec that finds nothing in an empty buffer. -/
def rejectAll (_ : List UInt8) : Except String Unit :=
  .error "deserialization failed: UnexpectedEnd"

theorem safe_decode_iff_empty : Safe 20 (run rejectAll (headerOf 0)) := by
  have hlen : (headerOf 0).length < 2 ^ 63 := by decide
  refine (safe_decode_iff hlen).mpr ⟨fun _ => by decide, ?_, ?_⟩
  · rintro - ⟨-, snap, hsnap⟩
    cases hsnap
  · rintro - ⟨-, snap, hsnap⟩
    cases hsnap

/-- **A length field of all ones overflows the position.** -/
theorem not_safe_decode_ones : ¬ Safe 20 (run rejectAll (headerOf (2 ^ 64 - 1))) := by
  intro h
  exact h.1 rfl

end Snapshot

end Speculative

end Oxillama
