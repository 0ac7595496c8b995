/-
A snapshot is read back from its bytes, and from nothing shorter.

A part of the decoder reads the bytes of a field, and fails where the buffer ends inside of
them.  Both are one statement about the part and the bytes (`Decodes`), so that one rule for
every way of building decoders gives both at once: a buffer that ends inside of two fields
ends inside of the first one, or behind it and inside of the second one.

* `Decodes` and its rules — fields, pairs of fields, loops;
* `decodes_decode` — the whole decoder against the layout of the encoder;
* `decode_encode` — **decoding undoes encoding**.
-/
import Oxillama.Speculative.SnapshotSafety

namespace Oxillama

namespace Speculative

namespace Snapshot

/-! ### Reading a field, or failing inside of it -/

/-- `p` reads `field` as `a` wherever it stands in a buffer, and returns an error where the
buffer ends inside of `field`. -/
def Decodes {α : Type} (p : List UInt8 → DecodeM α) (field : List UInt8) (a : α) : Prop :=
  ∀ bytes s, s.pos ≤ bytes.length → s.pos + field.length < 2 ^ 63 →
    (field <+: bytes.drop s.pos → ∃ s', p bytes s = (.ok a, s') ∧
      s'.pos = s.pos + field.length) ∧
    (bytes.drop s.pos <+: field → bytes.length < s.pos + field.length →
      ∃ e s', p bytes s = (.error (.error e), s'))

namespace Decodes

variable {α β : Type} {p : List UInt8 → DecodeM α} {field : List UInt8} {a : α}

theorem pure (a : α) : Decodes (fun _ => Pure.pure a) [] a := by
  intro bytes s hpos _
  refine ⟨fun _ => ⟨s, rfl, rfl⟩, fun _ hshort => ?_⟩
  rw [List.length_nil] at hshort
  omega

/-- **One field behind the other.** -/
theorem bind {q : List UInt8 → α → DecodeM β} {field' : List UInt8} {b : β}
    (hp : Decodes p field a) (hq : Decodes (fun bytes => q bytes a) field' b) :
    Decodes (fun bytes => p bytes >>= q bytes) (field ++ field') b := by
  intro bytes s hpos hfits
  rw [List.length_append] at hfits ⊢
  obtain ⟨hread, hshort⟩ := hp bytes s hpos (by omega)
  -- what is left to do where the first field is there
  have hrest : field <+: bytes.drop s.pos → ∃ s', p bytes s = (.ok a, s') ∧
      s'.pos = s.pos + field.length ∧ s'.pos ≤ bytes.length ∧
        bytes.drop s.pos = field ++ bytes.drop s'.pos := by
    intro hprefix
    obtain ⟨s', hrun, hpos'⟩ := hread hprefix
    obtain ⟨rest, hrest⟩ := hprefix
    have hlen := congrArg List.length hrest
    rw [List.length_append, List.length_drop] at hlen
    have hdrop : bytes.drop (s.pos + field.length) = rest := by
      rw [← List.drop_drop, ← hrest, List.drop_left]
    refine ⟨s', hrun, hpos', by omega, ?_⟩
    rw [hpos', hdrop, hrest]
  constructor
  · intro hprefix
    obtain ⟨s₁, hrun₁, hpos₁, hle₁, hdrop₁⟩ :=
      hrest ((List.prefix_append field field').trans hprefix)
    rw [hdrop₁, List.prefix_append_right_inj] at hprefix
    obtain ⟨s₂, hrun₂, hpos₂⟩ := (hq bytes s₁ hle₁ (by omega)).1 hprefix
    refine ⟨s₂, ?_, by omega⟩
    show (p bytes >>= q bytes) s = _
    rw [exceptT_bind_ok hrun₁]
    exact hrun₂
  · intro hprefix hend
    show ∃ e s', (p bytes >>= q bytes) s = _
    by_cases hfirst : bytes.length < s.pos + field.length
    · -- the buffer ends inside of the first field
      have hcut : bytes.drop s.pos <+: field := by
        refine List.prefix_of_prefix_length_le hprefix (List.prefix_append field field') ?_
        rw [List.length_drop]
        omega
      obtain ⟨e, s', hrun⟩ := hshort hcut hfirst
      exact ⟨e, s', exceptT_bind_error hrun⟩
    · have hwhole : field <+: bytes.drop s.pos := by
        refine List.prefix_of_prefix_length_le (List.prefix_append field field') hprefix ?_
        rw [List.length_drop]
        omega
      obtain ⟨s₁, hrun₁, hpos₁, hle₁, hdrop₁⟩ := hrest hwhole
      rw [hdrop₁, List.prefix_append_right_inj] at hprefix
      obtain ⟨e, s₂, hrun₂⟩ := (hq bytes s₁ hle₁ (by omega)).2 hprefix (by omega)
      refine ⟨e, s₂, ?_⟩
      rw [exceptT_bind_ok hrun₁]
      exact hrun₂

/-- A last step that reads nothing. -/
theorem bind_last {q : List UInt8 → α → DecodeM β} {b : β} (hp : Decodes p field a)
    (hq : Decodes (fun bytes => q bytes a) [] b) :
    Decodes (fun bytes => p bytes >>= q bytes) field b := by
  have h := hp.bind hq
  rwa [List.append_nil] at h

/-- A loop that collects what it reads. -/
theorem collect {read : List UInt8 → DecodeM α} {enc : α → List UInt8} {items : List α}
    (h : ∀ x ∈ items, Decodes read (enc x) x) (acc : List α) :
    Decodes (fun bytes => iterM (fun acc => do return acc ++ [← read bytes]) items.length acc)
      (items.flatMap enc) (acc ++ items) := by
  induction items generalizing acc with
  | nil =>
    rw [List.append_nil]
    exact pure acc
  | cons x xs ih =>
    have hx : Decodes (fun bytes => do return acc ++ [← read bytes]) (enc x) (acc ++ [x]) :=
      (h x List.mem_cons_self).bind_last (pure _)
    have hxs := ih (fun y hy => h y (List.mem_cons_of_mem x hy)) (acc ++ [x])
    rw [List.append_assoc, List.singleton_append] at hxs
    rw [List.flatMap_cons]
    exact hx.bind hxs

/-! ### Fields -/

theorem readExact {n : ℕ} (hlen : field.length = n) (label : String) :
    Decodes (fun bytes => readExact bytes n label) field field := by
  subst hlen
  intro bytes s hpos hfits
  have hrun := readExact_run bytes field.length label s
  rw [if_pos (by omega)] at hrun
  constructor
  · intro hprefix
    have hle := hprefix.length_le
    rw [List.length_drop] at hle
    rw [if_neg (by omega), ← List.prefix_iff_eq_take.mp hprefix] at hrun
    exact ⟨s.after field.length, hrun, rfl⟩
  · intro _ hshort
    rw [if_pos (by omega)] at hrun
    exact ⟨_, _, hrun⟩

theorem readLe {n v : ℕ} (hv : v < 256 ^ n) (label : String) :
    Decodes (fun bytes => readLe bytes n label) (toLe n v) v := by
  have h := (readExact (length_toLe n v) label).bind_last (q := fun _ raw => Pure.pure (fromLe raw))
    (pure _)
  rwa [fromLe_toLe_of_lt hv] at h

end Decodes

section RoundTrip

variable {Snap : Type} {serialize : Snap → Except RuntimeError (List UInt8)}
  {deserialize : List UInt8 → Except String Snap}

theorem decodes_readSnapshot {raw : List UInt8} {snap : Snap} (hraw : raw.length < 256 ^ 8)
    (hsnap : deserialize raw = .ok snap) (name : String) :
    Decodes (fun bytes => readSnapshot deserialize bytes name) (toLe 8 raw.length ++ raw) snap := by
  refine (Decodes.readLe hraw _).bind ((Decodes.readExact rfl _).bind_last ?_)
  simp only [hsnap]
  exact Decodes.pure snap

theorem decodes_readSeed {specSeed : Option ℕ} (hseed : ∀ seed ∈ specSeed, seed < 256 ^ 8) :
    Decodes readSeed (seedBytes specSeed) specSeed := by
  cases specSeed with
  | none =>
    refine (Decodes.readLe (n := 1) (v := 0) (by decide) _).bind_last ?_
    exact Decodes.pure none
  | some seed =>
    refine (Decodes.readLe (n := 1) (v := 1) (by decide) _).bind ?_
    exact (Decodes.readLe (hseed seed rfl) _).bind_last (Decodes.pure _)

theorem decodes_readAcceptedTokens {tokens : List ℕ} (htokens : ∀ t ∈ tokens, t < 256 ^ 4)
    (hlen : 4 * tokens.length < 2 ^ 63) :
    Decodes readAcceptedTokens (toLe 8 tokens.length ++ tokens.flatMap (toLe 4)) tokens := by
  refine (Decodes.readLe (by omega) _).bind ?_
  rw [if_pos hlen]
  -- the allocation is in order, and is only remembered
  have hfill := Decodes.collect (fun t ht => Decodes.readLe (htokens t ht) "accepted_token") []
  intro bytes s hpos hfits
  exact hfill bytes ⟨s.pos, .allocate tokens.length :: s.evaluated⟩ hpos hfits

/-! ### The whole snapshot -/

/-- The numbers of a snapshot are of their types. -/
structure SpeculativeEngineSnapshot.Valid (s : SpeculativeEngineSnapshot Snap) : Prop where
  numSpeculative_lt : s.numSpeculative < 2 ^ 64
  specSeed_lt : ∀ seed ∈ s.specSeed, seed < 2 ^ 64
  acceptedTokens_lt : ∀ token ∈ s.acceptedTokens, token < 2 ^ 32
  rngState_lt : s.rngState < 2 ^ 64

/-- The codec of an engine snapshot reads back what it has written. -/
def RoundTrips (serialize : Snap → Except RuntimeError (List UInt8))
    (deserialize : List UInt8 → Except String Snap) : Prop :=
  ∀ snap, ∃ raw, serialize snap = .ok raw ∧ deserialize raw = .ok snap

/-- The encoder returns its fields, or there is no room for them. -/
theorem encode_eq {s : SpeculativeEngineSnapshot Snap} {target draft : List UInt8}
    (htarget : serialize s.targetSnapshot = .ok target)
    (hdraft : serialize s.draftSnapshot = .ok draft) :
    s.encode serialize = if s.capacity target.length draft.length < 2 ^ 63 then
      .ok (s.layout target draft) else .error .panic := by
  rw [SpeculativeEngineSnapshot.encode, htarget, hdraft]
  rfl

theorem decodes_decode {s : SpeculativeEngineSnapshot Snap} (hs : s.Valid)
    {target draft : List UInt8} (htarget : deserialize target = .ok s.targetSnapshot)
    (hdraft : deserialize draft = .ok s.draftSnapshot)
    (hroom : s.capacity target.length draft.length < 2 ^ 63) :
    Decodes (decode deserialize) (s.layout target draft) s := by
  simp only [SpeculativeEngineSnapshot.capacity] at hroom
  have hmagic : specSnapshotMagic.length = 8 := rfl
  unfold decode SpeculativeEngineSnapshot.layout
  refine (Decodes.readExact hmagic "magic").bind ?_
  simp only [ne_eq, not_true_eq_false, if_false]
  refine (Decodes.readLe (v := specSnapshotVersion) (by decide) _).bind ?_
  simp only [not_true_eq_false, if_false]
  refine (decodes_readSnapshot (by omega) htarget _).bind ?_
  refine (decodes_readSnapshot (by omega) hdraft _).bind ?_
  refine (Decodes.readLe hs.numSpeculative_lt _).bind ?_
  refine (decodes_readSeed hs.specSeed_lt).bind ?_
  refine (decodes_readAcceptedTokens hs.acceptedTokens_lt (by omega)).bind ?_
  exact (Decodes.readLe hs.rngState_lt _).bind_last (Decodes.pure _)

theorem length_seedBytes (specSeed : Option ℕ) :
    (seedBytes specSeed).length = if specSeed.isSome then 9 else 1 := by
  cases specSeed with
  | none => rfl
  | some seed => rw [seedBytes, List.length_cons, length_toLe]; rfl

/-- The capacity is what the encoder writes. -/
theorem length_layout (s : SpeculativeEngineSnapshot Snap) (target draft : List UInt8) :
    (s.layout target draft).length = s.capacity target.length draft.length := by
  have hmagic : specSnapshotMagic.length = 8 := rfl
  have htokens : (s.acceptedTokens.flatMap (toLe 4)).length = s.acceptedTokens.length * 4 := by
    simp [List.length_flatMap]
  simp only [SpeculativeEngineSnapshot.layout, List.length_append, length_toLe, length_seedBytes,
    hmagic, htokens, SpeculativeEngineSnapshot.capacity]
  omega

/-- **Decoding undoes encoding.**  Where the codec of the engine snapshots round-trips, every
snapshot is encoded unless no buffer can hold it; decoding the buffer returns the snapshot, and
decoding a strict prefix of it returns an error. -/
theorem decode_encode (hcodec : RoundTrips serialize deserialize)
    {s : SpeculativeEngineSnapshot Snap} (hs : s.Valid) :
    (∃ target draft, serialize s.targetSnapshot = .ok target ∧
      serialize s.draftSnapshot = .ok draft ∧ 2 ^ 63 ≤ s.capacity target.length draft.length ∧
        s.encode serialize = .error .panic) ∨
    ∃ bytes, s.encode serialize = .ok bytes ∧ (run deserialize bytes).1 = .ok s ∧
      ∀ cut, cut <+: bytes → cut ≠ bytes → ∃ e, (run deserialize cut).1 = .error (.error e) := by
  obtain ⟨target, htarget, htarget'⟩ := hcodec s.targetSnapshot
  obtain ⟨draft, hdraft, hdraft'⟩ := hcodec s.draftSnapshot
  by_cases hroom : s.capacity target.length draft.length < 2 ^ 63
  · have hencode := encode_eq htarget hdraft
    rw [if_pos hroom] at hencode
    have hdecodes := decodes_decode hs htarget' hdraft' hroom
    rw [← length_layout] at hroom
    refine .inr ⟨_, hencode, ?_, fun cut hcut hne => ?_⟩
    · obtain ⟨s', hrun, -⟩ := (hdecodes _ ⟨0, []⟩ (Nat.zero_le _)
        (by rwa [Nat.zero_add])).1 List.prefix_rfl
      exact congrArg Prod.fst hrun
    · have hshort : cut.length < (s.layout target draft).length :=
        lt_of_le_of_ne hcut.length_le fun h => hne (hcut.eq_of_length h)
      obtain ⟨e, s', hrun⟩ := (hdecodes cut ⟨0, []⟩ (Nat.zero_le _)
        (by rwa [Nat.zero_add])).2 hcut (by rwa [Nat.zero_add])
      exact ⟨e, congrArg Prod.fst hrun⟩
  · have hencode := encode_eq htarget hdraft
    rw [if_neg hroom] at hencode
    exact .inl ⟨target, draft, htarget, hdraft, not_lt.mp hroom, hencode⟩

end RoundTrip

/-- A session with a seed and two accepted tokens; its engines are given by their bytes. -/
def session : SpeculativeEngineSnapshot (List UInt8) :=
  { targetSnapshot := [0x4F, 0x58], draftSnapshot := [], numSpeculative := 4, specSeed := some 42,
    acceptedTokens := [7, 65536], rngState := 42 }

theorem decode_encode_session :
    ∃ bytes, session.encode .ok = .ok bytes ∧ (run .ok bytes).1 = .ok session ∧
      ∀ cut, cut <+: bytes → cut ≠ bytes → ∃ e, (run .ok cut).1 = .error (.error e) := by
  have hcodec : @RoundTrips (List UInt8) .ok .ok := fun raw => ⟨raw, rfl, rfl⟩
  have hvalid : session.Valid := ⟨by decide, by decide, by decide, by decide⟩
  rcases decode_encode hcodec hvalid with ⟨target, draft, htarget, hdraft, hlarge, -⟩ | h
  · obtain rfl := Except.ok.inj htarget
    obtain rfl := Except.ok.inj hdraft
    exact absurd hlarge (by decide)
  · exact h

end Snapshot

end Speculative

end Oxillama
