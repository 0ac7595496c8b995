/-
Stop sequences that straddle token boundaries
(`oxillama-runtime/src/stream_decode.rs`, `StopSequenceBuffer`).

A push that completes a stop sequence reports it, emits what stands before it and
drops the rest; any other push emits all but the longest suffix that may still
grow into one.  A call answers `none` where it panics on a slice.

* `push_spec` — what one push does, in terms of everything fed since the last match;
* `stop_buffer` — what a whole stream emits, reports and withholds.
-/
import Oxillama.Lib.Run
import Oxillama.Lib.StopWords
import Oxillama.Lib.Str

namespace Oxillama

namespace Stream

/-- `StopFeed`. -/
structure StopFeed where
  emit : Text
  matched : Option Text
  deriving DecidableEq

/-- `StopSequenceBuffer`. -/
structure StopSequenceBuffer where
  stops : List Text
  held : Text
  maxStopLen : ℕ
  deriving DecidableEq

namespace StopSequenceBuffer

/-- `StopSequenceBuffer::new`. -/
def new (stops : List Text) : StopSequenceBuffer :=
  let stops := stops.filter (· ≠ [])
  { stops := stops, held := [], maxStopLen := (stops.map Text.len).foldr max 0 }

/-- One turn of the loop of `push` over the stop sequences. -/
def better (held : Text) (best : Option (ℕ × Text)) (stop : Text) : Option (ℕ × Text) :=
  match held.find stop with
  | none => best
  | some pos =>
    match best with
    | none => some (pos, stop)
    | some (bestPos, bestStop) =>
      if pos < bestPos ∨ (pos = bestPos ∧ bestStop.len < stop.len) then some (pos, stop) else best

/-- The loop of `partial_suffix_len`, from `len` bytes down. -/
def partialSuffixLoop (stops : List Text) (held : Text) : ℕ → ℕ
  | 0 => 0
  | len + 1 =>
    match held.splitAt (held.len - (len + 1)) with
    | none => partialSuffixLoop stops held len
    | some (_, suffix) =>
      if stops.any fun stop => suffix.len < stop.len && suffix.isPrefixOf stop then len + 1
      else partialSuffixLoop stops held len

/-- `StopSequenceBuffer::partial_suffix_len`. -/
def partialSuffixLen (b : StopSequenceBuffer) : ℕ :=
  partialSuffixLoop b.stops b.held (min b.maxStopLen b.held.len)

/-- `StopSequenceBuffer::push`. -/
def push (b : StopSequenceBuffer) (text : Text) : Option (StopSequenceBuffer × StopFeed) :=
  if b.stops.isEmpty then some (b, ⟨text, none⟩)
  else
    let b := { b with held := b.held ++ text }
    match b.stops.foldl (better b.held) none with
    | some (pos, stop) => do
      let (emit, _) ← b.held.splitAt pos
      some ({ b with held := [] }, ⟨emit, some stop⟩)
    | none => do
      let split := b.held.len - b.partialSuffixLen
      let (emit, held) ← b.held.splitAt split
      some ({ b with held := held }, ⟨emit, none⟩)

/-- `StopSequenceBuffer::flush`. -/
def flush (b : StopSequenceBuffer) : StopSequenceBuffer × Text := ({ b with held := [] }, b.held)

/-! ### The two loops -/

section Loops

variable {held : Text} {stops : List Text}

/-- The stop sequence found is the longest of those that stand first. -/
structure Best (held : Text) (stops : List Text) (p : ℕ) (stop : Text) : Prop where
  mem : stop ∈ stops
  le : p ≤ held.length
  here : stop <+: held.drop p
  first : ∀ s ∈ stops, ∀ q, s <+: held.drop q → p ≤ q
  longest : ∀ s ∈ stops, s <+: held.drop p → Text.len s ≤ Text.len stop

/-- What the loop over the stop sequences knows after some of them. -/
def BestOf (held : Text) (stops : List Text) : Option (ℕ × Text) → Prop
  | none => ∀ s ∈ stops, ∀ q, ¬ s <+: held.drop q
  | some (pos, stop) => ∃ p, pos = Text.len (held.take p) ∧ Best held stops p stop

private theorem bestOf_better {best : Option (ℕ × Text)} (h : BestOf held stops best)
    (stop : Text) : BestOf held (stops ++ [stop]) (better held best stop) := by
  rw [better]
  cases hfind : held.find stop with
  | none =>
    have hnone := Text.find_eq_none hfind
    cases best with
    | none =>
      intro s hs q
      rcases List.mem_append.mp hs with hs | hs
      · exact h s hs q
      · rw [List.mem_singleton.mp hs]
        exact hnone q
    | some found =>
      obtain ⟨pos, old⟩ := found
      obtain ⟨p, rfl, hbest⟩ := h
      refine ⟨p, rfl, List.mem_append_left _ hbest.mem, hbest.le, hbest.here, fun s hs q hq => ?_,
        fun s hs hp => ?_⟩
      · rcases List.mem_append.mp hs with hs | hs
        · exact hbest.first s hs q hq
        · exact absurd (List.mem_singleton.mp hs ▸ hq) (hnone q)
      · rcases List.mem_append.mp hs with hs | hs
        · exact hbest.longest s hs hp
        · exact absurd (List.mem_singleton.mp hs ▸ hp) (hnone p)
  | some pos =>
    obtain ⟨p, hp, rfl, hhere, hfirst⟩ := Text.find_spec hfind
    have hnew : stop ∈ stops ++ [stop] := List.mem_append_right _ (List.mem_singleton_self stop)
    cases best with
    | none =>
      refine ⟨p, rfl, hnew, hp, hhere, fun s hs q hq => ?_, fun s hs hs' => ?_⟩
      · rcases List.mem_append.mp hs with hs | hs
        · exact absurd hq (h s hs q)
        · exact hfirst q (List.mem_singleton.mp hs ▸ hq)
      · rcases List.mem_append.mp hs with hs | hs
        · exact absurd hs' (h s hs p)
        · rw [List.mem_singleton.mp hs]
    | some found =>
      obtain ⟨pos, old⟩ := found
      obtain ⟨p', rfl, hbest⟩ := h
      -- positions compare as the numbers of characters before them
      have hiff : ∀ {a b : ℕ}, a ≤ held.length → b ≤ held.length →
          (Text.len (held.take a) < Text.len (held.take b) ↔ a < b) := by
        intro a b ha hb
        refine ⟨fun hlt => ?_, fun hlt => Text.len_take_lt hlt hb⟩
        by_contra hle
        exact absurd (Text.len_take_le (not_lt.mp hle)) (not_le.mpr hlt)
      dsimp only
      split
      · rename_i hbetter
        refine ⟨p, rfl, hnew, hp, hhere, fun s hs q hq => ?_, fun s hs hs' => ?_⟩ <;>
          rcases List.mem_append.mp hs with hs | hs
        · have hle := hbest.first s hs q hq
          rcases hbetter with hlt | ⟨heq, -⟩
          · exact (Nat.le_of_lt ((hiff hp hbest.le).mp hlt)).trans hle
          · have hpp : p = p' := by
              rcases Nat.lt_trichotomy p p' with hlt | heq' | hlt
              · exact absurd heq (Text.len_take_lt hlt hbest.le).ne
              · exact heq'
              · exact absurd heq (Text.len_take_lt hlt hp).ne'
            exact hpp ▸ hle
        · exact hfirst q (List.mem_singleton.mp hs ▸ hq)
        · rcases hbetter with hlt | ⟨heq, hlen⟩
          · have hle := hbest.first s hs p hs'
            exact absurd ((hiff hp hbest.le).mp hlt) (not_lt.mpr hle)
          · have hle := hbest.first s hs p hs'
            have hpp : p' = p := by
              refine le_antisymm hle (not_lt.mp fun hlt => ?_)
              exact absurd heq (Text.len_take_lt hlt hp).ne'
            exact (hbest.longest s hs (hpp ▸ hs')).trans (Nat.le_of_lt hlen)
        · rw [List.mem_singleton.mp hs]
      · rename_i hworse
        rw [not_or, not_and, not_lt, not_lt] at hworse
        obtain ⟨hle, hlen⟩ := hworse
        have hpp : p' ≤ p := by
          by_contra hlt
          exact absurd (Text.len_take_lt (not_le.mp hlt) hbest.le) (not_lt.mpr hle)
        refine ⟨p', rfl, List.mem_append_left _ hbest.mem, hbest.le, hbest.here,
          fun s hs q hq => ?_, fun s hs hs' => ?_⟩ <;>
          rcases List.mem_append.mp hs with hs | hs
        · exact hbest.first s hs q hq
        · exact hpp.trans (hfirst q (List.mem_singleton.mp hs ▸ hq))
        · exact hbest.longest s hs hs'
        · obtain rfl := List.mem_singleton.mp hs
          have hpp' : p = p' := le_antisymm (hfirst p' hs') hpp
          exact hlen (congrArg (fun q => Text.len (held.take q)) hpp')

/-- **The loop over the stop sequences** finds the longest of the first ones. -/
theorem bestOf_foldl (held : Text) (stops : List Text) :
    BestOf held stops (stops.foldl (better held) none) := by
  induction stops using List.reverseRecOn with
  | nil => exact fun s hs => absurd hs List.not_mem_nil
  | append_singleton stops stop ih =>
    rw [List.foldl_append]
    exact bestOf_better ih stop

/-- The check of `partial_suffix_len`. -/
private theorem any_starts_iff (suffix : Text) :
    (stops.any fun stop => suffix.len < stop.len && suffix.isPrefixOf stop) = true ↔
      Starts stops suffix := by
  rw [List.any_eq_true]
  constructor
  · rintro ⟨stop, hmem, hcheck⟩
    rw [Bool.and_eq_true, decide_eq_true_iff, List.isPrefixOf_iff_prefix] at hcheck
    exact ⟨stop, hmem, hcheck.2, Text.ne_of_len_lt hcheck.1⟩
  · rintro ⟨stop, hmem, hpre, hne⟩
    refine ⟨stop, hmem, ?_⟩
    rw [Bool.and_eq_true, decide_eq_true_iff, List.isPrefixOf_iff_prefix]
    exact ⟨Text.len_lt_of_prefix hpre hne, hpre⟩

/-- **The loop of `partial_suffix_len`** finds the longest suffix of at most `len`
bytes that properly starts a stop sequence. -/
theorem partialSuffixLoop_spec (stops : List Text) (held : Text) {len : ℕ} (h : len ≤ held.len) :
    ∃ emit kept, held = emit ++ kept ∧ partialSuffixLoop stops held len = Text.len kept ∧
      (kept ≠ [] → Starts stops kept) ∧
      ∀ s, s <:+ held → Text.len s ≤ len → Starts stops s → Text.len s ≤ Text.len kept := by
  induction len with
  | zero =>
    refine ⟨held, [], (List.append_nil held).symm, rfl, fun hne => absurd rfl hne, ?_⟩
    exact fun s _ hs _ => hs
  | succ len ih =>
    obtain ⟨emit, kept, hheld, hloop, hstarts, hlongest⟩ := ih (Nat.le_of_succ_le h)
    -- a suffix of `len + 1` bytes is what is left after the remaining ones
    have hsuffix : ∀ s, s <:+ held → Text.len s = len + 1 →
        ∃ u, held.splitAt (held.len - (len + 1)) = some (u, s) := by
      rintro s ⟨u, rfl⟩ hs
      refine ⟨u, ?_⟩
      rw [Text.len_append, hs, Nat.add_sub_cancel]
      exact Text.splitAt_append u s
    rw [partialSuffixLoop]
    cases hsplit : held.splitAt (held.len - (len + 1)) with
    | none =>
      refine ⟨emit, kept, hheld, hloop, hstarts, fun s hs hle hs' => ?_⟩
      rcases Nat.lt_succ_iff_lt_or_eq.mp (Nat.lt_succ_of_le hle) with hlt | heq
      · exact hlongest s hs (Nat.le_of_lt_succ hlt) hs'
      · obtain ⟨u, hu⟩ := hsuffix s hs heq
        rw [hsplit] at hu
        cases hu
    | some parts =>
      obtain ⟨u, suffix⟩ := parts
      obtain ⟨hparts, hlen⟩ := Text.eq_append_of_splitAt hsplit
      have hsuffixLen : Text.len suffix = len + 1 := by
        have htotal := congrArg Text.len hparts
        rw [Text.len_append] at htotal
        omega
      dsimp only
      split
      · rename_i hany
        refine ⟨u, suffix, hparts, hsuffixLen.symm, fun _ => (any_starts_iff suffix).mp hany, ?_⟩
        exact fun s _ hle _ => hsuffixLen ▸ hle
      · rename_i hany
        refine ⟨emit, kept, hheld, hloop, hstarts, fun s hs hle hs' => ?_⟩
        rcases Nat.lt_succ_iff_lt_or_eq.mp (Nat.lt_succ_of_le hle) with hlt | heq
        · exact hlongest s hs (Nat.le_of_lt_succ hlt) hs'
        · obtain ⟨u', hu'⟩ := hsuffix s hs heq
          obtain ⟨-, rfl⟩ := Prod.mk.inj (Option.some.inj (hsplit.symm.trans hu'))
          exact absurd ((any_starts_iff suffix).mpr hs') hany

end Loops

/-! ### One push -/

section Push

variable {stops : List Text} {since emitted chunk : Text} {b : StopSequenceBuffer}

/-- Empty stop sequences never occur. -/
theorem occursAt_filter {text : Text} {p : ℕ} :
    (∃ stop ∈ stops.filter (· ≠ []), stop <+: text.drop p) ↔ OccursAt stops text p := by
  constructor
  · rintro ⟨stop, hmem, hpre⟩
    obtain ⟨hmem, hne⟩ := List.mem_filter.mp hmem
    exact ⟨stop, hmem, of_decide_eq_true hne, hpre⟩
  · rintro ⟨stop, hmem, hne, hpre⟩
    exact ⟨stop, List.mem_filter.mpr ⟨hmem, decide_eq_true hne⟩, hpre⟩

/-- Empty stop sequences have no proper prefix. -/
theorem starts_filter {s : Text} : Starts (stops.filter (· ≠ [])) s ↔ Starts stops s := by
  constructor
  · rintro ⟨stop, hmem, hpre, hne⟩
    exact ⟨stop, (List.mem_filter.mp hmem).1, hpre, hne⟩
  · rintro ⟨stop, hmem, hpre, hne⟩
    refine ⟨stop, List.mem_filter.mpr ⟨hmem, decide_eq_true ?_⟩, hpre, hne⟩
    rintro rfl
    exact hne (List.prefix_nil.mp hpre)

/-- The buffer between pushes: no stop sequence occurs in the text fed since the
last match, and its longest suffix that may grow into one is withheld. -/
structure Buffered (stops : List Text) (since : Text) (b : StopSequenceBuffer) : Prop where
  stops_eq : b.stops = stops.filter (· ≠ [])
  len_le : ∀ stop ∈ b.stops, Text.len stop ≤ b.maxStopLen
  withheld : Withheld stops since b.held
  none : ¬ Occurs stops since

private theorem le_foldr_max {n : ℕ} {lens : List ℕ} (h : n ∈ lens) : n ≤ lens.foldr max 0 := by
  induction lens with
  | nil => cases h
  | cons m lens ih =>
    rcases List.mem_cons.mp h with rfl | h
    · exact Nat.le_max_left _ _
    · exact (ih h).trans (Nat.le_max_right _ _)

theorem buffered_new (stops : List Text) : Buffered stops [] (new stops) where
  stops_eq := rfl
  len_le _ hmem := le_foldr_max (List.mem_map_of_mem hmem)
  withheld := withheld_nil stops
  none := not_occurs_nil stops

/-- What is withheld of a text without stop sequences. -/
private theorem withheld_partialSuffix (hstops : b.stops = stops.filter (· ≠ []))
    (hlen : ∀ stop ∈ b.stops, Text.len stop ≤ b.maxStopLen) :
    ∃ emit kept, b.held.splitAt (b.held.len - b.partialSuffixLen) = some (emit, kept) ∧
      b.held = emit ++ kept ∧ Withheld stops b.held kept := by
  obtain ⟨emit, kept, hheld, hloop, hstarts, hlongest⟩ :=
    partialSuffixLoop_spec b.stops b.held (Nat.min_le_right b.maxStopLen b.held.len)
  have hsplit : b.held.len - b.partialSuffixLen = Text.len emit := by
    have htotal := congrArg Text.len hheld
    rw [Text.len_append] at htotal
    rw [partialSuffixLen, hloop]
    omega
  rw [hstops] at hstarts
  refine ⟨emit, kept, ?_, hheld, ⟨emit, hheld.symm⟩, fun hne => starts_filter.mp (hstarts hne), ?_⟩
  · rw [hsplit, hheld]
    exact Text.splitAt_append emit kept
  · intro s hs hs'
    have hstarts' : Starts b.stops s := hstops ▸ starts_filter.mpr hs'
    have hle : Text.len s ≤ min b.maxStopLen b.held.len := by
      obtain ⟨stop, hmem, hpre, -⟩ := hstarts'
      obtain ⟨u, hu⟩ := hs
      have htotal := congrArg Text.len hu
      rw [Text.len_append] at htotal
      exact Nat.le_min.mpr ⟨(Text.len_le_of_prefix hpre).trans (hlen stop hmem), by omega⟩
    have hbytes := hlongest s hs hle hstarts'
    -- of two suffixes the one with fewer bytes is a suffix of the other
    by_contra hlt
    have hkept : kept <:+ b.held := ⟨emit, hheld.symm⟩
    obtain ⟨v, rfl⟩ := List.suffix_of_suffix_length_le hkept hs (Nat.le_of_lt (not_le.mp hlt))
    rw [Text.len_append] at hbytes
    have hv : v = [] := Text.len_eq_zero (by omega)
    rw [hv] at hlt
    exact hlt le_rfl

/-- **What a push does.**  It matches nothing and withholds what may still grow into
a stop sequence, or it reports the longest stop sequence that stands first in the
text since the last match, having emitted all before it. -/
theorem push_spec (h : Buffered stops since b) (hsince : since = emitted ++ b.held)
    (chunk : Text) : ∃ b' feed, b.push chunk = some (b', feed) ∧
      ((feed.matched = none ∧ Buffered stops (since ++ chunk) b' ∧
        since ++ chunk = emitted ++ feed.emit ++ b'.held) ∨
      (Buffered stops [] b' ∧ b'.held = [] ∧ ∃ stop p, feed.matched = some stop ∧
        IsLeast {p | OccursAt stops (since ++ chunk) p} p ∧
        emitted ++ feed.emit = (since ++ chunk).take p ∧ stop ∈ stops ∧
        stop <+: (since ++ chunk).drop p ∧
        ∀ s ∈ stops, s <+: (since ++ chunk).drop p → Text.len s ≤ Text.len stop)) := by
  have hocc : ∀ p, OccursAt stops (since ++ chunk) p ↔
      ∃ q, p = emitted.length + q ∧ OccursAt stops (b.held ++ chunk) q := by
    subst hsince
    exact fun p => occursAt_append_iff h.withheld h.none
  have hdrop : ∀ q, (since ++ chunk).drop (emitted.length + q) = (b.held ++ chunk).drop q := by
    intro q
    rw [hsince, List.append_assoc, List.drop_length_add_append]
  rw [push]
  split
  · -- nothing is watched for, and nothing was ever withheld
    rename_i hempty
    have hnone : stops.filter (· ≠ []) = [] := h.stops_eq ▸ List.isEmpty_iff.mp hempty
    have hnever : ∀ text : Text, ¬ Occurs stops text := by
      rintro text ⟨p, hp⟩
      obtain ⟨stop, hmem, -⟩ := occursAt_filter.mpr hp
      rw [hnone] at hmem
      cases hmem
    have hstarts : ∀ s : Text, ¬ Starts stops s := by
      intro s hs
      obtain ⟨stop, hmem, -⟩ := starts_filter.mpr hs
      rw [hnone] at hmem
      cases hmem
    have hheld : b.held = [] := by
      by_contra hne
      exact hstarts _ (h.withheld.starts hne)
    refine ⟨b, ⟨chunk, none⟩, rfl, .inl ⟨rfl, ⟨h.stops_eq, h.len_le, ?_, hnever _⟩, ?_⟩⟩
    · rw [hheld]
      exact ⟨List.nil_suffix, fun hne => absurd rfl hne, fun s _ hs => absurd hs (hstarts s)⟩
    · rw [hsince, hheld, List.append_nil, List.append_nil]
  · have hbest := bestOf_foldl (b.held ++ chunk) b.stops
    dsimp only
    cases hfold : b.stops.foldl (better (b.held ++ chunk)) none with
    | none =>
      rw [hfold] at hbest
      have hno : ¬ Occurs stops (since ++ chunk) := by
        rintro ⟨p, hp⟩
        obtain ⟨q, -, hq⟩ := (hocc p).mp hp
        obtain ⟨stop, hmem, hpre⟩ := occursAt_filter.mpr hq
        exact hbest stop (h.stops_eq ▸ hmem) q hpre
      obtain ⟨emit, kept, hsplit, hheld, hwithheld⟩ := withheld_partialSuffix
        (b := { b with held := b.held ++ chunk }) h.stops_eq h.len_le
      dsimp only at hsplit hheld hwithheld ⊢
      rw [hsplit]
      refine ⟨{ b with held := kept }, ⟨emit, none⟩, rfl,
        .inl ⟨rfl, ⟨h.stops_eq, h.len_le, withheld_append h.withheld hwithheld, hno⟩, ?_⟩⟩
      rw [hsince, List.append_assoc, hheld, List.append_assoc]
    | some found =>
      obtain ⟨pos, stop⟩ := found
      rw [hfold] at hbest
      obtain ⟨q, rfl, hbest⟩ := hbest
      have hmem : stop ∈ stops := (List.mem_filter.mp (h.stops_eq ▸ hbest.mem)).1
      have hsplit : Text.splitAt (Text.len ((b.held ++ chunk).take q)) (b.held ++ chunk) =
          some ((b.held ++ chunk).take q, (b.held ++ chunk).drop q) := by
        have := Text.splitAt_append ((b.held ++ chunk).take q) ((b.held ++ chunk).drop q)
        rwa [List.take_append_drop] at this
      dsimp only
      rw [hsplit]
      refine ⟨{ b with held := [] }, ⟨(b.held ++ chunk).take q, some stop⟩, rfl,
        .inr ⟨⟨h.stops_eq, h.len_le, withheld_nil stops, not_occurs_nil stops⟩, rfl, stop,
          emitted.length + q, rfl, ⟨?_, ?_⟩, ?_, hmem, ?_, ?_⟩⟩
      · exact (hocc _).mpr ⟨q, rfl, occursAt_filter.mp ⟨stop, h.stops_eq ▸ hbest.mem, hbest.here⟩⟩
      · intro p hp
        obtain ⟨q', rfl, hq'⟩ := (hocc p).mp hp
        obtain ⟨s, hs, hpre⟩ := occursAt_filter.mpr hq'
        exact Nat.add_le_add_left (hbest.first s (h.stops_eq ▸ hs) q' hpre) _
      · rw [hsince, List.append_assoc, List.take_length_add_append]
      · rw [hdrop]
        exact hbest.here
      · intro s hs hpre
        rw [hdrop] at hpre
        by_cases hne : s = []
        · rw [hne]
          exact Nat.zero_le _
        · exact hbest.longest s
            (h.stops_eq ▸ List.mem_filter.mpr ⟨hs, decide_eq_true hne⟩) hpre

end Push

/-! ### A whole stream -/

section Runs

variable {stops : List Text} {b b' : StopSequenceBuffer} {tr : List (Text × StopFeed)}

/-- The text fed so far. -/
def fed (tr : List (Text × StopFeed)) : Text := (tr.map Prod.fst).flatten

/-- The text emitted so far. -/
def emitted (tr : List (Text × StopFeed)) : Text := (tr.map fun e => e.2.emit).flatten

/-- The text fed since the last match. -/
def sinceMatch (tr : List (Text × StopFeed)) : Text :=
  tr.foldl (fun text e => if e.2.matched.isSome then [] else text ++ e.1) []

@[simp] theorem fed_snoc (tr : List (Text × StopFeed)) (e : Text × StopFeed) :
    fed (tr ++ [e]) = fed tr ++ e.1 := by
  simp [fed]

@[simp] theorem emitted_snoc (tr : List (Text × StopFeed)) (e : Text × StopFeed) :
    emitted (tr ++ [e]) = emitted tr ++ e.2.emit := by
  simp [emitted]

@[simp] theorem sinceMatch_snoc (tr : List (Text × StopFeed)) (e : Text × StopFeed) :
    sinceMatch (tr ++ [e]) = if e.2.matched.isSome then [] else sinceMatch tr ++ e.1 := by
  simp [sinceMatch]

/-- What holds after the pushes of `tr`: the buffer follows the text since the last
match; and as long as no stop sequence was fed, that is all the text, none was
reported, and it was emitted but for what is withheld. -/
structure Streamed (stops : List Text) (tr : List (Text × StopFeed)) (b : StopSequenceBuffer) :
    Prop where
  buffered : Buffered stops (sinceMatch tr) b
  unmatched : ¬ Occurs stops (fed tr) → (∀ e ∈ tr, e.2.matched = none) ∧
    sinceMatch tr = fed tr ∧ fed tr = emitted tr ++ b.held

theorem streamed_new (stops : List Text) : Streamed stops [] (new stops) where
  buffered := buffered_new stops
  unmatched _ := ⟨fun _ h => absurd h List.not_mem_nil, rfl, rfl⟩

theorem Streamed.push (h : Streamed stops tr b) {chunk : Text} {feed : StopFeed}
    (hpush : b.push chunk = some (b', feed)) : Streamed stops (tr ++ [(chunk, feed)]) b' := by
  constructor
  · obtain ⟨emitted, hsince⟩ := h.buffered.withheld.suffix
    obtain ⟨b₁, feed₁, hpush₁, hcases⟩ := push_spec h.buffered hsince.symm chunk
    obtain ⟨rfl, rfl⟩ := Prod.mk.inj (Option.some.inj (hpush₁.symm.trans hpush))
    rw [sinceMatch_snoc]
    rcases hcases with ⟨hnone, hbuffered, -⟩ | ⟨hbuffered, -, stop, p, hsome, -⟩
    · rw [hnone]
      exact hbuffered
    · rw [hsome]
      exact hbuffered
  · intro hno
    rw [fed_snoc] at hno
    obtain ⟨hunmatched, hsince, hfed⟩ := h.unmatched fun hocc => hno (hocc.append chunk)
    obtain ⟨b₁, feed₁, hpush₁, hcases⟩ := push_spec h.buffered (hsince.trans hfed) chunk
    obtain ⟨rfl, rfl⟩ := Prod.mk.inj (Option.some.inj (hpush₁.symm.trans hpush))
    rcases hcases with ⟨hnone, -, htext⟩ | ⟨-, -, stop, p, -, hleast, -⟩
    · rw [hsince] at htext
      refine ⟨fun e he => ?_, ?_, ?_⟩
      · rcases List.mem_append.mp he with he | he
        · exact hunmatched e he
        · rw [List.mem_singleton.mp he]
          exact hnone
      · rw [sinceMatch_snoc, fed_snoc, hnone, hsince]
        rfl
      · rw [fed_snoc, emitted_snoc]
        exact htext
    · rw [hsince] at hleast
      exact absurd ⟨p, hleast.1⟩ hno

theorem streamed_run (hr : Run StopSequenceBuffer.push (new stops) tr b) : Streamed stops tr b :=
  hr.traceInvariant (P := Streamed stops) (fun h hpush => h.push hpush) (streamed_new stops)

/-- Every text can be fed, however it is cut. -/
theorem exists_run (stops chunks : List Text) :
    ∃ tr b, Run StopSequenceBuffer.push (new stops) tr b ∧ tr.map Prod.fst = chunks := by
  refine Run.total (P := fun b => ∃ since, Buffered stops since b) ?_ ?_ chunks
    ⟨[], buffered_new stops⟩
  · rintro b chunk b' feed ⟨since, h⟩ hpush
    obtain ⟨emitted, hsince⟩ := h.withheld.suffix
    obtain ⟨b₁, feed₁, hpush₁, hcases⟩ := push_spec h hsince.symm chunk
    obtain ⟨rfl, rfl⟩ := Prod.mk.inj (Option.some.inj (hpush₁.symm.trans hpush))
    rcases hcases with ⟨-, hbuffered, -⟩ | ⟨hbuffered, -⟩
    · exact ⟨_, hbuffered⟩
    · exact ⟨_, hbuffered⟩
  · rintro b chunk ⟨since, h⟩
    obtain ⟨emitted, hsince⟩ := h.withheld.suffix
    obtain ⟨b', feed, hpush, -⟩ := push_spec h hsince.symm chunk
    exact ⟨b', feed, hpush⟩

/-- **The first push after which a stop sequence occurs** reports the longest of those
that stand first, and all that was emitted is the text before it. -/
theorem first_match {before : List (Text × StopFeed)} {chunk : Text} {feed : StopFeed}
    (hr : Run StopSequenceBuffer.push (new stops) (before ++ [(chunk, feed)]) b)
    (hno : ¬ Occurs stops (fed before)) (hocc : Occurs stops (fed (before ++ [(chunk, feed)]))) :
    (∀ e ∈ before, e.2.matched = none) ∧
      ∃ stop p, feed.matched = some stop ∧
        IsLeast {p | OccursAt stops (fed (before ++ [(chunk, feed)])) p} p ∧
        emitted (before ++ [(chunk, feed)]) = (fed (before ++ [(chunk, feed)])).take p ∧
        stop ∈ stops ∧ stop <+: (fed (before ++ [(chunk, feed)])).drop p ∧
        ∀ s ∈ stops, s <+: (fed (before ++ [(chunk, feed)])).drop p →
          Text.len s ≤ Text.len stop := by
  obtain ⟨b₀, hr₀, hpush⟩ := hr.last
  have h := streamed_run hr₀
  obtain ⟨hunmatched, hsince, hfed⟩ := h.unmatched hno
  obtain ⟨b₁, feed₁, hpush₁, hcases⟩ := push_spec h.buffered (hsince.trans hfed) chunk
  obtain ⟨rfl, rfl⟩ := Prod.mk.inj (Option.some.inj (hpush₁.symm.trans hpush))
  rw [fed_snoc, emitted_snoc] at *
  rw [hsince] at hcases
  rcases hcases with ⟨-, hbuffered, -⟩ | ⟨-, -, stop, p, hmatched⟩
  · exact absurd hocc hbuffered.none
  · exact ⟨hunmatched, stop, p, hmatched⟩

/-- **Stop sequences lose and leak nothing.**  Every push goes through, and after any
pushes:

* while no stop sequence occurs in the text, none is reported and the emitted texts
  with `flush` are the text;
* the first push after which one occurs reports the longest of those that stand
  first, and all that was emitted is the text before it;
* what is withheld is the longest suffix of the text since the last match that
  properly starts a stop sequence. -/
theorem stop_buffer (stops : List Text) :
    (∀ chunks, ∃ tr b, Run StopSequenceBuffer.push (new stops) tr b ∧ tr.map Prod.fst = chunks) ∧
    ∀ tr b, Run StopSequenceBuffer.push (new stops) tr b →
      (¬ Occurs stops (fed tr) →
        (∀ e ∈ tr, e.2.matched = none) ∧ emitted tr ++ b.flush.2 = fed tr) ∧
      (∀ before chunk feed, tr = before ++ [(chunk, feed)] → ¬ Occurs stops (fed before) →
        Occurs stops (fed tr) → (∀ e ∈ before, e.2.matched = none) ∧
        ∃ stop p, feed.matched = some stop ∧ IsLeast {p | OccursAt stops (fed tr) p} p ∧
          emitted tr = (fed tr).take p ∧ stop ∈ stops ∧ stop <+: (fed tr).drop p ∧
          ∀ s ∈ stops, s <+: (fed tr).drop p → Text.len s ≤ Text.len stop) ∧
      Withheld stops (sinceMatch tr) b.held := by
  refine ⟨exists_run stops, fun tr b hr => ⟨fun hno => ?_, ?_, ?_⟩⟩
  · obtain ⟨hunmatched, -, hfed⟩ := (streamed_run hr).unmatched hno
    exact ⟨hunmatched, hfed.symm⟩
  · rintro before chunk feed rfl hno hocc
    exact first_match hr hno hocc
  · exact (streamed_run hr).buffered.withheld

/-- After a match nothing is withheld, even where the text ends in the start of a
stop sequence. -/
theorem not_withheld_after_match : ¬ ∀ (stops : List Text) (tr : List (Text × StopFeed))
    (b : StopSequenceBuffer), Run StopSequenceBuffer.push (new stops) tr b →
    Withheld stops (fed tr) b.held := by
  intro hall
  obtain ⟨b, hr, hheld⟩ : ∃ b, Run StopSequenceBuffer.push (new [['a', 'b']])
      [(['a', 'b', 'a'], ⟨[], some ['a', 'b']⟩)] b ∧ b.held = [] :=
    ⟨_, .cons rfl (.nil _), rfl⟩
  have hlongest := (hall _ _ b hr).longest ['a'] ⟨['a', 'b'], rfl⟩
    ⟨['a', 'b'], List.mem_singleton_self _, ⟨['b'], rfl⟩, by decide⟩
  rw [hheld] at hlongest
  exact absurd hlongest (by decide)

end Runs

end StopSequenceBuffer

end Stream

end Oxillama
