/-
What does not depend on how a text is cut into pushes, and what does.

A push looks for complete stop sequences only, so which of several overlapping
ones is reported depends on how much of the text it carries.  Of the pushes
through the first report (`untilMatch`):

* `reports_iff` — whether there is a report depends on the text alone;
* `emitted_untilMatch` — what they emit stands before the first stop sequence
  that is complete in the text fed by them;
* `chunking` — so two ways of cutting a text may differ, and for given stop
  sequences none do if and only if a stop sequence that stands inside an
  unfinished one is preceded by one that stands at its start.
-/
import Oxillama.Stream.StopBuffer

namespace Oxillama

namespace Stream

namespace StopSequenceBuffer

/-- Some push reported a stop sequence. -/
def Reports (tr : List (Text × StopFeed)) : Prop := ∃ e ∈ tr, e.2.matched ≠ none

/-- The pushes through the first that reports a stop sequence. -/
def untilMatch : List (Text × StopFeed) → List (Text × StopFeed)
  | [] => []
  | e :: tr => if e.2.matched.isSome then [e] else e :: untilMatch tr

section FirstReport

variable {stops : List Text} {b : StopSequenceBuffer} {tr : List (Text × StopFeed)}

theorem sinceMatch_eq_fed (h : ∀ e ∈ tr, e.2.matched = none) : sinceMatch tr = fed tr := by
  induction tr using List.reverseRecOn with
  | nil => rfl
  | append_singleton tr e ih =>
    rw [sinceMatch_snoc, fed_snoc, h e (List.mem_append_right _ (List.mem_singleton_self e)),
      ih fun e' he' => h e' (List.mem_append_left _ he')]
    rfl

/-- **A stop sequence is reported exactly if one was fed.** -/
theorem reports_iff (hr : Run StopSequenceBuffer.push (new stops) tr b) :
    Reports tr ↔ Occurs stops (fed tr) := by
  constructor
  · rintro ⟨e, he, hmatched⟩
    by_contra hno
    exact hmatched (((streamed_run hr).unmatched hno).1 e he)
  · intro hocc
    by_contra hno
    have hnone : ∀ e ∈ tr, e.2.matched = none := by
      intro e he
      by_contra hmatched
      exact hno ⟨e, he, hmatched⟩
    refine (streamed_run hr).buffered.none ?_
    rw [sinceMatch_eq_fed hnone]
    exact hocc

/-- The first report splits a trace. -/
theorem Reports.split (h : Reports tr) : ∃ before chunk feed after,
    tr = before ++ (chunk, feed) :: after ∧ untilMatch tr = before ++ [(chunk, feed)] ∧
      (∀ e ∈ before, e.2.matched = none) ∧ feed.matched ≠ none := by
  induction tr with
  | nil =>
    obtain ⟨e, he, -⟩ := h
    cases he
  | cons e tr ih =>
    rw [untilMatch]
    split
    · rename_i hsome
      exact ⟨[], e.1, e.2, tr, rfl, rfl, fun _ he => absurd he List.not_mem_nil,
        Option.isSome_iff_ne_none.mp hsome⟩
    · rename_i hnone
      have hnone : e.2.matched = none := Option.not_isSome_iff_eq_none.mp hnone
      have hrest : Reports tr := by
        obtain ⟨e', he', hmatched⟩ := h
        rcases List.mem_cons.mp he' with rfl | he'
        · exact absurd hnone hmatched
        · exact ⟨e', he', hmatched⟩
      obtain ⟨before, chunk, feed, after, rfl, huntil, hbefore, hmatched⟩ := ih hrest
      refine ⟨e :: before, chunk, feed, after, rfl, ?_, fun e' he' => ?_, hmatched⟩
      · rw [huntil]
        rfl
      · rcases List.mem_cons.mp he' with rfl | he'
        · exact hnone
        · exact hbefore e' he'

/-- **What is emitted through the first report** is the text before the first stop
sequence that is complete in what was fed by then. -/
theorem emitted_untilMatch (hr : Run StopSequenceBuffer.push (new stops) tr b)
    (h : Reports tr) : ∃ p, IsLeast {p | OccursAt stops (fed (untilMatch tr)) p} p ∧
      fed (untilMatch tr) <+: fed tr ∧ emitted (untilMatch tr) = (fed tr).take p := by
  obtain ⟨before, chunk, feed, after, rfl, huntil, hbefore, hmatched⟩ := h.split
  have hpre : fed (before ++ [(chunk, feed)]) <+: fed (before ++ (chunk, feed) :: after) := by
    refine ⟨fed after, ?_⟩
    simp [fed]
  rw [List.append_cons] at hr
  obtain ⟨b₁, hr₁, -⟩ := hr.of_append
  obtain ⟨b₀, hr₀, -⟩ := hr₁.last
  have hreports : Reports (before ++ [(chunk, feed)]) :=
    ⟨_, List.mem_append_right _ (List.mem_singleton_self _), hmatched⟩
  have hno : ¬ Occurs stops (fed before) := by
    rw [← reports_iff hr₀]
    rintro ⟨e, he, hsome⟩
    exact hsome (hbefore e he)
  obtain ⟨-, stop, p, -, hleast, hemitted, -⟩ :=
    first_match hr₁ hno ((reports_iff hr₁).mp hreports)
  rw [huntil]
  refine ⟨p, hleast, hpre, ?_⟩
  rw [hemitted]
  obtain ⟨more, hmore⟩ := hpre
  rw [← hmore, List.take_append_of_le_length (Nat.le_of_lt hleast.1.lt_length)]

end FirstReport

/-! ### Two ways of cutting a text -/

section TwoWays

variable {stops : List Text}

/-- However a text is cut, the same is emitted up to and including the report. -/
def ChunkingFree (stops : List Text) : Prop :=
  ∀ tr tr' b b', Run StopSequenceBuffer.push (new stops) tr b →
    Run StopSequenceBuffer.push (new stops) tr' b' → fed tr = fed tr' → Reports tr →
    Reports tr' → emitted (untilMatch tr) = emitted (untilMatch tr')

/-- A stop sequence that stands in an unfinished one comes with one at its start. -/
def StartsFirst (stops : List Text) : Prop :=
  ∀ stop ∈ stops, ∀ n < stop.length,
    Occurs stops (stop.take n) → OccursAt stops (stop.take n) 0

/-- Then the first stop sequence that is complete in a part of the text is the first. -/
theorem StartsFirst.isLeast (h : StartsFirst stops) {part text : Text} {p : ℕ}
    (hpart : part <+: text) (hp : IsLeast {p | OccursAt stops part p} p) :
    IsLeast {p | OccursAt stops text p} p := by
  obtain ⟨more, rfl⟩ := hpart
  have hplen : p < part.length := OccursAt.lt_length hp.1
  refine ⟨OccursAt.append hp.1 more, fun q hq => ?_⟩
  by_contra hlt
  obtain ⟨stop, hmem, hne, hstop⟩ := hq
  rw [List.drop_append_of_le_length (by omega)] at hstop
  -- nothing stands at `q` in the part
  have hnot : ¬ OccursAt stops part q := fun hocc => hlt (hp.2 hocc)
  have hover : part.drop q <+: stop := by
    rcases List.prefix_or_prefix_of_prefix hstop (List.prefix_append _ _) with hin | hover
    · exact absurd ⟨stop, hmem, hne, hin⟩ hnot
    · exact hover
  -- so the part ends inside of `stop`
  have htake : stop.take (part.length - q) = part.drop q := by
    rw [List.prefix_iff_eq_take.mp hover, List.length_drop]
  have hlen : part.length - q < stop.length := by
    by_contra hle
    rw [List.take_of_length_le (not_lt.mp hle)] at htake
    exact hnot ⟨stop, hmem, hne, htake ▸ List.prefix_rfl⟩
  have hocc : OccursAt stops (part.drop q) (p - q) := by
    obtain ⟨word, hword, hwne, hpre⟩ := hp.1
    refine ⟨word, hword, hwne, ?_⟩
    rwa [List.drop_drop, Nat.add_sub_cancel' (Nat.le_of_lt (not_le.mp hlt))]
  obtain ⟨word, hword, hwne, hpre⟩ := h stop hmem _ hlen (htake ▸ ⟨p - q, hocc⟩)
  rw [htake, List.drop_zero] at hpre
  exact hnot ⟨word, hword, hwne, hpre⟩

/-- What the first push emits if it completes a stop sequence. -/
theorem emitted_first {chunk : Text} {feed : StopFeed} {tr : List (Text × StopFeed)}
    {b : StopSequenceBuffer} (hocc : Occurs stops chunk)
    (hr : Run StopSequenceBuffer.push (new stops) ((chunk, feed) :: tr) b) :
    Reports ((chunk, feed) :: tr) ∧ ∃ p, IsLeast {p | OccursAt stops chunk p} p ∧
      emitted (untilMatch ((chunk, feed) :: tr)) = chunk.take p := by
  have hfed : fed [(chunk, feed)] = chunk := by simp [fed]
  rw [show (chunk, feed) :: tr = [] ++ [(chunk, feed)] ++ tr from rfl] at hr
  obtain ⟨b₁, hr₁, -⟩ := hr.of_append
  obtain ⟨-, stop, p, hmatched, hleast, hemitted, -⟩ :=
    first_match hr₁ (not_occurs_nil stops) (by rwa [List.nil_append, hfed])
  rw [List.nil_append, hfed] at hleast hemitted
  refine ⟨⟨_, List.mem_cons_self, fun hnone => ?_⟩, p, hleast, ?_⟩
  · rw [hmatched] at hnone
    cases hnone
  · rw [untilMatch, hmatched]
    exact hemitted

/-- A stop sequence fed whole, and cut after `n` characters. -/
theorem ChunkingFree.startsFirst (h : ChunkingFree stops) : StartsFirst stops := by
  intro stop hmem n hn hocc
  have hne : stop ≠ [] := List.ne_nil_of_length_pos (by omega)
  have hwhole : OccursAt stops stop 0 := ⟨stop, hmem, hne, List.prefix_rfl⟩
  obtain ⟨tr, b, hr, htr⟩ := exists_run stops [stop]
  obtain ⟨tr', b', hr', htr'⟩ := exists_run stops [stop.take n, stop.drop n]
  obtain ⟨⟨chunk, feed⟩, tr, rfl, hchunk, htr⟩ := List.map_eq_cons_iff.mp htr
  obtain ⟨⟨chunk', feed'⟩, tr', rfl, hchunk', htr'⟩ := List.map_eq_cons_iff.mp htr'
  dsimp only at hchunk hchunk'
  subst hchunk hchunk'
  have hfed : fed ((chunk, feed) :: tr) = fed ((chunk.take n, feed') :: tr') := by
    simp [fed, htr, htr']
  obtain ⟨hreports, p, hp, hemitted⟩ := emitted_first ⟨0, hwhole⟩ hr
  obtain ⟨hreports', p', hp', hemitted'⟩ := emitted_first hocc hr'
  have hsame := h _ _ _ _ hr hr' hfed hreports hreports'
  -- the whole stop sequence stands at its start, so nothing is emitted
  have hzero : p = 0 := Nat.le_zero.mp (hp.2 hwhole)
  rw [hemitted, hemitted', hzero, List.take_zero] at hsame
  have hlt : p' < (chunk.take n).length := OccursAt.lt_length hp'.1
  have hlen := congrArg List.length hsame
  rw [List.length_nil, List.length_take] at hlen
  have hzero' : p' = 0 := by omega
  exact hzero' ▸ hp'.1

/-- **What the chunking decides.**  Every text can be fed however it is cut, and

* two ways of cutting it both report a stop sequence or neither does;
* what is emitted through the reporting push is the text before the first stop
  sequence that is complete in what was fed by then;
* that is the same for all ways of cutting all texts if and only if a stop sequence
  that stands in an unfinished one comes with one at its start. -/
theorem chunking (stops : List Text) :
    (∀ chunks, ∃ tr b, Run StopSequenceBuffer.push (new stops) tr b ∧
      tr.map Prod.fst = chunks) ∧
    (∀ tr tr' b b', Run StopSequenceBuffer.push (new stops) tr b →
      Run StopSequenceBuffer.push (new stops) tr' b' → fed tr = fed tr' →
      (Reports tr ↔ Reports tr')) ∧
    (∀ tr b, Run StopSequenceBuffer.push (new stops) tr b → Reports tr →
      ∃ p, IsLeast {p | OccursAt stops (fed (untilMatch tr)) p} p ∧
        emitted (untilMatch tr) = (fed tr).take p) ∧
    (ChunkingFree stops ↔ StartsFirst stops) := by
  refine ⟨exists_run stops, fun tr tr' b b' hr hr' hfed => ?_, fun tr b hr hreports => ?_,
    fun h => h.startsFirst, fun h tr tr' b b' hr hr' hfed hreports hreports' => ?_⟩
  · rw [reports_iff hr, reports_iff hr', hfed]
  · obtain ⟨p, hleast, -, hemitted⟩ := emitted_untilMatch hr hreports
    exact ⟨p, hleast, hemitted⟩
  · obtain ⟨p, hleast, hpre, hemitted⟩ := emitted_untilMatch hr hreports
    obtain ⟨p', hleast', hpre', hemitted'⟩ := emitted_untilMatch hr' hreports'
    have hp := h.isLeast hpre hleast
    have hp' := h.isLeast hpre' hleast'
    rw [← hfed] at hp'
    rw [hemitted, hemitted', hfed, hp.unique hp']

/-- Fed whole, `abcd` is the stop sequence that stands first; cut in two, `b` is
complete before it. -/
theorem not_chunkingFree : ¬ ∀ (stops : List Text) (tr tr' : List (Text × StopFeed))
    (b b' : StopSequenceBuffer), Run StopSequenceBuffer.push (new stops) tr b →
    Run StopSequenceBuffer.push (new stops) tr' b' → fed tr = fed tr' →
    (Reports tr → Reports tr' → emitted (untilMatch tr) = emitted (untilMatch tr')) ∧
      (Reports tr ↔ Reports tr') := by
  intro hall
  let stops : List Text := [['a', 'b', 'c', 'd'], ['b']]
  let tr : List (Text × StopFeed) := [(['a', 'b', 'c', 'd'], ⟨[], some ['a', 'b', 'c', 'd']⟩)]
  let tr' : List (Text × StopFeed) :=
    [(['a', 'b'], ⟨['a'], some ['b']⟩), (['c', 'd'], ⟨['c', 'd'], none⟩)]
  have hr : ∃ b, Run StopSequenceBuffer.push (new stops) tr b := ⟨_, .cons rfl (.nil _)⟩
  have hr' : ∃ b, Run StopSequenceBuffer.push (new stops) tr' b :=
    ⟨_, .cons rfl (.cons rfl (.nil _))⟩
  obtain ⟨b, hr⟩ := hr
  obtain ⟨b', hr'⟩ := hr'
  have hsame := (hall stops tr tr' b b' hr hr' rfl).1
    ⟨_, List.mem_cons_self, by decide⟩ ⟨_, List.mem_cons_self, by decide⟩
  exact absurd hsame (by decide)

end TwoWays

end StopSequenceBuffer

end Stream

end Oxillama
