/-
Whether the detector of tool calls panics (`oxillama-runtime/src/tool_dispatch.rs`).

An idle detector keeps as much of the end of its buffer as may be the start of an opening marker.
Where it cuts is counted in bytes, and a cut within a character panics.

* `pass` — one iteration of the loop, each slice of which may panic;
* `panics_iff` — **when a chunk makes the detector panic**;
* `wholeParse` — the detector that never trims its buffer;
* `Kept` — what is left of that one's buffer: all of it, or an end that is long enough;
* `safe_iff` — **every run**: where no cut splits a character, nothing panics; and whatever
  is fed, trimming forgets no start of a marker and loses no call.
-/
import Oxillama.Runtime.ToolDetection

namespace Oxillama

namespace Runtime

namespace ToolCallDetector

/-! ### One iteration -/

/-- What an iteration of the loop comes to. -/
inductive Pass
  | panic
  | next (detector : ToolCallDetector)
  | done (detector : ToolCallDetector) (call : Option ToolCall)

/-- One iteration of the loop of `try_parse`. -/
def pass (fromStr : Text → Option Schema.Value) (detector : ToolCallDetector) : Pass :=
  let opening := detector.grammar.openDelimiter
  let close := detector.grammar.closeDelimiter
  match detector.state with
  | .idle =>
    match detector.buffer.find opening with
    | some start =>
      match detector.buffer.splitAt (start + opening.len) with
      | some (_, buffer) => .next { detector with buffer, state := .capturing }
      | none => .panic
    | none =>
      match trimIdleBuffer detector.buffer opening with
      | some buffer => .done { detector with buffer } none
      | none => .panic
  | .capturing =>
    match detector.buffer.find close with
    | some finish =>
      match detector.buffer.splitAt finish, detector.buffer.splitAt (finish + close.len) with
      | some (payload, _), some (_, remainder) =>
        let detector := { detector with buffer := remainder, state := .idle }
        match parseToolCallJson fromStr payload.trim with
        | some call => .done detector (some call)
        | none => .next detector
      | _, _ => .panic
    | none => .done detector none

variable {fromStr : Text → Option Schema.Value} {grammar : ToolCallGrammar} {fuel : ℕ}
  {buffer before rest piece : Text} {d d' : ToolCallDetector} {r : Option ToolCall}

/-- The loop makes iterations until one is the last. -/
theorem tryParse_succ (fuel : ℕ) (d : ToolCallDetector) :
    tryParse fromStr (fuel + 1) d =
      match pass fromStr d with
      | .panic => none
      | .next d' => tryParse fromStr fuel d'
      | .done d' r => some (d', r) := by
  obtain ⟨grammar, state, buffer⟩ := d
  rw [tryParse, pass]
  cases state with
  | idle =>
    dsimp only
    rcases hfind : buffer.find grammar.openDelimiter with - | start
    · dsimp only
      rcases trimIdleBuffer buffer grammar.openDelimiter with - | buffer'
      · rfl
      · rfl
    · dsimp only
      rcases buffer.splitAt (start + grammar.openDelimiter.len) with - | ⟨-, buffer'⟩
      · rfl
      · rfl
  | capturing =>
    dsimp only
    rcases hfind : buffer.find grammar.closeDelimiter with - | finish
    · rfl
    · dsimp only
      rcases buffer.splitAt finish with - | ⟨payload, -⟩
      · rfl
      · rcases buffer.splitAt (finish + grammar.closeDelimiter.len) with - | ⟨-, remainder⟩
        · rfl
        · simp only [Option.bind_eq_bind, Option.bind_some]
          rcases parseToolCallJson fromStr payload.trim with - | call
          · rfl
          · rfl

theorem pass_idle_none (h : ¬ grammar.openDelimiter <:+: buffer) :
    pass fromStr ⟨grammar, .idle, buffer⟩ =
      match trimIdleBuffer buffer grammar.openDelimiter with
      | some buffer' => .done ⟨grammar, .idle, buffer'⟩ none
      | none => .panic := by
  rw [pass]
  simp only [Text.find_eq_none_iff.2 h]

theorem pass_idle_some (hbuffer : buffer = before ++ grammar.openDelimiter ++ rest)
    (hfirst : Text.First grammar.openDelimiter before) :
    pass fromStr ⟨grammar, .idle, buffer⟩ = .next ⟨grammar, .capturing, rest⟩ := by
  rw [pass, hbuffer]
  simp only [Text.find_append_iff.2 hfirst]
  rw [← Text.len_append, Text.splitAt_append]

theorem pass_capturing_none (h : ¬ grammar.closeDelimiter <:+: buffer) :
    pass fromStr ⟨grammar, .capturing, buffer⟩ = .done ⟨grammar, .capturing, buffer⟩ none := by
  rw [pass]
  simp only [Text.find_eq_none_iff.2 h]

theorem pass_capturing_some {payload : Text}
    (hbuffer : buffer = payload ++ grammar.closeDelimiter ++ rest)
    (hfirst : Text.First grammar.closeDelimiter payload) :
    pass fromStr ⟨grammar, .capturing, buffer⟩ =
      match parseToolCallJson fromStr payload.trim with
      | some call => .done ⟨grammar, .idle, rest⟩ (some call)
      | none => .next ⟨grammar, .idle, rest⟩ := by
  rw [pass, hbuffer]
  simp only [Text.find_append_iff.2 hfirst]
  rw [← Text.len_append, Text.splitAt_append, List.append_assoc, Text.splitAt_append]

/-! ### Panics -/

/-- The detectors that the loop comes by. -/
inductive Scans (fromStr : Text → Option Schema.Value) :
    ToolCallDetector → ToolCallDetector → Prop
  | refl (d : ToolCallDetector) : Scans fromStr d d
  | next {d d' d'' : ToolCallDetector} : pass fromStr d = .next d' → Scans fromStr d' d'' →
      Scans fromStr d d''

/-- The loop panics in some iteration. -/
def Panics (fromStr : Text → Option Schema.Value) (d : ToolCallDetector) : Prop :=
  ∃ d', Scans fromStr d d' ∧ pass fromStr d' = .panic

/-- The detector with a chunk in its buffer. -/
def push (d : ToolCallDetector) (piece : Text) : ToolCallDetector :=
  { d with buffer := d.buffer ++ piece }

/-- A loop that panics returns nothing. -/
theorem tryParse_of_panics (hpanics : Panics fromStr d) (fuel : ℕ) :
    tryParse fromStr fuel d = none := by
  obtain ⟨d', hscans, hpanic⟩ := hpanics
  induction hscans generalizing fuel with
  | refl =>
    rcases fuel with - | fuel
    · rfl
    · rw [tryParse_succ, hpanic]
  | next hpass _ ih =>
    rcases fuel with - | fuel
    · rfl
    · rw [tryParse_succ, hpass]
      exact ih fuel hpanic

/-- An iteration takes the text up to a marker off the buffer. -/
theorem suffix_of_pass (hpass : pass fromStr d = .next d') :
    d'.grammar = d.grammar ∧ d'.buffer <:+ d.buffer := by
  obtain ⟨grammar, state, buffer⟩ := d
  cases state with
  | idle =>
    rcases hfind : buffer.find grammar.openDelimiter with - | start
    · rw [pass_idle_none (Text.find_eq_none_iff.1 hfind)] at hpass
      split at hpass
      · cases hpass
      · cases hpass
    · obtain ⟨before, rest, rfl, -, hfirst⟩ := Text.find_eq_some_iff.1 hfind
      rw [pass_idle_some rfl hfirst] at hpass
      cases hpass
      exact ⟨rfl, List.suffix_append _ _⟩
  | capturing =>
    rcases hfind : buffer.find grammar.closeDelimiter with - | finish
    · rw [pass_capturing_none (Text.find_eq_none_iff.1 hfind)] at hpass
      cases hpass
    · obtain ⟨payload, rest, rfl, -, hfirst⟩ := Text.find_eq_some_iff.1 hfind
      rw [pass_capturing_some rfl hfirst] at hpass
      split at hpass
      · cases hpass
      · cases hpass
        exact ⟨rfl, List.suffix_append _ _⟩

theorem Scans.suffix (hscans : Scans fromStr d d') :
    d'.grammar = d.grammar ∧ d'.buffer <:+ d.buffer := by
  induction hscans with
  | refl => exact ⟨rfl, List.suffix_rfl⟩
  | next hpass _ ih =>
    obtain ⟨hgrammar, hsuffix⟩ := suffix_of_pass hpass
    exact ⟨ih.1.trans hgrammar, ih.2.trans hsuffix⟩

/-- Trimming panics if there is something to cut off, and the cut splits a character. -/
theorem trimIdleBuffer_eq_none_iff {opening : Text} : trimIdleBuffer buffer opening = none ↔
    opening.len - 1 < buffer.len ∧ ¬ CleanTail (opening.len - 1) buffer := by
  rw [trimIdleBuffer, CleanTail, Bool.not_eq_true, Option.isSome_eq_false_iff,
    Option.isNone_iff_eq_none]
  dsimp only
  split
  next hlong => rw [Option.map_eq_none_iff, and_iff_right hlong]
  next hshort => exact ⟨(fun h => by cases h), fun h => absurd h.1 hshort⟩

/-- Only the cut of an idle buffer can panic. -/
theorem pass_eq_panic_iff : pass fromStr d = .panic ↔
    d.state = .idle ∧ ¬ d.grammar.openDelimiter <:+: d.buffer ∧
      d.grammar.openDelimiter.len - 1 < d.buffer.len ∧
      ¬ CleanTail (d.grammar.openDelimiter.len - 1) d.buffer := by
  obtain ⟨grammar, state, buffer⟩ := d
  cases state with
  | idle =>
    rcases hfind : buffer.find grammar.openDelimiter with - | start
    · have hnot := Text.find_eq_none_iff.1 hfind
      rw [pass_idle_none hnot]
      constructor
      · intro hpanic
        split at hpanic
        · cases hpanic
        next htrim => exact ⟨rfl, hnot, trimIdleBuffer_eq_none_iff.1 htrim⟩
      · rintro ⟨-, -, hcut⟩
        rw [trimIdleBuffer_eq_none_iff.2 hcut]
    · obtain ⟨before, rest, rfl, -, hfirst⟩ := Text.find_eq_some_iff.1 hfind
      rw [pass_idle_some rfl hfirst]
      constructor
      · nofun
      · rintro ⟨-, hnot, -⟩
        exact absurd ⟨before, rest, rfl⟩ hnot
  | capturing =>
    constructor
    · intro hpanic
      rcases hfind : buffer.find grammar.closeDelimiter with - | finish
      · rw [pass_capturing_none (Text.find_eq_none_iff.1 hfind)] at hpanic
        cases hpanic
      · obtain ⟨payload, rest, rfl, -, hfirst⟩ := Text.find_eq_some_iff.1 hfind
        rw [pass_capturing_some rfl hfirst] at hpanic
        split at hpanic
        · cases hpanic
        · cases hpanic
    · rintro ⟨hidle, -⟩
      cases hidle

/-- The end of a text is the end of what is left of it. -/
theorem cleanTail_iff_of_suffix {keep : ℕ} {t : Text} (hsuffix : buffer <:+ t)
    (hlong : keep < buffer.len) : CleanTail keep buffer ↔ CleanTail keep t := by
  obtain ⟨gone, rfl⟩ := hsuffix
  have hpos : Text.len (gone ++ buffer) - keep = Text.len gone + (buffer.len - keep) := by
    rw [Text.len_append]
    omega
  rw [CleanTail, CleanTail, hpos, Text.splitAt_add, Option.isSome_map]

/-- The detector, fed a chunk, has something to cut off: the scan ends idle, with more left than
may be the start of a marker. -/
def Cuts (fromStr : Text → Option Schema.Value) (d : ToolCallDetector) (piece : Text) : Prop :=
  ∃ d', Scans fromStr (d.push piece) d' ∧ d'.state = .idle ∧
    ¬ d.grammar.openDelimiter <:+: d'.buffer ∧ d.grammar.openDelimiter.len - 1 < d'.buffer.len

/-- **When a chunk makes the detector panic**: if it has something to cut off, and the cut splits
a character. -/
theorem panics_iff : Panics fromStr (d.push piece) ↔ Cuts fromStr d piece ∧
    ¬ CleanTail (d.grammar.openDelimiter.len - 1) (d.buffer ++ piece) := by
  constructor
  · rintro ⟨d', hscans, hpanic⟩
    obtain ⟨hgrammar, hsuffix⟩ := hscans.suffix
    have hgrammar : d'.grammar = d.grammar := hgrammar
    obtain ⟨hidle, hnot, hlong, hclean⟩ := pass_eq_panic_iff.1 hpanic
    rw [hgrammar] at hnot hlong hclean
    exact ⟨⟨d', hscans, hidle, hnot, hlong⟩,
      fun htext => hclean ((cleanTail_iff_of_suffix hsuffix hlong).2 htext)⟩
  · rintro ⟨⟨d', hscans, hidle, hnot, hlong⟩, hclean⟩
    obtain ⟨hgrammar, hsuffix⟩ := hscans.suffix
    have hgrammar : d'.grammar = d.grammar := hgrammar
    refine ⟨d', hscans, pass_eq_panic_iff.2 ⟨hidle, ?_⟩⟩
    rw [hgrammar]
    exact ⟨hnot, hlong, fun htext => hclean ((cleanTail_iff_of_suffix hsuffix hlong).1 htext)⟩

/-! ### The detector that keeps everything -/

/-- `try_parse` without the trimming: it leaves the buffer as it is when there is no marker. -/
def wholeParse (fromStr : Text → Option Schema.Value) :
    ℕ → ToolCallDetector → Option (ToolCallDetector × Option ToolCall)
  | 0, _ => none
  | fuel + 1, detector =>
    match pass fromStr detector with
    | .next detector => wholeParse fromStr fuel detector
    | .done detector (some call) => some (detector, some call)
    | .done _ none => some (detector, none)
    | .panic => some (detector, none)

/-- Chunks fed to it one after the other. -/
def wholeAll (fromStr : Text → Option Schema.Value) (fuel : ℕ) :
    ToolCallDetector → List Text → Option (ToolCallDetector × List ToolCall)
  | detector, [] => some (detector, [])
  | detector, chunk :: chunks => do
    let (detector, call) ← wholeParse fromStr fuel (detector.push chunk)
    let (detector, calls) ← wholeAll fromStr fuel detector chunks
    return (detector, call.toList ++ calls)

/-- A detector follows the one that keeps everything: it has the same buffer, or the end of it,
without a marker. -/
inductive Follows (whole : ToolCallDetector) : ToolCallDetector → Prop
  | same : Follows whole whole
  | trimmed {buffer : Text} (hidle : whole.state = .idle)
      (hnot : ¬ whole.grammar.openDelimiter <:+: whole.buffer)
      (htail : Tail whole.grammar.openDelimiter whole.buffer buffer) :
      Follows whole { whole with buffer }

/-- **What a feed leaves**, compared with the detector that keeps everything.  An idle buffer is
bounded, but for the text behind a call that has just been returned; and a text at the end that
may be the start of an opening marker is still there. -/
structure Kept (r : Option ToolCall) (whole d : ToolCallDetector) : Prop where
  grammar : d.grammar = whole.grammar
  state : d.state = whole.state
  capturing : d.state = .capturing → d.buffer = whole.buffer
  called : r.isSome = true → d.buffer = whole.buffer
  bounded : d.state = .idle → r = none → d.buffer.len ≤ d.grammar.openDelimiter.len - 1
  start : ∀ p, p <:+ whole.buffer → p <+: whole.grammar.openDelimiter →
    p ≠ whole.grammar.openDelimiter → p <:+ d.buffer

variable {whole : ToolCallDetector} {pieces : List Text} {calls : List ToolCall}

/-- A trimmed buffer is shorter than the marker. -/
theorem len_le_of_trimIdleBuffer {opening buffer' : Text}
    (htrim : trimIdleBuffer buffer opening = some buffer') : buffer'.len ≤ opening.len - 1 := by
  rw [trimIdleBuffer] at htrim
  split at htrim
  next hlong =>
    obtain ⟨⟨cut, rest⟩, hparts, rfl⟩ := Option.map_eq_some_iff.1 htrim
    obtain ⟨htext, hlen⟩ := Text.eq_append_of_splitAt hparts
    have hsum := congrArg Text.len htext
    rw [Text.len_append, hlen] at hsum
    dsimp only
    omega
  next hshort =>
    cases htrim
    omega

/-- **A trimmed buffer** still ends with the start of a marker that the text ends with. -/
theorem suffix_of_tail {opening t p : Text} (htail : Tail opening t buffer) (hp : p <:+ t)
    (hstart : p <+: opening) (hne : p ≠ opening) : p <:+ buffer := by
  obtain ⟨gone, rfl, hgone⟩ := htail
  have hlt := Text.len_lt_of_prefix hstart hne
  rcases hgone with rfl | hlen
  · exact hp
  · refine (List.suffix_or_suffix_of_suffix hp (List.suffix_append _ _)).elim id ?_
    -- The buffer is as long as such a start can be.
    rintro ⟨more, rfl⟩
    rw [Text.len_append] at hlt
    have hnil : more = [] := Text.len_eq_zero (by omega)
    rw [hnil]
    exact List.suffix_rfl

/-- How the loop ends without a call. -/
theorem cases_of_done (hpass : pass fromStr d = .done d' none) :
    d.state = .capturing ∧ d' = d ∨ d.state = .idle ∧ ¬ d.grammar.openDelimiter <:+: d.buffer ∧
      ∃ buffer', trimIdleBuffer d.buffer d.grammar.openDelimiter = some buffer' ∧
        d' = { d with buffer := buffer' } := by
  obtain ⟨grammar, state, buffer⟩ := d
  cases state with
  | idle =>
    rcases hfind : buffer.find grammar.openDelimiter with - | start
    · have hnot := Text.find_eq_none_iff.1 hfind
      rw [pass_idle_none hnot] at hpass
      split at hpass
      next htrim =>
        cases hpass
        exact .inr ⟨rfl, hnot, _, htrim, rfl⟩
      · cases hpass
    · obtain ⟨before, rest, rfl, -, hfirst⟩ := Text.find_eq_some_iff.1 hfind
      rw [pass_idle_some rfl hfirst] at hpass
      cases hpass
  | capturing =>
    rcases hfind : buffer.find grammar.closeDelimiter with - | finish
    · rw [pass_capturing_none (Text.find_eq_none_iff.1 hfind)] at hpass
      cases hpass
      exact .inl ⟨rfl, rfl⟩
    · obtain ⟨payload, rest, rfl, -, hfirst⟩ := Text.find_eq_some_iff.1 hfind
      rw [pass_capturing_some rfl hfirst] at hpass
      split at hpass
      · cases hpass
      · cases hpass

/-- What trimming leaves of a buffer without a marker. -/
theorem kept_of_trim {opening t : Text} {buffer' : Text}
    (hopening : whole.grammar.openDelimiter = opening)
    (hidle : whole.state = .idle) (hwhole : whole.buffer = t) (hnot : ¬ opening <:+: t)
    (htail : Tail opening t buffer') (hlen : buffer'.len ≤ opening.len - 1) :
    Follows whole { whole with buffer := buffer' } ∧
      Kept none whole { whole with buffer := buffer' } := by
  subst hopening hwhole
  refine ⟨.trimmed hidle hnot htail, ?_⟩
  exact {
    grammar := rfl
    state := rfl
    capturing := fun hcapturing => by rw [hidle] at hcapturing; cases hcapturing
    called := nofun
    bounded := fun _ _ => hlen
    start := fun p hp hstart hne => suffix_of_tail htail hp hstart hne }

/-- From the same buffer both detectors find the same. -/
theorem follows_of_same (hparse : tryParse fromStr fuel d = some (d', r)) :
    ∃ whole, wholeParse fromStr fuel d = some (whole, r) ∧ Follows whole d' ∧ Kept r whole d' := by
  induction fuel generalizing d with
  | zero => contradiction
  | succ fuel ih =>
    rw [tryParse_succ] at hparse
    rw [wholeParse]
    rcases hpass : pass fromStr d with - | d₁ | ⟨d₁, r₁⟩
    · rw [hpass] at hparse
      cases hparse
    · rw [hpass] at hparse
      exact ih hparse
    · rw [hpass] at hparse
      obtain ⟨rfl, rfl⟩ := Prod.mk.inj (Option.some.inj hparse)
      rcases r₁ with - | call
      · rcases cases_of_done hpass with ⟨hcapturing, rfl⟩ | ⟨hidle, hnot, buffer', htrim, rfl⟩
        · refine ⟨d₁, rfl, .same, rfl, rfl, fun _ => rfl, nofun, fun hidle => ?_,
            fun p hp _ _ => hp⟩
          rw [hcapturing] at hidle
          cases hidle
        · have hwhole : trimIdleBuffer (d.buffer ++ []) d.grammar.openDelimiter = some buffer' := by
            rwa [List.append_nil]
          have htail := (tail_of_trimIdleBuffer (tail_self _ d.buffer) hwhole).2
          rw [List.append_nil] at htail
          exact ⟨d, rfl, kept_of_trim rfl hidle rfl hnot htail (len_le_of_trimIdleBuffer htrim)⟩
      · exact ⟨d₁, rfl, .same, rfl, rfl, fun _ => rfl, fun _ => rfl, nofun, fun p hp _ _ => hp⟩

/-- **One feed**: trimming loses no call and no start of a marker. -/
theorem Follows.feed (h : Follows whole d) (hfeed : feed fromStr fuel d piece = some (d', r)) :
    ∃ whole', wholeParse fromStr fuel (whole.push piece) = some (whole', r) ∧
      Follows whole' d' ∧ Kept r whole' d' := by
  rcases h with - | @⟨buffer, hidle, hnot, htail⟩
  · exact follows_of_same hfeed
  · rcases fuel with - | fuel
    · contradiction
    · obtain ⟨grammar, state, t⟩ := whole
      obtain rfl : state = .idle := hidle
      rw [ToolCallDetector.feed, tryParse_succ] at hfeed
      rw [wholeParse]
      rcases hfind : Text.find (t ++ piece) grammar.openDelimiter with - | start
      · -- There is no marker in the whole text, so there is none in its end.
        have hnone := Text.find_eq_none_iff.1 hfind
        rw [pass_idle_none (not_infix_of_tail htail hnone)] at hfeed
        rcases htrim : trimIdleBuffer (buffer ++ piece) grammar.openDelimiter with - | buffer'
        · rw [htrim] at hfeed
          contradiction
        · rw [htrim] at hfeed
          obtain ⟨rfl, rfl⟩ := Prod.mk.inj (Option.some.inj hfeed)
          refine ⟨push ⟨grammar, .idle, t⟩ piece, ?_, kept_of_trim rfl rfl rfl hnone
            (tail_of_trimIdleBuffer htail htrim).2 (len_le_of_trimIdleBuffer htrim)⟩
          rw [push, pass_idle_none hnone]
          rcases trimIdleBuffer (t ++ piece) grammar.openDelimiter with - | -
          · rfl
          · rfl
      · obtain ⟨before, rest, htext, -, hfirst⟩ := Text.find_eq_some_iff.1 hfind
        obtain ⟨before', hbuffer, hfirst'⟩ := find_of_tail htail hnot htext hfirst
        rw [pass_idle_some hbuffer hfirst'] at hfeed
        rw [push, pass_idle_some htext hfirst]
        exact follows_of_same hfeed

/-- **A run.** -/
theorem Follows.feedAll (h : Follows whole d)
    (hfeed : feedAll fromStr fuel d pieces = some (d', calls)) :
    ∃ whole', wholeAll fromStr fuel whole pieces = some (whole', calls) ∧ Follows whole' d' := by
  induction pieces generalizing whole d calls with
  | nil =>
    cases hfeed
    exact ⟨whole, rfl, h⟩
  | cons piece pieces ih =>
    obtain ⟨⟨d₁, r⟩, hfirst, hfeed⟩ := Option.bind_eq_some_iff.1 hfeed
    obtain ⟨⟨d₂, later⟩, hlater, hpair⟩ := Option.bind_eq_some_iff.1 hfeed
    cases hpair
    obtain ⟨whole₁, hwhole, hfollows, -⟩ := h.feed hfirst
    obtain ⟨whole₂, hrest, hfollows'⟩ := ih hfollows hlater
    refine ⟨whole₂, ?_, hfollows'⟩
    rw [wholeAll, hwhole]
    show (wholeAll fromStr fuel whole₁ pieces).bind _ = _
    rw [hrest]
    rfl

/-! ### Every run -/

/-- **A run is safe**: no chunk makes the detector panic; and each leaves, beside the calls, what
the detector that keeps everything would need. -/
structure Safe (fromStr : Text → Option Schema.Value) (grammar : ToolCallGrammar)
    (pieces : List Text) : Prop where
  never : ∀ front piece, front ++ [piece] <+: pieces → ∀ fuel d calls,
    feedAll fromStr fuel (new grammar) front = some (d, calls) → ¬ Panics fromStr (d.push piece)
  kept : ∀ front piece, front ++ [piece] <+: pieces → ∀ fuel d calls d' r,
    feedAll fromStr fuel (new grammar) front = some (d, calls) →
    feed fromStr fuel d piece = some (d', r) →
    ∃ whole whole', wholeAll fromStr fuel (new grammar) front = some (whole, calls) ∧
      wholeParse fromStr fuel (whole.push piece) = some (whole', r) ∧ Kept r whole' d'

/-- **A run is safe** exactly if, whenever the detector has something to cut off its buffer, the
cut splits no character. -/
theorem safe_iff (fromStr : Text → Option Schema.Value) (grammar : ToolCallGrammar)
    (pieces : List Text) : Safe fromStr grammar pieces ↔
      ∀ front piece, front ++ [piece] <+: pieces → ∀ fuel d calls,
        feedAll fromStr fuel (new grammar) front = some (d, calls) → Cuts fromStr d piece →
        CleanTail (d.grammar.openDelimiter.len - 1) (d.buffer ++ piece) := by
  constructor
  · intro hsafe front piece hwithin fuel d calls hfeed hcuts
    by_contra hclean
    exact hsafe.never front piece hwithin fuel d calls hfeed (panics_iff.2 ⟨hcuts, hclean⟩)
  · intro hclean
    refine ⟨fun front piece hwithin fuel d calls hfeed hpanics => ?_,
      fun front piece _ fuel d calls d' r hfront hfeed => ?_⟩
    · obtain ⟨hcuts, hnot⟩ := panics_iff.1 hpanics
      exact hnot (hclean front piece hwithin fuel d calls hfeed hcuts)
    · obtain ⟨whole, hwhole, hfollows⟩ := Follows.feedAll .same hfront
      obtain ⟨whole', hparse, -, hkept⟩ := hfollows.feed hfeed
      exact ⟨whole, whole', hwhole, hparse, hkept⟩

/-- Thirteen bytes, of which the first two are one character. -/
def accented : Text := 'é' :: "abcdefghijk".toList

/-- **A text that makes the detector panic**: all of its bytes but one are kept. -/
theorem not_safe_llama3 : ¬ Safe exampleFromStr .llama3 [accented] := by
  intro hsafe
  have hnot : ¬ ToolCallGrammar.llama3.openDelimiter <:+: accented :=
    Text.find_eq_none_iff.1 (by decide)
  have hlong : ToolCallGrammar.llama3.openDelimiter.len - 1 < accented.len := by decide
  have hsplit : ¬ CleanTail 12 accented := by decide
  exact hsafe.never [] accented List.prefix_rfl 1 (new .llama3) [] rfl
    (panics_iff.2 ⟨⟨(new .llama3).push accented, .refl _, rfl, hnot, hlong⟩, hsplit⟩)

end ToolCallDetector

end Runtime

end Oxillama
