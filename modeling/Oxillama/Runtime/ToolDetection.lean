/-
Detecting tool calls in a stream of text (`oxillama-runtime/src/tool_dispatch.rs`), and what the
detector makes of a text with a call in it, however the text is cut.

The text of a call stands between two markers of a grammar.  `fromStr` is
`serde_json::from_str`.  Slicing at a position that is no character boundary panics, which is
`none`; so is running out of `fuel`, the bound on the iterations of the loop.

* `Tail` — what an idle detector remembers of the text: the end of it, long enough for the
  opening marker to be found;
* `CallText.Phase` — where the detector is in the text, as a function of what it has been fed;
* `CallText.feedAll_of_phase` — if the closing marker is not in the call and no cut splits a
  character, the call is detected;
* `CallText.clean_of_feedAll` — and only then, if the text has the call only once;
* `detects_once` — **both, for all grammars, calls and cuts**.
-/
import Oxillama.Lib.Str
import Oxillama.Schema.Value

namespace Oxillama

namespace Runtime

open Schema (Value)

/-- `ToolCallGrammar`. -/
inductive ToolCallGrammar
  | llama3
  | qwen
  | mistral
  | custom (opening closing : Text)
  deriving DecidableEq, Repr

/-- `ToolCallGrammar::open_delimiter`. -/
def ToolCallGrammar.openDelimiter : ToolCallGrammar → Text
  | .llama3 => "<|tool_call|>".toList
  | .qwen => "<tool_call>".toList
  | .mistral => "[TOOL_CALLS][".toList
  | .custom opening _ => opening

/-- `ToolCallGrammar::close_delimiter`. -/
def ToolCallGrammar.closeDelimiter : ToolCallGrammar → Text
  | .llama3 => "<|/tool_call|>".toList
  | .qwen => "</tool_call>".toList
  | .mistral => "]".toList
  | .custom _ closing => closing

/-- `ToolCall`. -/
structure ToolCall where
  name : String
  args : Value

/-- `ToolDetectionState`. -/
inductive ToolDetectionState
  | idle
  | capturing
  deriving DecidableEq, Repr

/-- `ToolCallDetector`. -/
structure ToolCallDetector where
  grammar : ToolCallGrammar
  state : ToolDetectionState
  buffer : Text
  deriving DecidableEq, Repr

/-- `parse_tool_call_json`. -/
def parseToolCallJson (fromStr : Text → Option Value) (payload : Text) : Option ToolCall := do
  let v ← fromStr payload
  let obj ← v.asObject
  let name ← (← obj.get "name").asStr
  let args := ((obj.get "args").or (obj.get "arguments")).getD (.object [])
  return ⟨name, args⟩

namespace ToolCallDetector

/-- `ToolCallDetector::new`. -/
def new (grammar : ToolCallGrammar) : ToolCallDetector := ⟨grammar, .idle, []⟩

/-- `ToolCallDetector::trim_idle_buffer`: the buffer it leaves. -/
def trimIdleBuffer (buffer opening : Text) : Option Text :=
  let maxKeep := opening.len - 1
  if buffer.len > maxKeep then
    let trimTo := buffer.len - maxKeep
    (buffer.splitAt trimTo).map (·.2)
  else some buffer

variable (fromStr : Text → Option Value)

/-- `ToolCallDetector::try_parse`. -/
def tryParse : ℕ → ToolCallDetector → Option (ToolCallDetector × Option ToolCall)
  | 0, _ => none
  | fuel + 1, detector =>
    let opening := detector.grammar.openDelimiter
    let close := detector.grammar.closeDelimiter
    match detector.state with
    | .idle =>
      match detector.buffer.find opening with
      | some start => do
        let (_, buffer) ← detector.buffer.splitAt (start + opening.len)
        tryParse fuel { detector with buffer, state := .capturing }
      | none => do
        let buffer ← trimIdleBuffer detector.buffer opening
        return ({ detector with buffer }, none)
    | .capturing =>
      match detector.buffer.find close with
      | some finish => do
        let (payload, _) ← detector.buffer.splitAt finish
        let (_, remainder) ← detector.buffer.splitAt (finish + close.len)
        let detector := { detector with buffer := remainder, state := .idle }
        match parseToolCallJson fromStr payload.trim with
        | some call => return (detector, some call)
        | none => tryParse fuel detector
      | none => return (detector, none)

/-- `ToolCallDetector::feed`. -/
def feed (fuel : ℕ) (detector : ToolCallDetector) (tokenText : Text) :
    Option (ToolCallDetector × Option ToolCall) :=
  tryParse fromStr fuel { detector with buffer := detector.buffer ++ tokenText }

/-- Chunks fed one after the other, and the calls that are detected. -/
def feedAll (fuel : ℕ) : ToolCallDetector → List Text → Option (ToolCallDetector × List ToolCall)
  | detector, [] => some (detector, [])
  | detector, chunk :: chunks => do
    let (detector, call) ← feed fromStr fuel detector chunk
    let (detector, calls) ← feedAll fuel detector chunks
    return (detector, call.toList ++ calls)

end ToolCallDetector

open ToolCallDetector

/-! ### The end of a text -/

/-- The last `keep` bytes of a text are whole characters. -/
def CleanTail (keep : ℕ) (t : Text) : Prop := (t.splitAt (t.len - keep)).isSome = true

instance (keep : ℕ) (t : Text) : Decidable (CleanTail keep t) :=
  inferInstanceAs (Decidable (_ = true))

/-- A buffer is all of a text, or as much of its end as may be the start of a marker. -/
def Tail (opening t buffer : Text) : Prop :=
  ∃ dropped, t = dropped ++ buffer ∧ (dropped = [] ∨ buffer.len = opening.len - 1)

section Ends

variable {opening t buffer chunk : Text}

theorem tail_self (opening t : Text) : Tail opening t t := ⟨[], rfl, .inl rfl⟩

/-- The point at which the buffer is cut is one of the whole text. -/
theorem isSome_trimIdleBuffer (h : Tail opening t buffer)
    (hclean : CleanTail (opening.len - 1) (t ++ chunk)) :
    ∃ buffer', trimIdleBuffer (buffer ++ chunk) opening = some buffer' := by
  obtain ⟨dropped, rfl, -⟩ := h
  rw [trimIdleBuffer]
  by_cases hlong : (buffer ++ chunk).len > opening.len - 1
  · rw [if_pos hlong]
    have hpos : (dropped ++ buffer ++ chunk).len - (opening.len - 1) =
        dropped.len + ((buffer ++ chunk).len - (opening.len - 1)) := by
      simp only [Text.len_append] at hlong ⊢
      omega
    rw [CleanTail, hpos, List.append_assoc, Text.splitAt_add, Option.isSome_map] at hclean
    obtain ⟨parts, hparts⟩ := Option.isSome_iff_exists.1 hclean
    refine ⟨parts.2, ?_⟩
    dsimp only
    rw [hparts, Option.map_some]
  · rw [if_neg hlong]
    exact ⟨_, rfl⟩

theorem tail_of_trimIdleBuffer {buffer' : Text} (h : Tail opening t buffer)
    (htrim : trimIdleBuffer (buffer ++ chunk) opening = some buffer') :
    CleanTail (opening.len - 1) (t ++ chunk) ∧ Tail opening (t ++ chunk) buffer' := by
  obtain ⟨dropped, rfl, hdropped⟩ := h
  rw [trimIdleBuffer] at htrim
  by_cases hlong : (buffer ++ chunk).len > opening.len - 1
  · rw [if_pos hlong] at htrim
    obtain ⟨⟨cut, rest⟩, hparts, rfl⟩ := Option.map_eq_some_iff.1 htrim
    obtain ⟨htext, hlen⟩ := Text.eq_append_of_splitAt hparts
    have hpos : (dropped ++ buffer ++ chunk).len - (opening.len - 1) =
        dropped.len + ((buffer ++ chunk).len - (opening.len - 1)) := by
      simp only [Text.len_append] at hlong ⊢
      omega
    constructor
    · rw [CleanTail, hpos, List.append_assoc, Text.splitAt_add, hparts]
      rfl
    · refine ⟨dropped ++ cut, ?_, .inr ?_⟩
      · rw [List.append_assoc, htext, List.append_assoc]
      · have hsum := congrArg Text.len htext
        rw [Text.len_append cut rest, hlen] at hsum
        dsimp only
        omega
  · rw [if_neg hlong] at htrim
    cases htrim
    have hkeep : dropped = [] ∨ (buffer ++ chunk).len = opening.len - 1 := by
      rcases hdropped with hnil | hlen
      · exact .inl hnil
      · right
        rw [Text.len_append] at hlong ⊢
        omega
    refine ⟨?_, dropped, List.append_assoc _ _ _, hkeep⟩
    rcases hkeep with rfl | hlen
    · have hzero : Text.len (buffer ++ chunk) - (opening.len - 1) = 0 := by omega
      rw [List.nil_append, CleanTail, hzero]
      exact congrArg Option.isSome (Text.splitAt_append [] _)
    · have hpos : (dropped ++ buffer ++ chunk).len - (opening.len - 1) = dropped.len := by
        rw [List.append_assoc, Text.len_append dropped, hlen, Nat.add_sub_cancel]
      rw [CleanTail, hpos, List.append_assoc, Text.splitAt_append]
      rfl

theorem not_infix_of_tail (h : Tail opening t buffer) (hnot : ¬ opening <:+: t ++ chunk) :
    ¬ opening <:+: buffer ++ chunk := by
  obtain ⟨dropped, rfl, -⟩ := h
  intro hocc
  refine hnot (hocc.trans ?_)
  rw [List.append_assoc]
  exact (List.suffix_append _ _).isInfix

/-- What is dropped lies before the first opening marker. -/
theorem find_of_tail {before rest : Text} (h : Tail opening t buffer) (hnot : ¬ opening <:+: t)
    (htext : t ++ chunk = before ++ opening ++ rest) (hfirst : Text.First opening before) :
    ∃ before', buffer ++ chunk = before' ++ opening ++ rest ∧ Text.First opening before' := by
  obtain ⟨dropped, rfl, hdropped⟩ := h
  -- Otherwise the marker would end in what was fed before.
  have hinit : dropped <+: before := by
    have hboth : dropped <+: before ++ opening ++ rest :=
      ⟨buffer ++ chunk, by rw [← htext, List.append_assoc]⟩
    have hbefore : before <+: before ++ opening ++ rest :=
      ⟨opening ++ rest, (List.append_assoc _ _ _).symm⟩
    refine (List.prefix_or_prefix_of_prefix hboth hbefore).elim id fun hinit => ?_
    by_contra hne
    have hlt := Text.len_lt_of_prefix hinit fun heq => hne (heq ▸ List.prefix_rfl)
    have hends : before ++ opening <+: dropped ++ buffer := by
      have hleft : before ++ opening <+: before ++ opening ++ rest := List.prefix_append _ _
      have hright : dropped ++ buffer <+: before ++ opening ++ rest := ⟨chunk, htext⟩
      refine (List.prefix_or_prefix_of_prefix hleft hright).elim id fun hge => ?_
      by_contra hne'
      have hltLen := Text.len_lt_of_prefix hge fun heq => hne' (heq ▸ List.prefix_rfl)
      rw [Text.len_append, Text.len_append] at hltLen
      rcases hdropped with rfl | hlen
      · rw [Text.len_nil] at hlt
        omega
      · omega
    exact hnot ((List.suffix_append before opening).isInfix.trans hends.isInfix)
  obtain ⟨before', rfl⟩ := hinit
  refine ⟨before', ?_, ?_⟩
  · rw [List.append_assoc, List.append_assoc, List.append_assoc] at htext
    rw [List.append_assoc]
    exact List.append_cancel_left htext
  · intro pre post hpre
    have hle := hfirst (dropped ++ pre) post (by
      rw [List.append_assoc, List.append_assoc, ← List.append_assoc pre, hpre, List.append_assoc])
    rw [List.length_append, List.length_append] at hle
    omega

end Ends

/-! ### One iteration -/

section Iteration

variable {fromStr : Text → Option Schema.Value} {grammar : ToolCallGrammar} {fuel : ℕ}
  {buffer before rest : Text}

theorem tryParse_idle_none (h : ¬ grammar.openDelimiter <:+: buffer) :
    tryParse fromStr (fuel + 1) ⟨grammar, .idle, buffer⟩ =
      (trimIdleBuffer buffer grammar.openDelimiter).map fun buffer' =>
        (⟨grammar, .idle, buffer'⟩, none) := by
  rw [tryParse]
  simp only [Text.find_eq_none_iff.2 h]
  rcases trimIdleBuffer buffer grammar.openDelimiter with - | buffer'
  · rfl
  · rfl

theorem tryParse_idle_some (hbuffer : buffer = before ++ grammar.openDelimiter ++ rest)
    (hfirst : Text.First grammar.openDelimiter before) :
    tryParse fromStr (fuel + 1) ⟨grammar, .idle, buffer⟩ =
      tryParse fromStr fuel ⟨grammar, .capturing, rest⟩ := by
  rw [tryParse, hbuffer]
  simp only [Text.find_append_iff.2 hfirst]
  rw [← Text.len_append, Text.splitAt_append]
  rfl

theorem tryParse_capturing_none (h : ¬ grammar.closeDelimiter <:+: buffer) :
    tryParse fromStr (fuel + 1) ⟨grammar, .capturing, buffer⟩ =
      some (⟨grammar, .capturing, buffer⟩, none) := by
  rw [tryParse]
  simp only [Text.find_eq_none_iff.2 h]
  rfl

theorem tryParse_capturing_some {payload : Text}
    (hbuffer : buffer = payload ++ grammar.closeDelimiter ++ rest)
    (hfirst : Text.First grammar.closeDelimiter payload) :
    tryParse fromStr (fuel + 1) ⟨grammar, .capturing, buffer⟩ =
      match parseToolCallJson fromStr payload.trim with
      | some call => some (⟨grammar, .idle, rest⟩, some call)
      | none => tryParse fromStr fuel ⟨grammar, .idle, rest⟩ := by
  rw [tryParse, hbuffer]
  simp only [Text.find_append_iff.2 hfirst]
  rw [← Text.len_append, Text.splitAt_append, List.append_assoc, Text.splitAt_append]
  rfl

end Iteration

/-! ### A text with a call -/

/-- A text with a call between the markers of a grammar. -/
structure CallText where
  grammar : ToolCallGrammar
  before : Text
  payload : Text
  after : Text

namespace CallText

/-- The opening marker. -/
def opening (c : CallText) : Text := c.grammar.openDelimiter

/-- The closing marker. -/
def closing (c : CallText) : Text := c.grammar.closeDelimiter

/-- Everything up to the call. -/
def head (c : CallText) : Text := c.before ++ c.opening

/-- Everything up to the end of the call. -/
def upToCall (c : CallText) : Text := c.head ++ (c.payload ++ c.closing)

/-- The whole text. -/
def text (c : CallText) : Text := c.upToCall ++ c.after

/-- The opening marker is nowhere else, the call's payload apart. -/
def Alone (c : CallText) : Prop :=
  Text.First c.opening c.before ∧ ¬ c.opening <:+: c.after

/-- The first closing marker is the one at the end of the call. -/
def ClosesAtEnd (c : CallText) : Prop := Text.First c.closing c.payload

/-- The cuts split no character at the point up to which an idle detector forgets the text:
`t` is the text before the next chunk. -/
def CleanCuts (c : CallText) : Text → List Text → Prop
  | _, [] => True
  | t, chunk :: chunks =>
    (¬ c.opening <:+: t ++ chunk → CleanTail (c.opening.len - 1) (t ++ chunk)) ∧
    (∀ s, t = c.upToCall ++ s → CleanTail (c.opening.len - 1) (s ++ chunk)) ∧
    CleanCuts c (t ++ chunk) chunks

/-- No other part of the text behind the opening marker reads as the call. -/
def Unique (c : CallText) (fromStr : Text → Option Schema.Value) (call : ToolCall) : Prop :=
  ∀ x w y, c.payload ++ c.closing ++ c.after = x ++ w ++ y →
    parseToolCallJson fromStr w.trim = some call → x = [] ∧ w = c.payload

/-- Where the detector is when it has been fed `t`. -/
inductive Phase (c : CallText) (t : Text) : ToolCallDetector → Prop
  | seeking {buffer : Text} (hnot : ¬ c.opening <:+: t) (htail : Tail c.opening t buffer) :
      Phase c t ⟨c.grammar, .idle, buffer⟩
  | capturing {buffer : Text} (ht : t = c.head ++ buffer) (hnot : ¬ c.closing <:+: buffer) :
      Phase c t ⟨c.grammar, .capturing, buffer⟩

/-- The call is detected, and nothing follows. -/
inductive Done (c : CallText) (t : Text) : ToolCallDetector → Prop
  | intro {s buffer : Text} (ht : t = c.upToCall ++ s) (htail : Tail c.opening s buffer) :
      Done c t ⟨c.grammar, .idle, buffer⟩

variable {c : CallText} {t buffer chunk more : Text} {d d' : ToolCallDetector} {fuel : ℕ}
  {fromStr : Text → Option Schema.Value} {call : ToolCall} {r : Option ToolCall}

/-- What has been fed is past the opening marker once it contains one. -/
theorem eq_head_append (h : c.Alone) (htext : t ++ more = c.text) (hin : c.opening <:+: t) :
    ∃ b, t = c.head ++ b := by
  obtain ⟨pre, post, rfl⟩ := hin
  have hcut : pre ++ c.opening ++ (post ++ more) =
      c.before ++ c.opening ++ (c.payload ++ c.closing ++ c.after) := by
    rw [← List.append_assoc, htext, text, upToCall, head]
    simp only [List.append_assoc]
  obtain ⟨gap, rfl⟩ := h.1.le hcut
  have hhead : c.head <+: c.text := by
    rw [text, upToCall, List.append_assoc]
    exact List.prefix_append _ _
  obtain ⟨b, hb⟩ := List.prefix_of_prefix_length_le hhead ⟨more, htext⟩ (by
    rw [head]
    simp only [List.length_append]
    omega)
  exact ⟨b, hb.symm⟩

theorem text_eq (c : CallText) : c.text = c.head ++ (c.payload ++ c.closing ++ c.after) := by
  rw [text, upToCall]
  simp only [List.append_assoc]

/-- The first closing marker behind the opening one is at the end of the call, or before it. -/
theorem eq_payload {w rest : Text}
    (hcut : w ++ c.closing ++ rest = c.payload ++ c.closing ++ c.after)
    (hw : Text.First c.closing w) (hclose : c.ClosesAtEnd) : w = c.payload := by
  have hle := hw.le hcut.symm
  have hge := hclose.le hcut
  exact hle.eq_of_length_le hge.length_le

/-! ### Detection -/

/-- The detector behind the opening marker, when the call closes at its end. -/
theorem tryParse_of_capturing {b : Text} (htext : c.head ++ b ++ more = c.text)
    (hclose : c.ClosesAtEnd) (hcall : parseToolCallJson fromStr c.payload.trim = some call) :
    ∃ d' r, tryParse fromStr (fuel + 1) ⟨c.grammar, .capturing, b⟩ = some (d', r) ∧
      (r = none ∧ c.Phase (c.head ++ b) d' ∨ r = some call ∧ c.Done (c.head ++ b) d') := by
  rcases hfind : b.find c.closing with - | i
  · have hnot := Text.find_eq_none_iff.1 hfind
    exact ⟨_, _, tryParse_capturing_none hnot, .inl ⟨rfl, .capturing rfl hnot⟩⟩
  · obtain ⟨w, rest, rfl, -, hw⟩ := Text.find_eq_some_iff.1 hfind
    rw [text_eq, List.append_assoc c.head, List.append_assoc (w ++ c.closing)] at htext
    obtain rfl := eq_payload (List.append_cancel_left htext) hw hclose
    refine ⟨_, _, ?_, .inr ⟨rfl, .intro (s := rest) ?_ (tail_self _ _)⟩⟩
    · refine (tryParse_capturing_some rfl hw).trans ?_
      rw [hcall]
    · rw [upToCall]
      simp only [List.append_assoc]

/-- **A chunk before the call is complete.** -/
theorem feed_of_phase (h : c.Phase t d) (halone : c.Alone) (hclose : c.ClosesAtEnd)
    (hcall : parseToolCallJson fromStr c.payload.trim = some call)
    (htext : t ++ chunk ++ more = c.text)
    (hclean : ¬ c.opening <:+: t ++ chunk → CleanTail (c.opening.len - 1) (t ++ chunk)) :
    ∃ d' r, feed fromStr 2 d chunk = some (d', r) ∧
      (r = none ∧ c.Phase (t ++ chunk) d' ∨ r = some call ∧ c.Done (t ++ chunk) d') := by
  rcases h with ⟨hnot, htail⟩ | ⟨rfl, hnot⟩
  · by_cases hin : c.opening <:+: t ++ chunk
    · -- The opening marker is found.
      obtain ⟨b, hb⟩ := eq_head_append halone htext hin
      obtain ⟨before', hbuffer, hfirst⟩ := find_of_tail htail hnot hb halone.1
      rw [hb] at htext ⊢
      rw [feed, tryParse_idle_some hbuffer hfirst]
      exact tryParse_of_capturing htext hclose hcall
    · obtain ⟨buffer', htrim⟩ := isSome_trimIdleBuffer htail (hclean hin)
      refine ⟨_, _, ?_, .inl ⟨rfl, .seeking hin (tail_of_trimIdleBuffer htail htrim).2⟩⟩
      rw [feed, tryParse_idle_none (not_infix_of_tail htail hin)]
      exact congrArg _ htrim
  · rw [List.append_assoc c.head] at htext ⊢
    exact tryParse_of_capturing htext hclose hcall

/-- **A chunk behind the call.** -/
theorem feed_of_done (h : c.Done t d) (halone : c.Alone) (htext : t ++ chunk ++ more = c.text)
    (hclean : ∀ s, t = c.upToCall ++ s → CleanTail (c.opening.len - 1) (s ++ chunk)) :
    ∃ d', feed fromStr 2 d chunk = some (d', none) ∧ c.Done (t ++ chunk) d' := by
  obtain ⟨rfl, htail⟩ := h
  rename_i s buffer
  have hnot : ¬ c.opening <:+: s ++ chunk := by
    intro hin
    rw [text, List.append_assoc, List.append_assoc c.upToCall] at htext
    have hafter := List.append_cancel_left htext
    rw [← List.append_assoc] at hafter
    exact halone.2 (hin.trans ⟨[], more, hafter⟩)
  obtain ⟨buffer', htrim⟩ := isSome_trimIdleBuffer htail (hclean s rfl)
  refine ⟨_, ?_, .intro (List.append_assoc _ _ _) (tail_of_trimIdleBuffer htail htrim).2⟩
  rw [feed, tryParse_idle_none (not_infix_of_tail htail hnot)]
  exact congrArg _ htrim

theorem feedAll_of_done {chunks : List Text} (h : c.Done t d) (halone : c.Alone)
    (htext : t ++ chunks.flatten = c.text) (hclean : c.CleanCuts t chunks) :
    ∃ d', feedAll fromStr 2 d chunks = some (d', []) := by
  induction chunks generalizing t d with
  | nil => exact ⟨d, rfl⟩
  | cons chunk chunks ih =>
    rw [List.flatten_cons, ← List.append_assoc] at htext
    obtain ⟨d₁, hfeed, hdone⟩ :
        ∃ d₁, feed fromStr 2 d chunk = some (d₁, none) ∧ c.Done (t ++ chunk) d₁ :=
      feed_of_done h halone htext hclean.2.1
    obtain ⟨d', hrest⟩ := ih hdone htext hclean.2.2
    refine ⟨d', ?_⟩
    rw [feedAll, hfeed]
    simp only [Option.bind_eq_bind, Option.bind_some, hrest]
    rfl

/-- **The call is detected**, by induction on the chunks. -/
theorem feedAll_of_phase {chunks : List Text} (h : c.Phase t d) (halone : c.Alone)
    (hclose : c.ClosesAtEnd) (hcall : parseToolCallJson fromStr c.payload.trim = some call)
    (htext : t ++ chunks.flatten = c.text) (hclean : c.CleanCuts t chunks) :
    ∃ d', feedAll fromStr 2 d chunks = some (d', [call]) := by
  induction chunks generalizing t d with
  | nil =>
    -- The whole text has been fed, and contains both markers.
    exfalso
    rw [List.flatten_nil, List.append_nil] at htext
    rcases h with ⟨hnot, -⟩ | ⟨rfl, hnot⟩
    · refine hnot ?_
      rw [htext, text, upToCall, head]
      exact ⟨c.before, c.payload ++ c.closing ++ c.after, by simp only [List.append_assoc]⟩
    · rw [text_eq] at htext
      rw [List.append_cancel_left htext] at hnot
      exact hnot ⟨c.payload, c.after, rfl⟩
  | cons chunk chunks ih =>
    rw [List.flatten_cons, ← List.append_assoc] at htext
    obtain ⟨d₁, r, hfeed, ⟨rfl, hphase⟩ | ⟨rfl, hdone⟩⟩ :=
      feed_of_phase h halone hclose hcall htext hclean.1
    · obtain ⟨d', hrest⟩ := ih hphase htext hclean.2.2
      refine ⟨d', ?_⟩
      rw [feedAll, hfeed]
      simp only [Option.bind_eq_bind, Option.bind_some, hrest]
      rfl
    · obtain ⟨d', hrest⟩ : ∃ d', feedAll fromStr 2 d₁ chunks = some (d', []) :=
        feedAll_of_done hdone halone htext hclean.2.2
      refine ⟨d', ?_⟩
      rw [feedAll, hfeed]
      simp only [Option.bind_eq_bind, Option.bind_some, hrest]
      rfl

/-! ### Nothing else is detected -/

/-- The detector is behind the beginning of the payload: `u` is what it has been fed behind the
opening marker. -/
def Lost (c : CallText) (u : Text) (d : ToolCallDetector) : Prop :=
  d.grammar = c.grammar ∧ ∃ x, u = x ++ d.buffer ∧ (d.state = .capturing → x ≠ [])

/-- A call that is read from `u`, from behind its beginning or from the beginning but not from the
whole payload. -/
def Elsewhere (c : CallText) (fromStr : Text → Option Schema.Value) (u : Text) (call : ToolCall) :
    Prop :=
  ∃ x w y, u = x ++ w ++ y ∧ parseToolCallJson fromStr w.trim = some call ∧
    (x = [] → w ≠ c.payload)

theorem Unique.not_elsewhere {u : Text} (h : c.Unique fromStr call)
    (hu : u <+: c.payload ++ c.closing ++ c.after) : ¬ c.Elsewhere fromStr u call := by
  rintro ⟨x, w, y, rfl, hparse, hne⟩
  obtain ⟨rest, hrest⟩ := hu
  obtain ⟨hx, hw⟩ := h x w (y ++ rest) (by rw [← hrest, List.append_assoc]) hparse
  exact hne hx hw

/-- A detector that is lost stays lost. -/
theorem lost_of_tryParse {u : Text} (hopen : c.opening ≠ []) (h : c.Lost u d)
    (hparse : tryParse fromStr fuel d = some (d', r)) :
    c.Lost u d' ∧ ∀ call ∈ r, c.Elsewhere fromStr u call := by
  induction fuel generalizing d with
  | zero => contradiction
  | succ fuel ih =>
    obtain ⟨hgrammar, x, rfl, hx⟩ := h
    rcases d with ⟨grammar, state, buffer⟩
    dsimp only at hgrammar hx ⊢
    subst hgrammar
    rcases state with - | -
    · rcases hfind : buffer.find c.opening with - | i
      · have hnot := Text.find_eq_none_iff.1 hfind
        rw [tryParse_idle_none hnot] at hparse
        obtain ⟨buffer', htrim, hpair⟩ := Option.map_eq_some_iff.1 hparse
        cases hpair
        rw [← List.append_nil buffer] at htrim
        obtain ⟨-, dropped, hdropped, -⟩ :=
          tail_of_trimIdleBuffer (tail_self c.opening buffer) htrim
        rw [List.append_nil] at hdropped
        refine ⟨⟨rfl, x ++ dropped, ?_, by nofun⟩, by nofun⟩
        rw [hdropped, List.append_assoc]
      · obtain ⟨pre, rest, rfl, -, hfirst⟩ := Text.find_eq_some_iff.1 hfind
        have hstep : tryParse fromStr (fuel + 1) ⟨c.grammar, .idle, pre ++ c.opening ++ rest⟩ = _ :=
          tryParse_idle_some rfl hfirst
        rw [hstep] at hparse
        refine ih ⟨rfl, x ++ (pre ++ c.opening), ?_, fun _ => ?_⟩ hparse
        · simp only [List.append_assoc]
        · simp [hopen]
    · rcases hfind : buffer.find c.closing with - | i
      · have hnot := Text.find_eq_none_iff.1 hfind
        rw [tryParse_capturing_none hnot] at hparse
        cases hparse
        exact ⟨⟨rfl, x, rfl, hx⟩, by nofun⟩
      · obtain ⟨w, rest, rfl, -, hfirst⟩ := Text.find_eq_some_iff.1 hfind
        have hu : x ++ (w ++ c.closing ++ rest) = x ++ (w ++ c.closing) ++ rest := by
          simp only [List.append_assoc]
        have hlost : c.Lost (x ++ (w ++ c.closing ++ rest)) ⟨c.grammar, .idle, rest⟩ :=
          ⟨rfl, x ++ (w ++ c.closing), hu, by nofun⟩
        have hstep : tryParse fromStr (fuel + 1)
            ⟨c.grammar, .capturing, w ++ c.closing ++ rest⟩ = _ :=
          tryParse_capturing_some rfl hfirst
        rw [hstep] at hparse
        rcases hread : parseToolCallJson fromStr w.trim with - | found
        · rw [hread] at hparse
          exact ih hlost hparse
        · rw [hread] at hparse
          cases hparse
          refine ⟨hlost, fun call hmem => ?_⟩
          cases hmem
          refine ⟨x, w, c.closing ++ rest, ?_, hread, fun hnil => absurd hnil (hx rfl)⟩
          simp only [List.append_assoc]

/-- What follows is not the call either. -/
theorem not_mem_of_lost {chunks : List Text} {u : Text} {calls : List ToolCall}
    (hopen : c.opening ≠ []) (hunique : c.Unique fromStr call) (h : c.Lost u d)
    (hu : u ++ chunks.flatten = c.payload ++ c.closing ++ c.after)
    (hfeed : feedAll fromStr fuel d chunks = some (d', calls)) : call ∉ calls := by
  induction chunks generalizing u d calls with
  | nil =>
    cases hfeed
    exact List.not_mem_nil
  | cons chunk chunks ih =>
    obtain ⟨⟨d₁, r⟩, hfirst, hfeed⟩ := Option.bind_eq_some_iff.1 hfeed
    obtain ⟨⟨d₂, rest⟩, hrest, hpair⟩ := Option.bind_eq_some_iff.1 hfeed
    cases hpair
    rw [List.flatten_cons, ← List.append_assoc] at hu
    obtain ⟨hgrammar, x, rfl, hx⟩ := h
    have hlost : c.Lost (x ++ d.buffer ++ chunk) { d with buffer := d.buffer ++ chunk } :=
      ⟨hgrammar, x, List.append_assoc _ _ _, hx⟩
    obtain ⟨hlost', helsewhere⟩ := lost_of_tryParse hopen hlost hfirst
    intro hmem
    rcases List.mem_append.1 hmem with hmem | hmem
    · exact hunique.not_elsewhere ⟨_, hu⟩ (helsewhere call (Option.mem_toList.1 hmem))
    · exact ih hlost' hu hrest hmem

/-- The detector behind the opening marker. -/
theorem cases_of_tryParse {b : Text} (htext : c.head ++ b ++ more = c.text)
    (hopen : c.opening ≠ []) (hcall : parseToolCallJson fromStr c.payload.trim = some call)
    (hparse : tryParse fromStr fuel ⟨c.grammar, .capturing, b⟩ = some (d', r)) :
    r = none ∧ c.Phase (c.head ++ b) d' ∨
      r = some call ∧ c.ClosesAtEnd ∧ c.Done (c.head ++ b) d' ∨
        c.Lost b d' ∧ ∀ call ∈ r, c.Elsewhere fromStr b call := by
  rcases fuel with - | fuel
  · contradiction
  · rcases hfind : b.find c.closing with - | i
    · have hnot := Text.find_eq_none_iff.1 hfind
      rw [tryParse_capturing_none hnot] at hparse
      cases hparse
      exact .inl ⟨rfl, .capturing rfl hnot⟩
    · obtain ⟨w, rest, rfl, -, hw⟩ := Text.find_eq_some_iff.1 hfind
      have hstep : tryParse fromStr (fuel + 1)
          ⟨c.grammar, .capturing, w ++ c.closing ++ rest⟩ = _ := tryParse_capturing_some rfl hw
      rw [hstep] at hparse
      by_cases hpayload : w = c.payload
      · subst hpayload
        rw [hcall] at hparse
        cases hparse
        refine .inr (.inl ⟨rfl, hw, .intro (s := rest) ?_ (tail_self _ _)⟩)
        rw [upToCall]
        simp only [List.append_assoc]
      · -- The marker that is found is not the one behind the payload.
        right
        right
        have hlost : c.Lost (w ++ c.closing ++ rest) ⟨c.grammar, .idle, rest⟩ :=
          ⟨rfl, w ++ c.closing, rfl, by nofun⟩
        rcases hread : parseToolCallJson fromStr w.trim with - | found
        · rw [hread] at hparse
          exact lost_of_tryParse hopen hlost hparse
        · rw [hread] at hparse
          cases hparse
          refine ⟨hlost, fun call hmem => ?_⟩
          cases hmem
          exact ⟨[], w, c.closing ++ rest, List.append_assoc _ _ _, hread, fun _ => hpayload⟩

/-- A chunk that goes through behind the call splits no character. -/
theorem done_of_feed (h : c.Done t d) (halone : c.Alone) (htext : t ++ chunk ++ more = c.text)
    (hfeed : feed fromStr fuel d chunk = some (d', r)) :
    c.Done (t ++ chunk) d' ∧
      ∀ s, t = c.upToCall ++ s → CleanTail (c.opening.len - 1) (s ++ chunk) := by
  rcases fuel with - | fuel
  · contradiction
  · obtain ⟨rfl, htail⟩ := h
    rename_i s buffer
    have hnot : ¬ c.opening <:+: s ++ chunk := by
      intro hin
      rw [text, List.append_assoc, List.append_assoc c.upToCall] at htext
      have hafter := List.append_cancel_left htext
      rw [← List.append_assoc] at hafter
      exact halone.2 (hin.trans ⟨[], more, hafter⟩)
    rw [feed, tryParse_idle_none (not_infix_of_tail htail hnot)] at hfeed
    obtain ⟨buffer', htrim, hpair⟩ := Option.map_eq_some_iff.1 hfeed
    cases hpair
    obtain ⟨hclean, htail'⟩ := tail_of_trimIdleBuffer htail htrim
    refine ⟨.intro (List.append_assoc _ _ _) htail', fun s' hs' => ?_⟩
    rw [← List.append_cancel_left hs']
    exact hclean

theorem infix_head_append (c : CallText) (b : Text) : c.opening <:+: c.head ++ b := by
  rw [head]
  exact ⟨c.before, b, rfl⟩

theorem not_upToCall_of_phase (h : c.Phase t d) (s : Text) : t ≠ c.upToCall ++ s := by
  rintro rfl
  rcases h with ⟨hnot, -⟩ | ⟨ht, hnot⟩
  · rw [upToCall, List.append_assoc] at hnot
    exact hnot (c.infix_head_append _)
  · rw [upToCall, List.append_assoc] at ht
    rw [← List.append_cancel_left ht] at hnot
    exact hnot ⟨c.payload, s, rfl⟩

/-- A chunk that goes through before the call is complete splits no character. -/
theorem cases_of_feed (h : c.Phase t d) (halone : c.Alone) (hopen : c.opening ≠ [])
    (hcall : parseToolCallJson fromStr c.payload.trim = some call)
    (htext : t ++ chunk ++ more = c.text) (hfeed : feed fromStr fuel d chunk = some (d', r)) :
    (¬ c.opening <:+: t ++ chunk → CleanTail (c.opening.len - 1) (t ++ chunk)) ∧
      (r = none ∧ c.Phase (t ++ chunk) d' ∨
        r = some call ∧ c.ClosesAtEnd ∧ c.Done (t ++ chunk) d' ∨
          ∃ b, t ++ chunk = c.head ++ b ∧ c.Lost b d' ∧ ∀ call ∈ r,
            c.Elsewhere fromStr b call) := by
  rcases h with ⟨hnot, htail⟩ | ⟨rfl, hnot⟩
  · rcases fuel with - | fuel
    · contradiction
    · by_cases hin : c.opening <:+: t ++ chunk
      · obtain ⟨b, hb⟩ := eq_head_append halone htext hin
        obtain ⟨before', hbuffer, hfirst⟩ := find_of_tail htail hnot hb halone.1
        rw [feed, tryParse_idle_some hbuffer hfirst] at hfeed
        rw [hb] at htext
        refine ⟨fun hnot => absurd hin hnot, ?_⟩
        rcases cases_of_tryParse htext hopen hcall hfeed with hphase | hdone | hlost
        · exact .inl (hb ▸ hphase)
        · exact .inr (.inl (hb ▸ hdone))
        · exact .inr (.inr ⟨b, hb, hlost⟩)
      · rw [feed, tryParse_idle_none (not_infix_of_tail htail hin)] at hfeed
        obtain ⟨buffer', htrim, hpair⟩ := Option.map_eq_some_iff.1 hfeed
        cases hpair
        obtain ⟨hclean, htail'⟩ := tail_of_trimIdleBuffer htail htrim
        exact ⟨fun _ => hclean, .inl ⟨rfl, .seeking hin htail'⟩⟩
  · rw [List.append_assoc c.head] at htext ⊢
    refine ⟨fun hnot => absurd (c.infix_head_append _) hnot, ?_⟩
    rcases cases_of_tryParse htext hopen hcall hfeed with hphase | hdone | hlost
    · exact .inl hphase
    · exact .inr (.inl hdone)
    · exact .inr (.inr ⟨_, rfl, hlost⟩)

theorem clean_of_done {chunks : List Text} {calls : List ToolCall} (h : c.Done t d)
    (halone : c.Alone) (htext : t ++ chunks.flatten = c.text)
    (hfeed : feedAll fromStr fuel d chunks = some (d', calls)) : c.CleanCuts t chunks := by
  induction chunks generalizing t d calls with
  | nil => trivial
  | cons chunk chunks ih =>
    obtain ⟨⟨d₁, r⟩, hfirst, hfeed⟩ := Option.bind_eq_some_iff.1 hfeed
    obtain ⟨⟨d₂, rest⟩, hrest, hpair⟩ := Option.bind_eq_some_iff.1 hfeed
    cases hpair
    rw [List.flatten_cons, ← List.append_assoc] at htext
    obtain ⟨hdone, hclean⟩ := done_of_feed h halone htext hfirst
    refine ⟨fun hnot => absurd ?_ hnot, hclean, ih hdone htext hrest⟩
    obtain ⟨ht, -⟩ := h
    rw [ht, upToCall]
    simp only [List.append_assoc]
    exact c.infix_head_append _

/-- **Only then is the call detected**, by induction on the chunks. -/
theorem clean_of_feedAll {chunks : List Text} (h : c.Phase t d) (halone : c.Alone)
    (hunique : c.Unique fromStr call) (hcall : parseToolCallJson fromStr c.payload.trim = some call)
    (htext : t ++ chunks.flatten = c.text)
    (hfeed : feedAll fromStr fuel d chunks = some (d', [call])) :
    c.ClosesAtEnd ∧ c.CleanCuts t chunks := by
  have hopen : c.opening ≠ [] := fun hnil => halone.2 (by rw [hnil]; exact List.nil_infix)
  induction chunks generalizing t d with
  | nil =>
    cases hfeed
  | cons chunk chunks ih =>
    obtain ⟨⟨d₁, r⟩, hfirst, hfeed⟩ := Option.bind_eq_some_iff.1 hfeed
    obtain ⟨⟨d₂, rest⟩, hrest, hpair⟩ := Option.bind_eq_some_iff.1 hfeed
    obtain ⟨rfl, hcalls⟩ := Prod.mk.inj (Option.some.inj hpair)
    rw [List.flatten_cons, ← List.append_assoc] at htext
    obtain ⟨hclean, hcases⟩ := cases_of_feed h halone hopen hcall htext hfirst
    have hbehind (s : Text) (hs : t = c.upToCall ++ s) :
        CleanTail (c.opening.len - 1) (s ++ chunk) :=
      absurd hs (not_upToCall_of_phase h s)
    rcases hcases with ⟨rfl, hphase⟩ | ⟨rfl, hclose, hdone⟩ | ⟨b, hb, hlost, helsewhere⟩
    · have hcalls : rest = [call] := hcalls
      rw [hcalls] at hrest
      obtain ⟨hclose, hcuts⟩ := ih hphase htext hrest
      exact ⟨hclose, hclean, hbehind, hcuts⟩
    · exact ⟨hclose, hclean, hbehind, clean_of_done hdone halone htext hrest⟩
    · exfalso
      rw [hb, text_eq, List.append_assoc] at htext
      have hu := List.append_cancel_left htext
      have hmem : call ∈ r.toList ++ rest := by
        rw [hcalls]
        exact List.mem_singleton_self call
      rcases List.mem_append.1 hmem with hmem | hmem
      · exact hunique.not_elsewhere ⟨_, hu⟩ (helsewhere call (Option.mem_toList.1 hmem))
      · exact not_mem_of_lost hopen hunique hlost hu hrest hmem

end CallText

/-- Fed in chunks, the detector finds the call, once, and nothing else. -/
def DetectsOnce (fromStr : Text → Option Schema.Value) (grammar : ToolCallGrammar)
    (chunks : List Text) (call : ToolCall) : Prop :=
  ∃ fuel detector, feedAll fromStr fuel (ToolCallDetector.new grammar) chunks =
    some (detector, [call])

/-- **When a call is detected.**  It is enough that the closing marker is not found before the end
of the call and that no cut splits a character; and where the call stands in the text only once,
this is also necessary. -/
theorem detects_once (fromStr : Text → Option Schema.Value) (c : CallText) (chunks : List Text)
    (call : ToolCall) (hcall : parseToolCallJson fromStr c.payload.trim = some call)
    (hchunks : chunks.flatten = c.text) :
    (c.Alone → c.ClosesAtEnd → c.CleanCuts [] chunks →
      DetectsOnce fromStr c.grammar chunks call) ∧
    (c.Alone → c.Unique fromStr call → DetectsOnce fromStr c.grammar chunks call →
      c.ClosesAtEnd ∧ c.CleanCuts [] chunks) := by
  have hstart (halone : c.Alone) : c.Phase [] (ToolCallDetector.new c.grammar) := by
    refine .seeking (fun hin => halone.2 ?_) (tail_self _ _)
    rw [List.infix_nil.1 hin]
    exact List.nil_infix
  constructor
  · intro halone hclose hclean
    obtain ⟨d, hfeed⟩ :=
      CallText.feedAll_of_phase (hstart halone) halone hclose hcall hchunks hclean
    exact ⟨2, d, hfeed⟩
  · rintro halone hunique ⟨fuel, d, hfeed⟩
    exact CallText.clean_of_feedAll (hstart halone) halone hunique hcall hchunks hfeed

/-- The value of `{"name":"f","args":[1]}`. -/
def exampleValue : Schema.Value :=
  .object [("name", .string "f"), ("args", .array [.number (.posInt 1)])]

/-- A call whose arguments are an array. -/
def exampleCall (grammar : ToolCallGrammar) : CallText :=
  ⟨grammar, [], "\x7b\"name\":\"f\",\"args\":[1]\x7d".toList, []⟩

/-- The parser, as far as the example needs it. -/
def exampleFromStr (t : Text) : Option Schema.Value :=
  if t = (exampleCall .qwen).payload then some exampleValue else none

theorem detects_once_qwen : DetectsOnce exampleFromStr .qwen
    ["<tool".toList, (exampleCall .qwen).text.drop 5] ⟨"f", .array [.number (.posInt 1)]⟩ := by
  have hbefore : ∀ s, "<tool".toList ≠ (exampleCall .qwen).upToCall ++ s := by
    intro s hs
    have hlen := congrArg List.length hs
    rw [List.length_append] at hlen
    have hlong : 5 < (exampleCall .qwen).upToCall.length := by decide
    have hshort : "<tool".toList.length = 5 := rfl
    omega
  refine (detects_once exampleFromStr (exampleCall .qwen) _ _ rfl rfl).1 ?_ ?_ ?_
  · exact ⟨by decide, by decide⟩
  · change Text.First _ _
    decide
  · refine ⟨fun _ => by decide, fun s hs => ?_, fun hnot => absurd ?_ hnot,
      fun s hs => absurd hs (hbefore s), trivial⟩
    · have hlen := congrArg List.length hs
      rw [List.length_append] at hlen
      have hlong : 0 < (exampleCall .qwen).upToCall.length := by decide
      rw [List.length_nil] at hlen
      omega
    · decide

/-- The same call in the grammar whose closing marker is a bracket is lost. -/
theorem not_detectsOnce_mistral : (exampleCall .mistral).Alone ∧
    parseToolCallJson exampleFromStr (exampleCall .mistral).payload.trim =
      some ⟨"f", .array [.number (.posInt 1)]⟩ ∧
    ¬ DetectsOnce exampleFromStr .mistral [(exampleCall .mistral).text]
      ⟨"f", .array [.number (.posInt 1)]⟩ := by
  refine ⟨⟨by decide, by decide⟩, rfl, ?_⟩
  rintro ⟨fuel, detector, hfeed⟩
  -- Three iterations are enough for the detector to be idle again, without a call.
  have hidle (k : ℕ) : feedAll exampleFromStr (k + 3) (ToolCallDetector.new .mistral)
      [(exampleCall .mistral).text] = some (⟨.mistral, .idle, "\x7d]".toList⟩, []) := rfl
  rcases fuel with - | - | - | k
  · contradiction
  · contradiction
  · contradiction
  · rw [hidle] at hfeed
    cases hfeed

end Runtime

end Oxillama
