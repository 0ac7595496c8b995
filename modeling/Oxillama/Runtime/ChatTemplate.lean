/-
Chat templates (`oxillama-runtime/src/chat_template.rs`), as prompts are rendered with them.

Two of the four families put each turn between markers.  Contents are not escaped, so a prompt
can be told apart from others only while the markers do not occur in roles and contents.

* `framed_injective` — turns between markers are read back from their text;
* `render_injective` — **two conversations without markers in them have the same prompt only
  if they are the same**, up to the white space that the template trims.
-/
import Mathlib
import Oxillama.Lib.Str

namespace Oxillama

/-! ### Texts between markers -/

namespace Text

variable {pat a b x y : Text}

/-- Two texts that are cut at the first occurrence of a marker. -/
theorem First.cut (ha : First pat a) (hb : First pat b) (h : a ++ pat ++ x = b ++ pat ++ y) :
    a = b ∧ x = y := by
  have hle : a <+: b := ha.le h.symm
  have hge : b <+: a := hb.le h
  obtain rfl : a = b := hle.eq_of_length (Nat.le_antisymm hle.length_le hge.length_le)
  exact ⟨rfl, List.append_cancel_left h⟩

end Text

namespace Runtime

/-! ### Templates -/

/-- `Turn`. -/
structure Turn where
  role : Text
  content : Text
  deriving DecidableEq

/-- `ChatTemplate`. -/
inductive ChatTemplate
  | llama3
  | chatMl
  | mistral
  | alpaca
  deriving DecidableEq

/-- `render_llama3`. -/
def renderLlama3 (turns : List Turn) (addGenerationPrompt : Bool) : Text :=
  "<|begin_of_text|>".toList ++
    (turns.flatMap fun turn =>
      "<|start_header_id|>".toList ++ turn.role ++ "<|end_header_id|>\n\n".toList ++
        turn.content.trim ++ "<|eot_id|>".toList) ++
    if addGenerationPrompt then
      "<|start_header_id|>assistant<|end_header_id|>\n\n".toList else []

/-- `render_chatml`. -/
def renderChatml (turns : List Turn) (addGenerationPrompt : Bool) : Text :=
  (turns.flatMap fun turn =>
    "<|im_start|>".toList ++ turn.role ++ ['\n'] ++ turn.content ++ "<|im_end|>\n".toList) ++
    if addGenerationPrompt then "<|im_start|>assistant\n".toList else []

/-- `render_mistral`, which has no marker for the answer. -/
def renderMistral (turns : List Turn) (_addGenerationPrompt : Bool) : Text :=
  "<s>".toList ++ turns.flatMap fun turn =>
    if turn.role = "system".toList then turn.content.trim ++ "\n\n".toList
    else if turn.role = "user".toList then
      "[INST] ".toList ++ turn.content.trim ++ " [/INST]".toList
    else if turn.role = "assistant".toList then ' ' :: turn.content.trim ++ "</s>".toList
    else []

/-- The header of a role in `render_alpaca`. -/
def alpacaHeader (role : Text) : Text :=
  if role = "system".toList then "System".toList
  else if role = "user".toList then "Instruction".toList
  else if role = "assistant".toList then "Response".toList
  else "Unknown".toList

/-- `render_alpaca`. -/
def renderAlpaca (turns : List Turn) (addGenerationPrompt : Bool) : Text :=
  (turns.flatMap fun turn =>
    "### ".toList ++ alpacaHeader turn.role ++ ":\n".toList ++ turn.content.trim ++
      "\n\n".toList) ++
    if addGenerationPrompt then "### Response:\n".toList else []

/-- `ChatTemplate::render`. -/
def ChatTemplate.render : ChatTemplate → List Turn → Bool → Text
  | .llama3 => renderLlama3
  | .chatMl => renderChatml
  | .mistral => renderMistral
  | .alpaca => renderAlpaca

/-! ### Turns between markers -/

section Framed

variable {opening separator closing : Text}

/-- A turn between markers. -/
def frame (opening separator closing : Text) (turn : Turn) : Text :=
  opening ++ turn.role ++ separator ++ turn.content ++ closing

/-- The markers are found where they were put. -/
structure Plain (separator closing : Text) (turn : Turn) : Prop where
  role : Text.First separator turn.role
  content : Text.First closing turn.content

/-- **Turns without markers in them are read back from their text**, by induction on the turns:
each is cut off at its own markers. -/
theorem framed_injective (hclosing : closing ≠ []) {turns turns' : List Turn} (tail : Text)
    (h : ∀ turn ∈ turns, Plain separator closing turn)
    (h' : ∀ turn ∈ turns', Plain separator closing turn)
    (heq : turns.flatMap (frame opening separator closing) ++ tail =
      turns'.flatMap (frame opening separator closing) ++ tail) : turns = turns' := by
  -- a turn more is text more
  have hmore : ∀ (turn : Turn) (rest : List Turn),
      tail ≠ (turn :: rest).flatMap (frame opening separator closing) ++ tail := by
    intro turn rest hsame
    have hlen := congrArg List.length hsame
    have hpos := List.length_pos_of_ne_nil hclosing
    simp only [List.flatMap_cons, frame, List.length_append] at hlen
    omega
  induction turns generalizing turns' with
  | nil =>
    cases turns' with
    | nil => rfl
    | cons turn' rest' => exact absurd heq (hmore turn' rest')
  | cons turn rest ih =>
    cases turns' with
    | nil => exact absurd heq.symm (hmore turn rest)
    | cons turn' rest' =>
      rw [List.forall_mem_cons] at h h'
      simp only [List.flatMap_cons, frame, List.append_assoc] at heq
      have hrole := List.append_cancel_left heq
      rw [← List.append_assoc, ← List.append_assoc turn'.role] at hrole
      obtain ⟨hroles, hcontent⟩ := h.1.role.cut h'.1.role hrole
      rw [← List.append_assoc, ← List.append_assoc turn'.content] at hcontent
      obtain ⟨hcontents, hrest⟩ := h.1.content.cut h'.1.content hcontent
      have hturn : turn = turn' := by
        obtain ⟨role, content⟩ := turn
        obtain ⟨role', content'⟩ := turn'
        obtain rfl : role = role' := hroles
        obtain rfl : content = content' := hcontents
        rfl
      rw [hturn, ih h.2 h'.2 hrest]

end Framed

/-! ### Prompts -/

/-- A turn as a template sends it, and the markers behind its role and its content. -/
def ChatTemplate.sent : ChatTemplate → Turn → Turn
  | .chatMl, turn => turn
  | _, turn => { turn with content := turn.content.trim }

/-- The marker behind a role. -/
def ChatTemplate.separator : ChatTemplate → Text
  | .llama3 => "<|end_header_id|>\n\n".toList
  | .chatMl => ['\n']
  | .mistral => []
  | .alpaca => ":\n".toList

/-- The marker behind a content. -/
def ChatTemplate.closing : ChatTemplate → Text
  | .llama3 => "<|eot_id|>".toList
  | .chatMl => "<|im_end|>\n".toList
  | .mistral => []
  | .alpaca => "\n\n".toList

variable {template : ChatTemplate} {turns turns' : List Turn} {addGenerationPrompt : Bool}

theorem frame_trim (opening separator closing : Text) (turn : Turn) :
    frame opening separator closing (ChatTemplate.llama3.sent turn) =
      opening ++ turn.role ++ separator ++ turn.content.trim ++ closing := rfl

theorem frame_plain (opening separator closing : Text) (turn : Turn) :
    frame opening separator closing (ChatTemplate.chatMl.sent turn) =
      opening ++ turn.role ++ separator ++ turn.content ++ closing := rfl

theorem renderLlama3_eq (turns : List Turn) (addGenerationPrompt : Bool) :
    renderLlama3 turns addGenerationPrompt = "<|begin_of_text|>".toList ++
      ((turns.map ChatTemplate.llama3.sent).flatMap (frame "<|start_header_id|>".toList
        ChatTemplate.llama3.separator ChatTemplate.llama3.closing) ++
      if addGenerationPrompt then
        "<|start_header_id|>assistant<|end_header_id|>\n\n".toList else []) := by
  rw [List.flatMap_map, ← List.append_assoc]
  refine congrArg (fun body => "<|begin_of_text|>".toList ++ body ++ _) ?_
  exact List.flatMap_congr fun turn _ => (frame_trim _ _ _ turn).symm

theorem renderChatml_eq (turns : List Turn) (addGenerationPrompt : Bool) :
    renderChatml turns addGenerationPrompt =
      (turns.map ChatTemplate.chatMl.sent).flatMap (frame "<|im_start|>".toList
        ChatTemplate.chatMl.separator ChatTemplate.chatMl.closing) ++
      if addGenerationPrompt then "<|im_start|>assistant\n".toList else [] := by
  rw [List.flatMap_map]
  refine congrArg (fun body => body ++ _) ?_
  exact List.flatMap_congr fun turn _ => (frame_plain _ _ _ turn).symm

/-- **A prompt has one conversation.**  Where the markers of the template do not occur in what
is sent of roles and contents, two conversations with the same prompt are sent alike. -/
theorem render_injective (htemplate : template = .llama3 ∨ template = .chatMl)
    (h : ∀ turn ∈ turns, Plain template.separator template.closing (template.sent turn))
    (h' : ∀ turn ∈ turns', Plain template.separator template.closing (template.sent turn))
    (heq : template.render turns addGenerationPrompt =
      template.render turns' addGenerationPrompt) :
    turns.map template.sent = turns'.map template.sent := by
  have hplain := List.forall_mem_map.mpr h
  have hplain' := List.forall_mem_map.mpr h'
  rcases htemplate with rfl | rfl
  · rw [ChatTemplate.render, renderLlama3_eq, renderLlama3_eq] at heq
    exact framed_injective (by decide) _ hplain hplain' (List.append_cancel_left heq)
  · rw [ChatTemplate.render, renderChatml_eq, renderChatml_eq] at heq
    exact framed_injective (by decide) _ hplain hplain' heq

/-- Blanks around a content are not sent. -/
theorem render_injective_blanks :
    [(⟨"user".toList, " Hi".toList⟩ : Turn)].map ChatTemplate.llama3.sent =
      [⟨"user".toList, "Hi ".toList⟩].map ChatTemplate.llama3.sent := by
  have heq : ChatTemplate.llama3.render [⟨"user".toList, " Hi".toList⟩] true =
      ChatTemplate.llama3.render [⟨"user".toList, "Hi ".toList⟩] true := by decide
  exact render_injective (.inl rfl) (List.forall_mem_singleton.mpr ⟨by decide, by decide⟩)
    (List.forall_mem_singleton.mpr ⟨by decide, by decide⟩) heq

end Runtime

end Oxillama
