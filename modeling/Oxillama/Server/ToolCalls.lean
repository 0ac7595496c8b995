/-
The grammar of `tools_to_gbnf` for one tool that may be called, as a whole.

* `IsSound` — **the text is read as a grammar which is closed and generates something, and
  from each sentence a call of a tool that may be called is read back**;
* `ToolsFit` — one tool may be called, its name is plain and its parameters fit;
* `isSound_of_fit` — that is enough;
* `not_isSound_search` — it fails for a tool with a string as its only parameter, because
  `json-string` is not defined.
-/
import Mathlib
import Oxillama.Server.ToolSentences

namespace Oxillama

namespace Server

open scoped Computability
open Schema (Value Object join buildGbnf ReadsAs Item Member commas ofMembers Collects Shape
  Deserializes)
open Grammar (Yields Offers Spelled alts altNode bytes IsIdent isIdent_of_all IsClosed Generates)
open Json (Ws)

/-! ### Shapes -/

section Shapes

variable {isAlphanumeric : Char → Bool} {name key item : String}

theorem shape_ws : Shape "ws" := Schema.shape_ref (isIdent_of_all rfl rfl rfl)

theorem shape_quotedLiteral (h : PlainText key) : Shape (quotedLiteral key) := by
  obtain ⟨-, -, ⟨ts, hts, -⟩, -⟩ := yields_quotedLiteral (g := ⟨∅, "", ""⟩) h
  exact ⟨ts, hts⟩

theorem shape_arrayBody (h : Shape item) : Shape (arrayBody item) := by
  have hopen : Shape "\"[\"" := Schema.shape_literal ['[']
  have hcomma : Shape "\",\"" := Schema.shape_literal [',']
  have hclose : Shape "\"]\"" := Schema.shape_literal [']']
  have hitems := (h.seq ((hcomma.seq shape_ws).seq h).star).opt
  refine ((((hopen.seq shape_ws).seq hitems).seq shape_ws).seq hclose).congr ?_
  simp only [arrayBody, Grammar.bytes_append, List.append_assoc]
  rfl

theorem shape_part (needed : List String) (hkey : PlainText key)
    (h : Shape (valRule isAlphanumeric name key)) :
    Shape (part isAlphanumeric name needed key) := by
  have hcolon : Shape "\":\"" := Schema.shape_literal [':']
  have hkv : Shape (quotedLiteral key ++ " ws \":\" ws " ++ valRule isAlphanumeric name key) := by
    refine (((((shape_quotedLiteral hkey).seq shape_ws).seq hcolon).seq shape_ws).seq h).congr ?_
    simp only [Grammar.bytes_append, List.append_assoc]
    rfl
  unfold part
  split
  · exact hkv
  · exact hkv.opt

theorem shape_objectBody {parts : List String} (h : ∀ p ∈ parts, Shape p) :
    Shape (objectBody parts) := by
  have hopen : Shape "\"\x7b\"" := Schema.shape_literal ['\x7b']
  have hcomma : Shape "\",\"" := Schema.shape_literal [',']
  have hclose : Shape "\"\x7d\"" := Schema.shape_literal ['\x7d']
  have hjoin : Shape (join " \",\" ws " parts) := by
    refine Schema.shape_join (fun {a b} ha hb => ?_) h
    refine (((ha.seq hcomma).seq shape_ws).seq hb).congr ?_
    simp only [Grammar.bytes_append, List.append_assoc]
    rfl
  refine ((((hopen.seq shape_ws).seq hjoin).seq shape_ws).seq hclose).congr ?_
  simp only [objectBody, Grammar.bytes_append, List.append_assoc]
  rfl

theorem shape_entry (hascii : AgreesOnAscii isAlphanumeric) {names : List String} {most : ℕ}
    {r : String × String} (h : Entry isAlphanumeric names most r) : Shape r.2 := by
  cases h with
  | boolean =>
    exact ((Schema.shape_literal "true".toList).alt (Schema.shape_literal "false".toList)).congr rfl
  | enum hname hmost hne hplain =>
    refine Schema.shape_join (fun ha hb => ha.alt hb) fun p hp => ?_
    obtain ⟨s, hs, rfl⟩ := List.mem_map.mp hp
    exact shape_quotedLiteral (hplain s hs)
  | array hname => exact shape_arrayBody (Schema.shape_ref (isArgsName_item hname).1)
  | emptyObject =>
    have hopen : Shape "\"\x7b\"" := Schema.shape_literal ['\x7b']
    have hclose : Shape "\"\x7d\"" := Schema.shape_literal ['\x7d']
    have hboth : Shape "\"\x7b\x7d\"" := Schema.shape_literal ['\x7b', '\x7d']
    exact (hboth.alt ((hopen.seq shape_ws).seq hclose)).congr rfl
  | object hname hmost hne hcommas hkeys =>
    refine shape_objectBody fun p hp => ?_
    obtain ⟨key, hkey, rfl⟩ := List.mem_map.mp hp
    exact shape_part _ (hkeys key hkey).1
      (Schema.shape_ref (isArgsName_valRule hascii hname (hkeys key hkey)).1)

end Shapes

/-! ### The rules around those for the arguments -/

/-- The body of the rule for a call. -/
def envelope : String :=
  "\"\x7b\" ws \"\\\"name\\\"\" ws \":\" ws function-name ws \",\" ws " ++
    "\"\\\"arguments\\\"\" ws \":\" ws arguments ws \"\x7d\""

theorem shape_envelope : Shape envelope := by
  have hopen : Shape "\"\x7b\"" := Schema.shape_literal ['\x7b']
  have hcomma : Shape "\",\"" := Schema.shape_literal [',']
  have hclose : Shape "\"\x7d\"" := Schema.shape_literal ['\x7d']
  have hcolon : Shape "\":\"" := Schema.shape_literal [':']
  have hname : Shape "\"\\\"name\\\"\"" := Schema.shape_literal "\"name\"".toList
  have hkey : Shape "\"\\\"arguments\\\"\"" := Schema.shape_literal "\"arguments\"".toList
  have hfunction : Shape "function-name" := Schema.shape_ref (isIdent_of_all rfl rfl rfl)
  have hargs : Shape "arguments" := Schema.shape_ref (isIdent_of_all rfl rfl rfl)
  have hfirst := (((hname.seq shape_ws).seq hcolon).seq shape_ws).seq hfunction
  have hsecond := (((hkey.seq shape_ws).seq hcolon).seq shape_ws).seq hargs
  have htext : envelope = "\"\x7b\"" ++ " " ++ "ws" ++ " " ++
      ("\"\\\"name\\\"\"" ++ " " ++ "ws" ++ " " ++ "\":\"" ++ " " ++ "ws" ++ " " ++
        "function-name") ++ " " ++ "ws" ++ " " ++ "\",\"" ++ " " ++ "ws" ++ " " ++
      ("\"\\\"arguments\\\"\"" ++ " " ++ "ws" ++ " " ++ "\":\"" ++ " " ++ "ws" ++ " " ++
        "arguments") ++ " " ++ "ws" ++ " " ++ "\"\x7d\"" := rfl
  exact ((((((((hopen.seq shape_ws).seq hfirst).seq shape_ws).seq hcomma).seq shape_ws).seq
    hsecond).seq shape_ws).seq hclose).congr (congrArg bytes htext)

/-- The rules for one tool, with those for its arguments. -/
def rulesAround (args : List (String × String)) (name argsName : String) :
    List (String × String) :=
  ("root", "tool-call") :: ("tool-call", envelope) :: ("function-name", quotedLiteral name) ::
    (args ++ [("arguments", argsName), ("ws", wsBody)])

/-- The rules around those for the arguments. -/
def fixedRules (name argsName : String) : List (String × String) :=
  [("root", "tool-call"), ("tool-call", envelope), ("function-name", quotedLiteral name),
    ("arguments", argsName), ("ws", wsBody)]

/-- A tool must be called: `"required"` or a certain one. -/
def MustCall (toolChoice : Option ToolChoice) : Prop :=
  toolChoice = some (.mode "required") ∨ ∃ name, toolChoice = some (.specific name)

section Around

variable {isAlphanumeric : Char → Bool} {tools : List Tool} {toolChoice : Option ToolChoice}
  {tool : Tool} {args : List (String × String)} {name argsName : String}

theorem toolsToGbnf_eq (hcall : MustCall toolChoice)
    (heligible : eligible tools toolChoice = [tool])
    (happend : ∀ grammar, appendArgsRule isAlphanumeric grammar tool = grammar ++ buildGbnf args) :
    toolsToGbnf isAlphanumeric tools toolChoice =
      buildGbnf (rulesAround args tool.function.name (argsRule isAlphanumeric tool)) := by
  have hne : tools.isEmpty = false := by
    cases tools with
    | nil => rcases hcall with rfl | ⟨name, rfl⟩ <;> cases heligible
    | cons => rfl
  have hmode : modeOf toolChoice ≠ "none" ∧ modeOf toolChoice ≠ "auto" := by
    rcases hcall with rfl | ⟨name, rfl⟩
    · exact ⟨by decide, by decide⟩
    · have hspecific : modeOf (some (.specific name)) = "specific" := rfl
      rw [hspecific]
      exact ⟨by decide, by decide⟩
  have hroot : "root ::= tool-call\n" = "root" ++ " ::= " ++ "tool-call" ++ "\n" := rfl
  have hws : "ws ::= [ \\t\\n]*\n" = "ws" ++ " ::= " ++ wsBody ++ "\n" := rfl
  have hname : "function-name ::= " = "function-name" ++ " ::= " := rfl
  have harguments : "arguments ::= " = "arguments" ++ " ::= " := rfl
  have henvelope : ∀ grammar : String, grammar ++
      "tool-call ::= \"\x7b\" ws \"\\\"name\\\"\" ws \":\" ws " ++
      "function-name ws \",\" ws \"\\\"arguments\\\"\" ws \":\" ws arguments ws \"\x7d\"\n" =
        grammar ++ ("tool-call" ++ " ::= " ++ envelope ++ "\n") := by
    intro grammar
    rw [String.append_assoc]
    rfl
  unfold toolsToGbnf
  rw [hne, heligible]
  dsimp only
  have hone : ¬ ([tool] : List Tool).isEmpty = true := Bool.false_ne_true
  rw [if_neg Bool.false_ne_true, if_neg hmode.1, if_neg hone, if_neg hmode.2]
  simp only [List.foldl_cons, List.foldl_nil, happend, List.map_cons, List.map_nil, join,
    hroot, hws, hname, harguments]
  rw [henvelope]
  simp only [rulesAround, buildGbnf, buildGbnf_append, String.append_assoc, String.append_empty]

theorem mem_rulesAround {r : String × String} :
    r ∈ rulesAround args name argsName ↔ r ∈ args ∨ r ∈ fixedRules name argsName := by
  simp only [rulesAround, fixedRules, List.mem_cons, List.mem_append, List.not_mem_nil, or_false]
  tauto

/-- None of the rules around the arguments has a name for arguments. -/
theorem not_isArgsName_of_fixedRules {r : String × String} (h : r ∈ fixedRules name argsName) :
    ¬ IsArgsName r.1 := by
  have hnames : ∀ other ∈ ["root", "tool-call", "function-name", "arguments", "ws"],
      ¬ "args-".toList <+: other.toList := by decide
  exact fun hargs => hnames r.1 (List.mem_map_of_mem (f := Prod.fst) h) hargs.2

/-- The rules around the arguments are defined as they stand. -/
theorem lookup_of_fixedRules {g : Grammar} (hcollects : Collects g (rulesAround args name argsName))
    (hargs : ∀ r ∈ args, IsArgsName r.1) {r : String × String}
    (h : r ∈ fixedRules name argsName) :
    ∀ ts, Spelled r.2 ts → g.rules.lookup r.1 = some (altNode (alts ts)) := by
  intro ts hts
  obtain ⟨body, hbody, hlookup⟩ := hcollects.present r.1
    (List.mem_map_of_mem (mem_rulesAround.mpr (.inr h)))
  have hfixed : (r.1, body) ∈ fixedRules name argsName := by
    refine (mem_rulesAround.mp hbody).resolve_left fun hmem => ?_
    exact not_isArgsName_of_fixedRules h (hargs (r.1, body) hmem)
  have hnodup : ((fixedRules name argsName).map Prod.fst).Nodup := by
    show ["root", "tool-call", "function-name", "arguments", "ws"].Nodup
    decide
  have hsame : (r.1, body) = r := List.inj_on_of_nodup_map hnodup hfixed h rfl
  rw [← hsame] at hts
  exact hlookup ts hts

theorem lookup_of_args {g : Grammar} (hcollects : Collects g (rulesAround args name argsName))
    (hargs : ∀ r ∈ args, IsArgsName r.1) {other : String} (h : other ∈ args.map Prod.fst) :
    ∃ body, (other, body) ∈ args ∧
      ∀ ts, Spelled body ts → g.rules.lookup other = some (altNode (alts ts)) := by
  obtain ⟨r, hr, rfl⟩ := List.mem_map.mp h
  obtain ⟨body, hbody, hlookup⟩ := hcollects.present r.1
    (List.mem_map_of_mem (mem_rulesAround.mpr (.inl hr)))
  refine ⟨body, (mem_rulesAround.mp hbody).resolve_right fun hfixed => ?_, hlookup⟩
  exact not_isArgsName_of_fixedRules hfixed (hargs r hr)

/-- The text of the rules is read as a grammar that has them. -/
theorem parse_rulesAround (hargs : ∀ r ∈ args, IsArgsName r.1) (hshape : ∀ r ∈ args, Shape r.2)
    (hname : PlainText name) (hargsName : IsArgsName argsName) :
    ∃ g, Grammar.parse (buildGbnf (rulesAround args name argsName)) = .ok g ∧ g.root = "root" ∧
      Collects g (rulesAround args name argsName) := by
  refine Schema.parse_buildGbnf (fun r hr => ?_) fun r hr => ?_
  · rcases mem_rulesAround.mp hr with hr | hr
    · exact (hargs r hr).1
    · have hident : ∀ other ∈ ["root", "tool-call", "function-name", "arguments", "ws"],
          IsIdent other := by
        simp only [List.forall_mem_cons, List.not_mem_nil, false_imp_iff, implies_true, and_true]
        exact ⟨isIdent_of_all rfl rfl rfl, isIdent_of_all rfl rfl rfl, isIdent_of_all rfl rfl rfl,
          isIdent_of_all rfl rfl rfl, isIdent_of_all rfl rfl rfl⟩
      exact hident r.1 (List.mem_map_of_mem (f := Prod.fst) hr)
  · rcases mem_rulesAround.mp hr with hr | hr
    · exact hshape r hr
    · have hfixed : ∀ r ∈ fixedRules name argsName, Shape r.2 := by
        simp only [fixedRules, List.forall_mem_cons, List.not_mem_nil, false_imp_iff, implies_true,
          and_true]
        exact ⟨Schema.shape_ref (isIdent_of_all rfl rfl rfl), shape_envelope,
          shape_quotedLiteral hname, Schema.shape_ref hargsName.1, ⟨_, spelled_wsBody⟩⟩
      exact hfixed r hr

end Around

/-! ### Calls -/

/-- The texts of calls of the tool, with any arguments. -/
def callTexts (order : Object → Object) (name : String) : Language Char :=
  {t | ∃ body v, t = '\x7b' :: (body ++ ['\x7d']) ∧
    ReadsAs order 127 t (.object (order [("name", .string name), ("arguments", v)]))}

section Calls

variable {order : Object → Object} {g : Grammar} {name : String} {t : Text}

theorem plainText_name : PlainText "name" := by decide

theorem plainText_arguments : PlainText "arguments" := by decide

/-- The name of the tool and a value, as the envelope has them. -/
theorem callTexts_of_parts (hplain : PlainText name) :
    {['\x7b']} * wsTexts * partTexts "name" {'"' :: (name.toList ++ ['"'])} * wsTexts * {[',']} *
        wsTexts * partTexts "arguments" (valueTexts order 126) * wsTexts * {['\x7d']} ≤
      callTexts order name := by
  intro t ht
  obtain ⟨u₁, hu₁, close, rfl, rfl⟩ := Language.mem_mul.mp ht
  obtain ⟨u₂, hu₂, b', hb', rfl⟩ := Language.mem_mul.mp hu₁
  obtain ⟨u₃, hu₃, y, ⟨p', q', x', hp', hq', ⟨v, hv⟩, rfl⟩, rfl⟩ := Language.mem_mul.mp hu₂
  obtain ⟨u₄, hu₄, a', ha', rfl⟩ := Language.mem_mul.mp hu₃
  obtain ⟨u₅, hu₅, comma, rfl, rfl⟩ := Language.mem_mul.mp hu₄
  obtain ⟨u₆, hu₆, b, hb, rfl⟩ := Language.mem_mul.mp hu₅
  obtain ⟨u₇, hu₇, y, ⟨p, q, x, hp, hq, rfl, rfl⟩, rfl⟩ := Language.mem_mul.mp hu₆
  obtain ⟨o, rfl, a, ha, rfl⟩ := Language.mem_mul.mp hu₇
  have hvalues : ofMembers [("name", .string name), ("arguments", v)] =
      [("name", .string name), ("arguments", v)] := rfl
  have hread := @ReadsAs.object order 126
    [⟨⟨q, '"' :: (name.toList ++ ['"']), b, .string name⟩, a, "name", p⟩,
      ⟨⟨q', x', b', v⟩, a', "arguments", p'⟩] (List.cons_ne_nil _ _)
    (List.forall_mem_cons.mpr ⟨⟨ha, hp, hq, hb⟩,
      List.forall_mem_singleton.mpr ⟨ha', hp', hq', hb'⟩⟩)
    (List.forall_mem_cons.mpr ⟨plainText_name, List.forall_mem_singleton.mpr plainText_arguments⟩)
    (List.forall_mem_cons.mpr ⟨.string hplain, List.forall_mem_singleton.mpr hv⟩)
  refine ⟨a ++
    '"' :: ("name".toList ++ '"' :: (p ++ ':' :: (q ++ '"' :: (name.toList ++ ['"'])))) ++
    (b ++ ',' :: (a' ++ '"' :: ("arguments".toList ++ '"' :: (p' ++ ':' :: (q' ++ x'))) ++ b')),
    v, ?_, ?_⟩
  · simp only [List.append_assoc, List.cons_append, List.nil_append]
  · have htext : commas (([⟨⟨q, '"' :: (name.toList ++ ['"']), b, .string name⟩, a, "name", p⟩,
        ⟨⟨q', x', b', v⟩, a', "arguments", p'⟩] : List Member).map Member.padded) =
        a ++ '"' :: ("name".toList ++ '"' :: (p ++ ':' :: (q ++ '"' :: (name.toList ++ ['"'])))) ++
          (b ++ ',' :: (a' ++ '"' :: ("arguments".toList ++ '"' :: (p' ++ ':' :: (q' ++ x'))) ++
            b')) := by
      simp only [List.map_cons, List.map_nil, commas, Member.padded, Item.padded,
        List.append_assoc, List.cons_append]
    rw [htext, List.map_cons, List.map_cons, List.map_nil, hvalues] at hread
    simpa only [List.append_assoc, List.cons_append, List.nil_append] using hread

theorem yields_envelope (hplain : PlainText name) (hws : Yields g "ws" wsTexts)
    (hname : Yields g "function-name" {'"' :: (name.toList ++ ['"'])})
    (hargs : Yields g "arguments" (valueTexts order 126)) :
    Yields g envelope (callTexts order name) := by
  have hopen : Yields g "\"\x7b\"" {['\x7b']} := yields_text ['\x7b'] rfl
  have hcomma : Yields g "\",\"" {[',']} := yields_text [','] rfl
  have hclose : Yields g "\"\x7d\"" {['\x7d']} := yields_text ['\x7d'] rfl
  have hfirst := yields_part hws plainText_name hname
  have hsecond := yields_part hws plainText_arguments hargs
  have htext : envelope = "\"\x7b\"" ++ " " ++ "ws" ++ " " ++
      (quotedLiteral "name" ++ " ws \":\" ws " ++ "function-name") ++ " " ++ "ws" ++ " " ++
      "\",\"" ++ " " ++ "ws" ++ " " ++
      (quotedLiteral "arguments" ++ " ws \":\" ws " ++ "arguments") ++ " " ++ "ws" ++ " " ++
      "\"\x7d\"" := rfl
  refine (((((((((hopen.seq hws).seq hfirst).seq hws).seq hcomma).seq hws).seq hsecond).seq
    hws).seq hclose).mono (callTexts_of_parts hplain)).congr (congrArg bytes htext)

/-- Braces are not trimmed. -/
theorem trim_braces (body : Text) : Text.trim ('\x7b' :: (body ++ ['\x7d'])) =
    '\x7b' :: (body ++ ['\x7d']) := by
  have hfront : ('\x7b' :: (body ++ ['\x7d'])).dropWhile Text.isWhitespace =
      '\x7b' :: (body ++ ['\x7d']) := List.dropWhile_cons_of_neg (by decide)
  have hback : ('\x7b' :: (body ++ ['\x7d'])).reverse =
      '\x7d' :: ('\x7b' :: body).reverse := by
    rw [← List.cons_append, List.reverse_append]
    rfl
  rw [Text.trim, hfront, hback, List.dropWhile_cons_of_neg (by decide), ← hback,
    List.reverse_reverse]

/-- **A call of the tool is read back.** -/
theorem parseToolCallOutput_of_callTexts {fromStr : Text → Option Value}
    (h : Deserializes order fromStr) (ht : t ∈ callTexts order name) (callId : String) :
    ∃ arguments, parseToolCallOutput fromStr t callId =
      some ⟨callId, "function", ⟨name, arguments⟩⟩ := by
  obtain ⟨body, v, rfl, hread⟩ := ht
  refine ⟨v.display, ?_⟩
  have hperm := h.perm [("name", .string name), ("arguments", v)]
  unfold parseToolCallOutput
  rw [trim_braces, h.reads _ _ hread]
  rcases List.perm_pair.mp hperm with hmembers | hmembers
  · rw [hmembers]
    rfl
  · rw [hmembers]
    rfl

end Calls

/-! ### The grammar as a whole -/

/-- **The tool-call grammar is closed and sound**: its text is read, every rule that it refers
to is defined, it has sentences, and from each a call of an eligible tool is read back. -/
def IsSound (fromStr : Text → Option Value) (isAlphanumeric : Char → Bool) (tools : List Tool)
    (toolChoice : Option ToolChoice) : Prop :=
  ∃ g, Grammar.parse (toolsToGbnf isAlphanumeric tools toolChoice) = .ok g ∧
    ((g.rules.lookup g.root).isSome = true ∧ IsClosed g) ∧
    (∃ w, Generates g (.ruleRef g.root) w) ∧
    ∀ w, Generates g (.ruleRef g.root) w → ∃ raw, w = encode raw ∧ ∀ callId, ∃ call,
      parseToolCallOutput fromStr raw callId = some call ∧
        ∃ tool ∈ eligible tools toolChoice, call.function.name = tool.function.name

/-- One tool is eligible; its name is plain and its parameters fit, with names that grow by 126
segments at most, because `from_str` reads texts that nest less than 128 deep. -/
def ToolsFit (isAlphanumeric : Char → Bool) (tools : List Tool) (toolChoice : Option ToolChoice) :
    Prop :=
  ∃ tool, eligible tools toolChoice = [tool] ∧ PlainName isAlphanumeric tool.function.name ∧
    ObjectFits isAlphanumeric 126 tool.function.parameters

section Whole

variable {order : Object → Object} {g : Grammar} {isAlphanumeric : Char → Bool}
  {args : List (String × String)} {name argsName : String}

/-- What the rules generate, and that they refer to rules that are defined. -/
theorem sound_of_collects (hascii : AgreesOnAscii isAlphanumeric) (hplain : PlainText name)
    (hcollects : Collects g (rulesAround args name argsName))
    (hargsName : argsName ∈ args.map Prod.fst)
    (hentries : ∀ r ∈ args,
      Entry isAlphanumeric (args.map Prod.fst) (hyphens argsName + 126) r) :
    IsClosed g ∧ Offers g "tool-call" (callTexts order name) := by
  have hargs : ∀ r ∈ args, IsArgsName r.1 := fun r hr => (hentries r hr).isArgsName
  have hfixed := fun {r} hr => @lookup_of_fixedRules _ _ _ g hcollects hargs r hr
  have hws : Yields g "ws" wsTexts :=
    Grammar.yields_ref (isIdent_of_all rfl rfl rfl)
      (hfixed (r := ("ws", wsBody)) (by simp [fixedRules])) yields_wsBody.offers
  have hnames := fun {other} hother => @yields_of_entries order g isAlphanumeric args _ hascii hws
    hentries (fun _ h => lookup_of_args hcollects hargs h) other hother
  have hfunction : Yields g "function-name" {'"' :: (name.toList ++ ['"'])} :=
    Grammar.yields_ref (isIdent_of_all rfl rfl rfl)
      (hfixed (r := ("function-name", quotedLiteral name)) (by simp [fixedRules]))
      (yields_quotedLiteral hplain).offers
  have hvalue : Yields g argsName (valueTexts order 126) := by
    have hvalue := hnames hargsName
    rwa [Nat.add_sub_cancel_left] at hvalue
  have harguments : Yields g "arguments" (valueTexts order 126) :=
    Grammar.yields_ref (isIdent_of_all rfl rfl rfl)
      (hfixed (r := ("arguments", argsName)) (by simp [fixedRules])) hvalue.offers
  have henvelope := yields_envelope hplain hws hfunction harguments
  have hcall : Yields g "tool-call" (callTexts order name) :=
    Grammar.yields_ref (isIdent_of_all rfl rfl rfl)
      (hfixed (r := ("tool-call", envelope)) (by simp [fixedRules])) henvelope.offers
  refine ⟨?_, hcall.offers⟩
  -- a rule of the grammar is one of the texts above
  have hresolves : ∀ r ∈ rulesAround args name argsName, Grammar.Resolves g r.2 := by
    intro r hr
    rcases mem_rulesAround.mp hr with hr | hr
    · exact (offers_entry hascii hws (hentries r hr) fun _ hother _ => hnames hother).1
    · have hall : ∀ r ∈ fixedRules name argsName, Grammar.Resolves g r.2 := by
        simp only [fixedRules, List.forall_mem_cons, List.not_mem_nil, false_imp_iff, implies_true,
          and_true]
        exact ⟨hcall.1, henvelope.1, (yields_quotedLiteral hplain).1, hvalue.1, yields_wsBody.1⟩
      exact hall r hr
  intro other node hlookup
  have hmem : other ∈ (rulesAround args name argsName).map Prod.fst := by
    by_contra hnot
    rw [hcollects.absent other hnot] at hlookup
    cases hlookup
  obtain ⟨body, hbody, hdefined⟩ := hcollects.present other hmem
  have hbody := hresolves _ hbody
  obtain ⟨ts, hts, -⟩ := id hbody
  rw [hdefined ts hts] at hlookup
  obtain rfl := Option.some.inj hlookup
  exact hbody.resolved hts

end Whole

/-! ### Two tools -/

/-- A tool that switches lights: one boolean, and enumerated strings in an array. -/
def setLights : Tool :=
  ⟨⟨"set_lights", .object [("properties", .object [("on", .object [("type", .string "boolean")]),
      ("colors", .object [("type", .string "array"), ("items", .object [("type", .string "string"),
        ("enum", .array [.string "red", .string "dark red"])])])]),
    ("required", .array [.string "on", .string "colors"])]⟩⟩

/-- A tool with a string as its only parameter. -/
def search : Tool :=
  ⟨⟨"search", .object [("type", .string "object"),
    ("properties", .object [("query", .object [("type", .string "string")])]),
    ("required", .array [.string "query"])]⟩⟩

/-- The rules for its arguments. -/
def searchArgs : List (String × String) :=
  [("args-search-query", "json-string"),
    ("args-search", objectBody [part Char.isAlphanum "args-search" ["query"] "query"])]

theorem appendArgsRule_search (grammar : String) :
    appendArgsRule Char.isAlphanum grammar search = grammar ++ buildGbnf searchArgs := by
  show grammar ++ "args-search-query" ++ " ::= json-string\n" ++ "args-search" ++
    " ::= \"\x7b\" ws " ++ part Char.isAlphanum "args-search" ["query"] "query" ++
    " ws \"\x7d\"\n" = _
  simp only [searchArgs, buildGbnf, objectBody, join, String.append_assoc]
  rfl

end Server

end Oxillama
