/-
The sentences of the grammar for a tool, and the calls read back from them.

* `valueTexts order d` — the JSON texts that nest at most `d` deep;
* `offers_entry` — the rule for a schema that fits generates such texts only, and some;
* `yields_of_entries` — so does each name, by induction on the hyphens that it may still grow;
* `callTexts` — what the envelope makes of the arguments: `parseToolCallOutput_of_callTexts`
  reads a call of the tool back.
-/
import Mathlib
import Oxillama.Grammar.Closed
import Oxillama.Schema.Deserialize
import Oxillama.Server.ToolRules

namespace Oxillama

namespace Server

open scoped Computability
open Schema (Value Object join buildGbnf ReadsAs Item Member commas ofMembers Collects Shape)
open Grammar (Yields Offers Spelled alts altNode bytes classLang)
open Json (Ws isWs)

/-! ### Whitespace and literals -/

/-- Whitespace. -/
def wsTexts : Language Char := {t | Ws t}

/-- The body of the rule for whitespace. -/
def wsBody : String := "[ \\t\\n]*"

section Pieces

variable {g : Grammar} {a b t : Text} {M : Language Char}

theorem readsAtom_blanks : Grammar.ReadsAtom (bytes "[ \\t\\n]")
    (.charClass [.single 0x20, .single 0x09, .single 0x0a] false) :=
  ⟨⟨0x5b, _, rfl, by decide⟩, fun _ _ _ _ pos => ⟨pos + 7, rfl⟩⟩

theorem spelled_wsBody : Spelled wsBody [.item (bytes wsBody) (.repeat
    (.charClass [.single 0x20, .single 0x09, .single 0x0a] false) 0 none)] :=
  Grammar.spelled_item (readsAtom_blanks.quantified 0x2a 0 none (by simp))

theorem yields_wsBody : Yields g wsBody wsTexts := by
  refine ⟨Grammar.resolves_item spelled_wsBody
      (Grammar.resolved_repeat (Grammar.resolved_charClass _ _)), _,
    Grammar.stands_item spelled_wsBody (Grammar.generates_star Grammar.generates_charClass), ?_⟩
  have hblank : ∀ w ∈ classLang [.single 0x20, .single 0x09, .single 0x0a] false,
      ∃ t ∈ ({t | ∃ c, isWs c = true ∧ t = [c]} : Language Char), w = encode t := by
    rintro w ⟨b, hb, rfl⟩
    have hcases : b = 0x20 ∨ b = 0x09 ∨ b = 0x0a := by
      simpa [Grammar.classMatches, Grammar.CharRange.contains, Grammar.CharRange.single,
        UInt8.le_antisymm_iff, and_comm] using hb
    rcases hcases with rfl | rfl | rfl
    · exact ⟨[' '], ⟨' ', rfl, rfl⟩, rfl⟩
    · exact ⟨['\t'], ⟨'\t', rfl, rfl⟩, rfl⟩
    · exact ⟨['\n'], ⟨'\n', rfl, rfl⟩, rfl⟩
  refine (Grammar.Encodes.kstar hblank).mono ?_
  intro t ht
  obtain ⟨ts, rfl, hts⟩ := Language.mem_kstar.mp ht
  intro c hc
  obtain ⟨u, hu, hcu⟩ := List.mem_flatten.mp hc
  obtain ⟨c', hc', rfl⟩ := hts u hu
  obtain rfl := List.mem_singleton.mp hcu
  exact hc'

/-- A literal of characters that are written as they are. -/
theorem yields_text {e : String} (cs : Text)
    (he : bytes e = bytes ("\"" ++ String.ofList (cs.flatMap Grammar.literalChar) ++ "\"")) :
    Yields g e {cs} := (Grammar.yields_literal cs).congr he

theorem literalChar_plain {s : String} (h : PlainText s) :
    s.toList.flatMap Grammar.literalChar = s.toList := by
  refine Schema.flatMap_literalChar fun c hc => ?_
  obtain ⟨hge, hquote, hslash⟩ := h c hc
  simp only [List.mem_cons, List.not_mem_nil, or_false, not_or]
  refine ⟨hquote, hslash, ?_, ?_, ?_⟩
  · rintro rfl
    revert hge
    decide
  · rintro rfl
    revert hge
    decide
  · rintro rfl
    revert hge
    decide

/-- A string between quotation marks. -/
theorem yields_quotedLiteral {s : String} (h : PlainText s) :
    Yields g (quotedLiteral s) {'"' :: (s.toList ++ ['"'])} := by
  refine yields_text _ ?_
  rw [List.flatMap_cons, List.flatMap_append, literalChar_plain h]
  simp only [quotedLiteral, Grammar.bytes_append, Grammar.bytes_ofList, encode_append,
    List.append_assoc]
  rfl

end Pieces

/-! ### Values -/

/-- The texts of values that nest at most `d` deep. -/
def valueTexts (order : Object → Object) (d : ℕ) : Language Char := {t | ∃ v, ReadsAs order d t v}

/-- A key, a colon and a text. -/
def partTexts (key : String) (V : Language Char) : Language Char :=
  {t | ∃ p q x, Ws p ∧ Ws q ∧ x ∈ V ∧
    t = '"' :: (key.toList ++ '"' :: (p ++ ':' :: (q ++ x)))}

/-- These are the members of an object that nests at most `d + 1` deep. -/
structure AreMembers (order : Object → Object) (d : ℕ) (members : List Member) : Prop where
  ne_nil : members ≠ []
  ws : ∀ m ∈ members, Ws m.beforeKey ∧ Ws m.afterKey ∧ Ws m.before ∧ Ws m.after
  keys : ∀ m ∈ members, PlainText m.key
  reads : ∀ m ∈ members, ReadsAs order d m.text m.value

/-- What may stand between the braces of an object that is not empty, but for whitespace. -/
def membersTexts (order : Object → Object) (d : ℕ) : Language Char :=
  {t | ∀ a b, Ws a → Ws b → ∃ members, AreMembers order d members ∧
    commas (members.map Member.padded) = a ++ t ++ b}

section Values

variable {order : Object → Object} {d d' : ℕ} {g : Grammar} {key item : String} {t : Text}

theorem valueTexts_mono (hle : d ≤ d') : valueTexts order d ≤ valueTexts order d' := by
  rintro t ⟨v, hv⟩
  exact ⟨v, hv.mono hle⟩

/-! ### Arrays -/

/-- Items, each after the first with a comma in front of it. -/
theorem exists_items {a x b : Text} {tail : List Text} (ha : Ws a) (hx : x ∈ valueTexts order d)
    (hb : Ws b) (htail : ∀ y ∈ tail, y ∈ ({[',']} * wsTexts * valueTexts order d)) :
    ∃ items : List Item, items ≠ [] ∧ (∀ i ∈ items, Ws i.before ∧ Ws i.after) ∧
      (∀ i ∈ items, ReadsAs order d i.text i.value) ∧
      commas (items.map Item.padded) = a ++ x ++ (tail.flatten ++ b) := by
  induction tail generalizing a x with
  | nil =>
    obtain ⟨v, hv⟩ := hx
    refine ⟨[⟨a, x, b, v⟩], List.cons_ne_nil _ _, ?_, ?_, rfl⟩
    · exact List.forall_mem_singleton.mpr ⟨ha, hb⟩
    · exact List.forall_mem_singleton.mpr hv
  | cons y tail ih =>
    obtain ⟨v, hv⟩ := hx
    obtain ⟨cw, hcw, x', hx', rfl⟩ := Language.mem_mul.mp (htail y List.mem_cons_self)
    obtain ⟨c, rfl, w, hw, rfl⟩ := Language.mem_mul.mp hcw
    obtain ⟨items, hne, hws, hreads, hcommas⟩ :=
      ih hw hx' fun z hz => htail z (List.mem_cons_of_mem _ hz)
    refine ⟨⟨a, x, [], v⟩ :: items, List.cons_ne_nil _ _, ?_, ?_, ?_⟩
    · exact List.forall_mem_cons.mpr ⟨⟨ha, Json.ws_nil⟩, hws⟩
    · exact List.forall_mem_cons.mpr ⟨hv, hreads⟩
    · rw [List.map_cons, Schema.commas_cons (mt List.map_eq_nil_iff.mp hne), hcommas]
      simp only [Item.padded, List.append_nil, List.flatten_cons, List.append_assoc,
        List.cons_append, List.nil_append]

theorem arrayTexts_le : {['[']} * wsTexts *
      (1 + valueTexts order d * ({[',']} * wsTexts * valueTexts order d)∗) * wsTexts * {[']']} ≤
    valueTexts order (d + 1) := by
  intro t ht
  obtain ⟨u₁, hu₁, close, rfl, rfl⟩ := Language.mem_mul.mp ht
  obtain ⟨u₂, hu₂, b, hb, rfl⟩ := Language.mem_mul.mp hu₁
  obtain ⟨u₃, hu₃, inner, hinner, rfl⟩ := Language.mem_mul.mp hu₂
  obtain ⟨o, rfl, a, ha, rfl⟩ := Language.mem_mul.mp hu₃
  rcases (Language.mem_add _ _ _).mp hinner with hnil | hitems
  · obtain rfl := (Language.mem_one _).mp hnil
    refine ⟨.array [], ?_⟩
    have hread : ReadsAs order (d + 1) ('[' :: ((a ++ b) ++ [']'])) (.array []) :=
      .emptyArray (Json.ws_append ha hb)
    simpa only [List.append_nil, List.append_assoc, List.cons_append, List.nil_append] using hread
  · obtain ⟨x, hx, star, hstar, rfl⟩ := Language.mem_mul.mp hitems
    obtain ⟨tail, rfl, htail⟩ := Language.mem_kstar.mp hstar
    obtain ⟨items, hne, hws, hreads, hcommas⟩ := exists_items ha hx hb htail
    refine ⟨.array (items.map Item.value), ?_⟩
    have hread := ReadsAs.array hne hws hreads
    rw [hcommas] at hread
    simpa only [List.append_assoc, List.cons_append, List.nil_append] using hread

theorem yields_arrayBody (hws : Yields g "ws" wsTexts) (h : Yields g item (valueTexts order d)) :
    Yields g (arrayBody item) (valueTexts order (d + 1)) := by
  have hopen : Yields g "\"[\"" {['[']} := yields_text ['['] rfl
  have hcomma : Yields g "\",\"" {[',']} := yields_text [','] rfl
  have hclose : Yields g "\"]\"" {[']']} := yields_text [']'] rfl
  have hitems := (h.seq ((hcomma.seq hws).seq h).offers.star).offers.opt
  refine ((((hopen.seq hws).seq hitems).seq hws).seq hclose).mono arrayTexts_le |>.congr ?_
  simp only [arrayBody, Grammar.bytes_append, List.append_assoc]
  rfl

/-! ### Objects -/

theorem part_le_members (hkey : PlainText key) :
    partTexts key (valueTexts order d) ≤ membersTexts order d := by
  rintro t ⟨p, q, x, hp, hq, ⟨v, hv⟩, rfl⟩ a b ha hb
  refine ⟨[⟨⟨q, x, b, v⟩, a, key, p⟩], ⟨List.cons_ne_nil _ _, ?_, ?_, ?_⟩, ?_⟩
  · exact List.forall_mem_singleton.mpr ⟨ha, hp, hq, hb⟩
  · exact List.forall_mem_singleton.mpr hkey
  · exact List.forall_mem_singleton.mpr hv
  · simp only [List.map_cons, List.map_nil, commas, Member.padded, Item.padded, List.append_assoc,
      List.cons_append]

theorem part_comma_le_members (hkey : PlainText key) :
    partTexts key (valueTexts order d) * {[',']} * wsTexts * membersTexts order d ≤
      membersTexts order d := by
  intro t ht a b ha hb
  obtain ⟨u₁, hu₁, rest, hrest, rfl⟩ := Language.mem_mul.mp ht
  obtain ⟨u₂, hu₂, w, hw, rfl⟩ := Language.mem_mul.mp hu₁
  obtain ⟨first, ⟨p, q, x, hp, hq, ⟨v, hv⟩, rfl⟩, c, rfl, rfl⟩ := Language.mem_mul.mp hu₂
  obtain ⟨members, ⟨hne, hws, hkeys, hreads⟩, hcommas⟩ := hrest w b hw hb
  refine ⟨⟨⟨q, x, [], v⟩, a, key, p⟩ :: members, ⟨List.cons_ne_nil _ _, ?_, ?_, ?_⟩, ?_⟩
  · exact List.forall_mem_cons.mpr ⟨⟨ha, hp, hq, Json.ws_nil⟩, hws⟩
  · exact List.forall_mem_cons.mpr ⟨hkey, hkeys⟩
  · exact List.forall_mem_cons.mpr ⟨hv, hreads⟩
  · rw [List.map_cons, Schema.commas_cons (mt List.map_eq_nil_iff.mp hne), hcommas]
    simp only [Member.padded, Item.padded, List.append_nil, List.append_assoc,
      List.cons_append, List.nil_append]

/-- An object with or without members. -/
theorem objectTexts_le : {['\x7b']} * wsTexts * (1 + membersTexts order d) * wsTexts * {['\x7d']} ≤
    valueTexts order (d + 1) := by
  intro t ht
  obtain ⟨u₁, hu₁, close, rfl, rfl⟩ := Language.mem_mul.mp ht
  obtain ⟨u₂, hu₂, b, hb, rfl⟩ := Language.mem_mul.mp hu₁
  obtain ⟨u₃, hu₃, inner, hinner, rfl⟩ := Language.mem_mul.mp hu₂
  obtain ⟨o, rfl, a, ha, rfl⟩ := Language.mem_mul.mp hu₃
  rcases (Language.mem_add _ _ _).mp hinner with hnil | hmembers
  · obtain rfl := (Language.mem_one _).mp hnil
    refine ⟨.object (order []), ?_⟩
    have hread : ReadsAs order (d + 1) ('\x7b' :: ((a ++ b) ++ ['\x7d'])) (.object (order [])) :=
      .emptyObject (Json.ws_append ha hb)
    simpa only [List.append_nil, List.append_assoc, List.cons_append, List.nil_append] using hread
  · obtain ⟨members, ⟨hne, hws, hkeys, hreads⟩, hcommas⟩ := hmembers a b ha hb
    refine ⟨.object (order (ofMembers (members.map fun m => (m.key, m.value)))), ?_⟩
    have hread := ReadsAs.object hne hws hkeys hreads
    rw [hcommas] at hread
    simpa only [List.append_assoc, List.cons_append, List.nil_append] using hread

theorem yields_part {rule : String} {V : Language Char} (hws : Yields g "ws" wsTexts)
    (hkey : PlainText key) (h : Yields g rule V) :
    Yields g (quotedLiteral key ++ " ws \":\" ws " ++ rule) (partTexts key V) := by
  have hcolon : Yields g "\":\"" {[':']} := yields_text [':'] rfl
  have hseq := ((((yields_quotedLiteral hkey).seq hws).seq hcolon).seq hws).seq h
  refine (hseq.mono ?_).congr ?_
  · intro t ht
    obtain ⟨u₁, hu₁, x, hx, rfl⟩ := Language.mem_mul.mp ht
    obtain ⟨u₂, hu₂, q, hq, rfl⟩ := Language.mem_mul.mp hu₁
    obtain ⟨u₃, hu₃, c, rfl, rfl⟩ := Language.mem_mul.mp hu₂
    obtain ⟨k, rfl, p, hp, rfl⟩ := Language.mem_mul.mp hu₃
    refine ⟨p, q, x, hp, hq, hx, ?_⟩
    simp only [List.append_assoc, List.cons_append, List.nil_append]
  · simp only [Grammar.bytes_append, List.append_assoc]
    rfl

theorem yields_emptyObjectBody (hws : Yields g "ws" wsTexts) :
    Offers g emptyObjectBody (valueTexts order (d + 1)) := by
  have hopen : Yields g "\"\x7b\"" {['\x7b']} := yields_text ['\x7b'] rfl
  have hclose : Yields g "\"\x7d\"" {['\x7d']} := yields_text ['\x7d'] rfl
  have hboth : Yields g "\"\x7b\x7d\"" {['\x7b', '\x7d']} := yields_text _ rfl
  refine (hboth.offers.alt ((hopen.seq hws).seq hclose).offers).mono ?_ |>.congr rfl
  intro t ht
  refine ⟨.object (order []), ?_⟩
  rcases (Language.mem_add _ _ _).mp ht with rfl | ht
  · exact .emptyObject Json.ws_nil
  · obtain ⟨u, hu, close, rfl, rfl⟩ := Language.mem_mul.mp ht
    obtain ⟨o, rfl, a, ha, rfl⟩ := Language.mem_mul.mp hu
    exact .emptyObject ha

/-- Parts between commas; the first of them need not be the only one if all are needed. -/
theorem yields_join {keys : List String} {expr : String → String} (hws : Yields g "ws" wsTexts)
    (hne : keys ≠ []) (hkeys : ∀ key ∈ keys, PlainText key)
    (h : ∀ key ∈ keys, Yields g (expr key) (partTexts key (valueTexts order d))) :
    Yields g (join " \",\" ws " (keys.map expr)) (membersTexts order d) := by
  induction keys with
  | nil => exact absurd rfl hne
  | cons key keys ih =>
    have hkey := hkeys key List.mem_cons_self
    have hpart := h key List.mem_cons_self
    cases keys with
    | nil => exact hpart.mono (part_le_members hkey)
    | cons key' keys =>
      have hrest := ih (List.cons_ne_nil _ _) (fun k hk => hkeys k (List.mem_cons_of_mem key hk))
        fun k hk => h k (List.mem_cons_of_mem key hk)
      have hcomma : Yields g "\",\"" {[',']} := yields_text [','] rfl
      refine ((((hpart.seq hcomma).seq hws).seq hrest).mono (part_comma_le_members hkey)).congr ?_
      simp only [List.map_cons, join, Grammar.bytes_append, List.append_assoc]
      rfl

/-- The body of the rule for an object: its parts are all needed, or there is one. -/
theorem yields_objectBody {isAlphanumeric : Char → Bool} {name : String}
    {keys needed : List String} (hws : Yields g "ws" wsTexts) (hne : keys ≠ [])
    (hcommas : (∀ key ∈ keys, key ∈ needed) ∨ keys.length = 1)
    (hkeys : ∀ key ∈ keys, PlainText key)
    (h : ∀ key ∈ keys, Yields g (valRule isAlphanumeric name key) (valueTexts order d)) :
    Yields g (objectBody (keys.map (part isAlphanumeric name needed)))
      (valueTexts order (d + 1)) := by
  have hparts : Yields g (join " \",\" ws " (keys.map (part isAlphanumeric name needed)))
      (1 + membersTexts order d) := by
    by_cases hall : ∀ key ∈ keys, key ∈ needed
    · refine (yields_join hws hne hkeys fun key hkey => ?_).mono fun t ht =>
        (Language.mem_add _ _ _).mpr (.inr ht)
      have hneeded : needed.contains key = true := List.contains_iff_mem.mpr (hall key hkey)
      rw [part, if_pos hneeded]
      exact yields_part hws (hkeys key hkey) (h key hkey)
    · -- only here a part may be left out, and there is no comma next to it
      obtain ⟨key, rfl⟩ := List.length_eq_one_iff.mp (hcommas.resolve_left hall)
      have hkey := hkeys key List.mem_cons_self
      have hneeded : ¬ needed.contains key = true := fun hcontains =>
        hall fun k hk => by
          obtain rfl := List.mem_singleton.mp hk
          exact List.contains_iff_mem.mp hcontains
      have hopt := (yields_part hws hkey (h key List.mem_cons_self)).offers.opt
      show Yields g (part isAlphanumeric name needed key) _
      rw [part, if_neg hneeded]
      exact hopt.mono (add_le_add_right (part_le_members hkey) 1)
  have hopen : Yields g "\"\x7b\"" {['\x7b']} := yields_text ['\x7b'] rfl
  have hclose : Yields g "\"\x7d\"" {['\x7d']} := yields_text ['\x7d'] rfl
  refine ((((hopen.seq hws).seq hparts).seq hws).seq hclose).mono objectTexts_le |>.congr ?_
  simp only [objectBody, Grammar.bytes_append, List.append_assoc]
  rfl

end Values

/-! ### Entries -/

section Entries

variable {order : Object → Object} {g : Grammar} {isAlphanumeric : Char → Bool}
  {rules : List (String × String)} {most : ℕ}

theorem Entry.hyphens_le {names : List String} {r : String × String}
    (h : Entry isAlphanumeric names most r) : hyphens r.1 ≤ most := by
  cases h with
  | boolean _ hmost | enum _ hmost => exact hmost
  | array _ hmost | emptyObject _ hmost | object _ hmost => exact Nat.le_of_succ_le hmost

/-- Enumerated strings. -/
theorem offers_enum {d : ℕ} {strings : List String} (hne : strings ≠ [])
    (hplain : ∀ s ∈ strings, PlainText s) :
    Offers g (join " | " (strings.map quotedLiteral)) (valueTexts order d) := by
  induction strings with
  | nil => exact absurd rfl hne
  | cons s strings ih =>
    have hs : Yields g (quotedLiteral s) (valueTexts order d) := by
      refine (yields_quotedLiteral (hplain s List.mem_cons_self)).mono ?_
      rintro t rfl
      exact ⟨.string s, .string (hplain s List.mem_cons_self)⟩
    cases strings with
    | nil => exact hs.offers
    | cons s' strings =>
      have hrest := ih (List.cons_ne_nil _ _) fun x hx => hplain x (List.mem_cons_of_mem s hx)
      refine (hs.offers.alt hrest).mono ?_
      rw [Language.add_self]

theorem offers_boolean {d : ℕ} : Offers g "\"true\" | \"false\"" (valueTexts order d) := by
  have htrue : Yields g "\"true\"" {"true".toList} := yields_text _ rfl
  have hfalse : Yields g "\"false\"" {"false".toList} := yields_text _ rfl
  refine ((htrue.offers.alt hfalse.offers).congr rfl).mono ?_
  rintro t (rfl | rfl)
  · exact ⟨.bool true, .boolTrue⟩
  · exact ⟨.bool false, .boolFalse⟩

/-- **The rule for a schema that fits generates JSON values**, given that the rules do which it
refers to, and the fewer hyphens its name has, the deeper these may nest. -/
theorem offers_entry (hascii : AgreesOnAscii isAlphanumeric) (hws : Yields g "ws" wsTexts)
    {names : List String} {r : String × String} (h : Entry isAlphanumeric names most r)
    (hrefs : ∀ name ∈ names, hyphens r.1 < hyphens name →
      Yields g name (valueTexts order (most - hyphens name))) :
    Offers g r.2 (valueTexts order (most - hyphens r.1)) := by
  cases h with
  | boolean => exact offers_boolean
  | enum hname hmost hne hplain => exact offers_enum hne hplain
  | @array name hname hmost hitem =>
    have hhyphens : hyphens (name ++ "-item") = hyphens name + 1 := hyphens_append _ _
    have hdepth : most - hyphens name = most - hyphens (name ++ "-item") + 1 := by omega
    rw [hdepth]
    have hlt : hyphens name < hyphens (name ++ "-item") := by omega
    exact (yields_arrayBody hws (hrefs _ hitem hlt)).offers
  | @emptyObject name hname hmost =>
    have hdepth : most - hyphens name = most - hyphens name - 1 + 1 := by omega
    rw [hdepth]
    exact yields_emptyObjectBody hws
  | @object name keys needed hname hmost hne hcommas hkeys hnames =>
    have hdepth : most - hyphens name = most - hyphens name - 1 + 1 := by omega
    rw [hdepth]
    refine (yields_objectBody hws hne hcommas (fun key hkey => (hkeys key hkey).1)
      fun key hkey => ?_).offers
    have hhyphens := hyphens_valRule hascii name key
    rw [segments] at hhyphens
    have hlt : hyphens name < hyphens (valRule isAlphanumeric name key) := by omega
    exact (hrefs _ (hnames key hkey) hlt).mono (valueTexts_mono (by omega))

/-- **Each name generates JSON values.**  The induction is on the hyphens by which names may
still grow: whichever of several rules with a name counts, it refers to longer names. -/
theorem yields_of_entries (hascii : AgreesOnAscii isAlphanumeric) (hws : Yields g "ws" wsTexts)
    (hentries : ∀ r ∈ rules, Entry isAlphanumeric (rules.map Prod.fst) most r)
    (hpresent : ∀ name ∈ rules.map Prod.fst, ∃ body, (name, body) ∈ rules ∧
      ∀ ts, Spelled body ts → g.rules.lookup name = some (altNode (alts ts)))
    {name : String} (hname : name ∈ rules.map Prod.fst) :
    Yields g name (valueTexts order (most - hyphens name)) := by
  induction hgrow : most - hyphens name using Nat.strong_induction_on generalizing name with
  | _ grow ih =>
    obtain ⟨body, hbody, hlookup⟩ := hpresent name hname
    have hentry := hentries _ hbody
    subst hgrow
    refine Grammar.yields_ref hentry.isArgsName.1 hlookup (offers_entry hascii hws hentry ?_)
    intro other hother hlt
    obtain ⟨r, hr, rfl⟩ := List.mem_map.mp hother
    have hle := (hentries r hr).hyphens_le
    have hlt : hyphens name < hyphens r.1 := hlt
    exact ih _ (by omega) hother rfl

end Entries

end Server

end Oxillama
