/-
The exact languages of the texts that the schema compiler puts together.

* `helperBody` — the bodies of the helper rules, and `stands_ws`, `stands_jsonValue`, … what
  a grammar with these rules generates for their names;
* `listLang`, `stands_boundedList` — items between commas, and `stands_separatedList` between
  any separators;
* `objectLang`, `stands_objectBody` — the parts of an object between braces.
-/
import Mathlib.Algebra.BigOperators.Group.List.Basic
import Oxillama.Grammar.Denotes
import Oxillama.Schema.Shape

namespace Oxillama

namespace Schema

open scoped Computability
open Grammar (Denotes Stands Spelled alts altNode classLang bytes)

/-- One text. -/
def lit (t : Text) : Language UInt8 := {encode t}

section Literals

variable {g : Grammar}

theorem stands_lit (t : Text) :
    Stands g ("\"" ++ String.ofList (t.flatMap Grammar.literalChar) ++ "\"") (lit t) :=
  Grammar.stands_literal t

theorem stands_quote : Stands g "\"\\\"\"" (lit ['"']) := stands_lit ['"']

theorem stands_escaped (s : String) :
    Stands g ("\"" ++ escapeGbnfLiteral s ++ "\"") (lit s.toList) := stands_lit s.toList

end Literals

/-! ### Helper rules -/

/-- The body of the rule for any member. -/
def pairBody : String := "\"\\\"\" string-char* \"\\\"\" ws \":\" ws json-value"

/-- The body of a helper rule. -/
def helperBody : String → Option String
  | "ws" => some wsBody
  | "string-char" => some "[^\\x00-\\x1f\"\\\\]"
  | "json-number" => some "\"-\"? [0-9]+ (\".\" [0-9]+)?"
  | "json-integer" => some "\"-\"? [0-9]+"
  | "json-value" =>
    some "\"\\\"\" string-char* \"\\\"\" | json-number | \"true\" | \"false\" | \"null\""
  | "json-pair" => some pairBody
  | _ => none

theorem mem_helperNames {name body : String} (h : helperBody name = some body) :
    name ∈ helperNames := by
  unfold helperBody at h
  split at h
  · decide
  · decide
  · decide
  · decide
  · decide
  · decide
  · cases h

/-- The grammar has the helper rule, and with the body it should have. -/
def HasHelper (g : Grammar) (name : String) : Prop :=
  ∀ body, helperBody name = some body → ∀ ts, Spelled body ts →
    g.rules.lookup name = some (altNode (alts ts))

/-- Whitespace. -/
def wsLang : Language UInt8 :=
  (classLang [.single 0x20, .single 0x09, .single 0x0a, .single 0x0d] false)∗

/-- A character of a string, as the compiler has it. -/
def charLang : Language UInt8 := classLang [.range 0x00 0x1f, .single 0x22, .single 0x5c] true

/-- A string. -/
def stringLang : Language UInt8 := lit ['"'] * charLang∗ * lit ['"']

/-- Digits. -/
def digitsLang : Language UInt8 :=
  classLang [.range 0x30 0x39] false * (classLang [.range 0x30 0x39] false)∗

/-- An integer. -/
def integerLang : Language UInt8 := (1 + lit ['-']) * digitsLang

/-- A number. -/
def numberLang : Language UInt8 := integerLang * (1 + lit ['.'] * digitsLang)

/-- What the compiler takes for any value. -/
def anyLang : Language UInt8 :=
  stringLang + numberLang + lit "true".toList + lit "false".toList + lit "null".toList

/-- A separator between whitespace. -/
def between (c : Char) : Language UInt8 := wsLang * lit [c] * wsLang

/-- Any string as a key. -/
def anyMemberLang (V : Language UInt8) : Language UInt8 := stringLang * between ':' * V

section Helpers

variable {g : Grammar} {V : Language UInt8} {valRule : String}

theorem stands_helper {name body : String} {L : Language UInt8} (h : HasHelper g name)
    (hbody : helperBody name = some body) (hL : Denotes g body L) : Stands g name L :=
  Grammar.stands_ref (isIdent_helper name (mem_helperNames hbody)) (h body hbody) hL

theorem stands_ws (h : HasHelper g "ws") : Stands g "ws" wsLang :=
  stands_helper h rfl (Grammar.stands_item (Grammar.spelled_item (e := wsBody)
    (Grammar.readsAtom_wsClass.quantified 0x2a 0 none (by simp)))
    (Grammar.generates_star Grammar.generates_charClass)).denotes

theorem stands_stringChar (h : HasHelper g "string-char") : Stands g "string-char" charLang :=
  stands_helper h rfl
    (Grammar.stands_atom Grammar.readsAtom_stringCharClass Grammar.generates_charClass).denotes

theorem stands_sign : Stands g "\"-\"?" (1 + lit ['-']) := by
  refine Grammar.stands_item (Grammar.spelled_item
    ((Grammar.readsAtom_quoted ['-']).quantified 0x3f 0 (some 1) (by simp)))
    (Grammar.generates_opt fun w => ?_)
  constructor
  · intro h
    cases h
    rfl
  · rintro rfl
    exact .literal _

theorem stands_digits : Stands g "[0-9]+" digitsLang :=
  Grammar.stands_item (Grammar.spelled_item
    (Grammar.readsAtom_digitClass.quantified 0x2b 1 none (by simp)))
    (Grammar.generates_plus Grammar.generates_charClass)

theorem stands_integerBody : Stands g "\"-\"? [0-9]+" integerLang := stands_sign.seq stands_digits

theorem stands_integer (h : HasHelper g "json-integer") : Stands g "json-integer" integerLang :=
  stands_helper h rfl stands_integerBody.denotes

theorem stands_number (h : HasHelper g "json-number") : Stands g "json-number" numberLang :=
  stands_helper h rfl ((stands_integerBody.seq
    (((stands_lit ['.']).seq stands_digits).denotes.opt)).congr rfl).denotes

theorem stands_string (h : HasHelper g "string-char") :
    Stands g "\"\\\"\" string-char* \"\\\"\"" stringLang := by
  have hident := isIdent_helper "string-char" (by decide)
  have hbody : Denotes g "[^\\x00-\\x1f\"\\\\]" charLang :=
    (Grammar.stands_atom Grammar.readsAtom_stringCharClass Grammar.generates_charClass).denotes
  -- the reference itself is starred, without parentheses
  have hchars : Stands g "string-char*" charLang∗ :=
    Grammar.stands_item (Grammar.spelled_item
      ((Grammar.readsAtom_ident hident).quantified 0x2a 0 none (by simp)))
      (Grammar.generates_star (Grammar.generates_ruleRef_iff (h _ rfl) hbody))
  exact ((stands_quote.seq hchars).seq stands_quote).congr rfl

theorem stands_jsonValue (hchar : HasHelper g "string-char") (hnumber : HasHelper g "json-number")
    (h : HasHelper g "json-value") : Stands g "json-value" anyLang :=
  stands_helper h rfl ((((((stands_string hchar).denotes.alt (stands_number hnumber).denotes).alt
    (stands_lit "true".toList).denotes).alt (stands_lit "false".toList).denotes).alt
    (stands_lit "null".toList).denotes).congr rfl)

/-- A separator between whitespace. -/
theorem stands_between (h : HasHelper g "ws") (c : Char) :
    Stands g ("ws " ++ ("\"" ++ String.ofList (Grammar.literalChar c) ++ "\"") ++ " ws")
      (between c) := by
  have hc := Grammar.stands_literal (g := g) [c]
  rw [List.flatMap_singleton] at hc
  refine (((stands_ws h).seq hc).seq (stands_ws h)).congr ?_
  simp only [Grammar.bytes_append, List.append_assoc]
  rfl

theorem stands_comma (h : HasHelper g "ws") : Stands g "ws \",\" ws" (between ',') :=
  stands_between h ','

theorem stands_colon (h : HasHelper g "ws") : Stands g "ws \":\" ws" (between ':') :=
  stands_between h ':'

theorem stands_anyMember (hws : HasHelper g "ws") (hchar : HasHelper g "string-char")
    (h : Stands g valRule V) :
    Stands g ("\"\\\"\" string-char* \"\\\"\" " ++ "ws" ++ " \":\" " ++ "ws" ++ " " ++ valRule)
      (anyMemberLang V) := by
  refine (((stands_string hchar).seq (stands_colon hws)).seq h).congr ?_
  simp only [Grammar.bytes_append, List.append_assoc]
  rfl

end Helpers

/-! ### Repetitions -/

/-- At most `n` times. -/
def upTo (A : Language UInt8) : ℕ → Language UInt8
  | 0 => 1
  | n + 1 => 1 + A * upTo A n

/-- At least `min` times, and at most `max` times. -/
def repeatLang (A : Language UInt8) (min : ℕ) (max : Option ℕ) : Language UInt8 :=
  A ^ min * match max with
    | some max => upTo A (max - min)
    | none => A∗

/-- Items between commas. -/
def listLang (I : Language UInt8) (min : ℕ) (max : Option ℕ) : Language UInt8 :=
  if max = some 0 then 1
  else if min = 0 then 1 + I * repeatLang (between ',' * I) 0 (max.map (· - 1))
  else I * repeatLang (between ',' * I) (min - 1) (max.map (· - 1))

/-- Items with any separators between them. -/
def separatedLang (S I : Language UInt8) (min : ℕ) (max : Option ℕ) : Language UInt8 :=
  if max = some 0 then 1
  else if min = 0 then 1 + I * repeatLang (S * I) 0 (max.map (· - 1))
  else I * repeatLang (S * I) (min - 1) (max.map (· - 1))

section Repetitions

variable {g : Grammar} {atom item : String} {A I : Language UInt8}

/-- Texts one after the other. -/
theorem stands_join {es : List String} {Ls : List (Language UInt8)}
    (h : List.Forall₂ (Stands g) es Ls) : Stands g (join " " es) Ls.prod := by
  induction h with
  | nil => exact Grammar.stands_empty
  | @cons e L es Ls he hes ih =>
    rw [List.prod_cons]
    cases hes with
    | nil =>
      rw [List.prod_nil, mul_one]
      exact he
    | cons => exact he.seq ih

theorem stands_optionalTail (h : Stands g atom A) (n : ℕ) :
    Stands g (optionalTail atom n) (upTo A n) := by
  induction n with
  | zero => exact Grammar.stands_empty
  | succ n ih =>
    cases n with
    | zero =>
      rw [upTo, upTo, mul_one]
      exact h.denotes.opt
    | succ n =>
      refine (h.seq ih).denotes.opt.congr ?_
      simp only [optionalTail, Grammar.bytes_append, List.append_assoc]

theorem stands_boundedRepeat (h : Stands g atom A) (min : ℕ) (max : Option ℕ) :
    Stands g (boundedRepeat atom min max) (repeatLang A min max) := by
  have hcopies : List.Forall₂ (Stands g) (List.replicate min atom) (List.replicate min A) := by
    induction min with
    | zero => exact .nil
    | succ min ih => exact .cons h ih
  have hprod : ∀ T : Language UInt8,
      (List.replicate min A ++ [T]).prod = A ^ min * T := by
    intro T
    rw [List.prod_append, List.prod_replicate, List.prod_singleton]
  cases max with
  | none =>
    have hall := stands_join (List.rel_append hcopies (.cons h.denotes.star .nil))
    rwa [hprod] at hall
  | some max =>
    by_cases hlt : min < max
    · have htail := stands_optionalTail h (max - min)
      have hall := stands_join (List.rel_append hcopies (.cons htail .nil))
      rw [hprod] at hall
      simpa only [boundedRepeat, if_pos hlt, repeatLang] using hall
    · have hall := stands_join hcopies
      rw [List.prod_replicate] at hall
      have hzero : max - min = 0 := by omega
      have hlang : repeatLang A min (some max) = A ^ min := by
        simp only [repeatLang, hzero, upTo, mul_one]
      rw [hlang]
      simpa only [boundedRepeat, if_neg hlt, List.append_nil] using hall

/-- An item and what follows it, which may be no text at all. -/
theorem stands_andRest {rest : String} {R : Language UInt8} (h : Stands g item I)
    (hrest : Stands g rest R) :
    Stands g (if rest.isEmpty then item else item ++ " " ++ rest) (I * R) := by
  split
  · rename_i hempty
    obtain rfl : rest = "" := by simpa using hempty
    rw [hrest.denotes.unique Grammar.stands_empty.denotes, mul_one]
    exact h
  · exact h.seq hrest

theorem stands_separatedList {ws : String} {S : Language UInt8}
    (hsep : Stands g (ws ++ " \",\" " ++ ws) S) (h : Stands g item I) (min : ℕ)
    (max : Option ℕ) : Stands g (boundedList item ws min max) (separatedLang S I min max) := by
  have hsep : Stands g (ws ++ " \",\" " ++ ws ++ " " ++ item) (S * I) := hsep.seq h
  unfold boundedList separatedLang
  dsimp only
  split
  · exact Grammar.stands_empty
  · split
    · refine (stands_andRest h ?_).denotes.opt
      cases max with
      | none =>
        have hlang : repeatLang (S * I) 0 (none.map (· - 1)) = (S * I)∗ := by
          simp only [repeatLang, Option.map_none, pow_zero, one_mul]
        rw [hlang]
        exact hsep.denotes.star
      | some m => exact stands_boundedRepeat hsep 0 _
    · exact stands_andRest h (stands_boundedRepeat hsep _ _)

theorem stands_boundedList (hws : HasHelper g "ws") (h : Stands g item I) (min : ℕ)
    (max : Option ℕ) : Stands g (boundedList item "ws" min max) (listLang I min max) :=
  stands_separatedList (stands_comma hws) h min max

/-- A list that holds one item at most takes an item with a bar in it too. -/
theorem stands_shortList (h : Denotes g item I) {min : ℕ} {max : Option ℕ}
    (hshort : max = some 0 ∨ min = 0 ∧ max = some 1) :
    Stands g (boundedList item "ws" min max) (listLang I min max) := by
  rcases hshort with rfl | ⟨rfl, rfl⟩
  · exact Grammar.stands_empty
  · have hnone : repeatLang (between ',' * I) 0 (some 0) = 1 := by
      rw [repeatLang, pow_zero, one_mul]
      rfl
    have hlang : listLang I 0 (some 1) = 1 + I := by
      rw [listLang, if_neg (by simp), if_pos rfl]
      show 1 + I * repeatLang (between ',' * I) 0 (some 0) = 1 + I
      rw [hnone, mul_one]
    rw [hlang]
    exact h.opt

end Repetitions

/-! ### Objects -/

/-- A key, a colon and a value. -/
def memberLang (key : String) (V : Language UInt8) : Language UInt8 :=
  lit ['"'] * lit key.toList * lit ['"'] * between ':' * V

/-- Parts between commas. -/
def joinLang : List (Language UInt8) → Language UInt8
  | [] => 1
  | [P] => P
  | P :: P' :: Ps => P * between ',' * joinLang (P' :: Ps)

/-- The parts of an object, and then the additional properties, if there may be any. -/
def partsLang : List (Language UInt8) → Option (Language UInt8) → Language UInt8
  | [], some X => 1 + X * (between ',' * X)∗
  | [], none => 1
  | Ps, some X => joinLang Ps * (between ',' * X)∗
  | Ps, none => joinLang Ps

/-- Braces around the parts of an object. -/
def objectLang (Ps : List (Language UInt8)) (X : Option (Language UInt8)) : Language UInt8 :=
  lit ['\x7b'] * wsLang * partsLang Ps X * (wsLang * lit ['\x7d'])

section Objects

variable {g : Grammar} {V : Language UInt8}

theorem stands_memberExpr (hws : HasHelper g "ws") {key valRule : String}
    (h : Stands g valRule V) : Stands g (memberExpr "ws" key valRule) (memberLang key V) := by
  have hkey := (stands_quote.seq (stands_escaped (g := g) key)).seq stands_quote
  refine ((hkey.seq (stands_colon hws)).seq h).congr ?_
  simp only [memberExpr, Grammar.bytes_append, List.append_assoc]
  rfl

theorem stands_joinParts (hws : HasHelper g "ws") {parts : List String}
    {Ps : List (Language UInt8)} (h : List.Forall₂ (Stands g) parts Ps) :
    Stands g (join (" " ++ "ws" ++ " \",\" " ++ "ws" ++ " ") parts) (joinLang Ps) := by
  induction h with
  | nil => exact Grammar.stands_empty
  | @cons part P parts Ps hpart hparts ih =>
    cases hparts with
    | nil => exact hpart
    | cons =>
      refine ((hpart.seq (stands_comma hws)).seq ih).congr ?_
      simp only [join, Grammar.bytes_append, List.append_assoc]
      rfl

/-- The parts and the additional properties, of which there may be none. -/
inductive ExtraStands (g : Grammar) : Option String → Option (Language UInt8) → Prop
  | none : ExtraStands g none none
  | some {name : String} {X : Language UInt8} (h : Stands g name X) :
      ExtraStands g (some name) (some X)

theorem stands_objectBody (hws : HasHelper g "ws") {parts : List String}
    {Ps : List (Language UInt8)} (h : List.Forall₂ (Stands g) parts Ps) {extra : Option String}
    {X : Option (Language UInt8)} (hextra : ExtraStands g extra X) :
    Stands g (objectBody "ws" parts extra) (objectLang Ps X) := by
  have hopen : Stands g "\"\x7b\" ws" (lit ['\x7b'] * wsLang) :=
    ((stands_lit ['\x7b']).seq (stands_ws hws)).congr rfl
  have hclose : Stands g "ws \"\x7d\"" (wsLang * lit ['\x7d']) :=
    ((stands_ws hws).seq (stands_lit ['\x7d'])).congr rfl
  have hmore : ∀ {name X}, Stands g name X →
      Stands g ("(" ++ "ws" ++ " \",\" " ++ "ws" ++ " " ++ name ++ ")*") (between ',' * X)∗ := by
    intro name X hX
    refine ((stands_comma hws).seq hX).denotes.star.congr ?_
    simp only [Grammar.bytes_append, List.append_assoc]
    rfl
  -- an empty text leaves the whitespace of one side only, which is as good
  have hbody : ∀ {joined : String} {L : Language UInt8}, Stands g joined L →
      Stands g (if joined.isEmpty then "\"\x7b\" " ++ "ws" ++ " \"\x7d\""
        else "\"\x7b\" " ++ "ws" ++ " " ++ joined ++ " " ++ "ws" ++ " \"\x7d\"")
        (lit ['\x7b'] * wsLang * L * (wsLang * lit ['\x7d'])) := by
    intro joined L hjoined
    split
    · rename_i hempty
      obtain rfl : joined = "" := by simpa using hempty
      have hlang : lit ['\x7b'] * wsLang * L * (wsLang * lit ['\x7d']) =
          lit ['\x7b'] * wsLang * lit ['\x7d'] := by
        rw [hjoined.denotes.unique Grammar.stands_empty.denotes, mul_one,
          ← mul_assoc (lit ['\x7b'] * wsLang), mul_assoc (lit ['\x7b']) wsLang wsLang, wsLang,
          kstar_mul_kstar]
      rw [hlang]
      exact (hopen.seq (stands_lit ['\x7d'])).congr rfl
    · refine ((hopen.seq hjoined).seq hclose).congr ?_
      simp only [Grammar.bytes_append, List.append_assoc]
      rfl
  unfold objectBody objectLang
  refine hbody ?_
  cases hextra with
  | none =>
    cases h with
    | nil => exact Grammar.stands_empty
    | cons hpart hparts => exact stands_joinParts hws (.cons hpart hparts)
  | some hX =>
    cases h with
    | nil =>
      refine (hX.seq (hmore hX)).denotes.opt.congr ?_
      simp only [Grammar.bytes_append, List.append_assoc]
      rfl
    | cons hpart hparts =>
      refine ((stands_joinParts hws (.cons hpart hparts)).seq (hmore hX)).congr ?_
      simp only [Grammar.bytes_append, List.append_assoc]
      rfl

end Objects

end Schema

end Oxillama
