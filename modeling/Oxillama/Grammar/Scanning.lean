/-
What the grammar parser makes of single pieces of text.

`Runs f s a s'` says that `f` reads from `s` to `s'` and answers `a`, wherever it
stands.  The pieces are

* whitespace and identifiers — `runs_skipInlineWs`, `runs_parseIdent`;
* string literals as `quoted` writes them — `runs_parseStringLiteral`;
* items, which are atoms with or without a quantifier — `ReadsAtom`, `ReadsItem`.
-/
import Mathlib
import Oxillama.Grammar.Parser
import Oxillama.Lib.Json

namespace Oxillama

namespace Grammar

/-- The bytes of a text. -/
def bytes (s : String) : List UInt8 := encode s.toList

@[simp] theorem bytes_append (s t : String) : bytes (s ++ t) = bytes s ++ bytes t := by
  rw [bytes, String.toList_append, encode_append]
  rfl

@[simp] theorem bytes_ofList (cs : List Char) : bytes (String.ofList cs) = encode cs := by
  rw [bytes, String.toList_ofList]

theorem toUTF8_eq_bytes (s : String) : s.toUTF8.data.toList = bytes s := by
  show s.toByteArray.data.toList = _
  rw [← String.utf8Encode_toList, List.utf8Encode, List.toList_data_toByteArray]
  rfl

/-! ### Running a parser -/

/-- `f` reads from `s` to `s'` and answers `a`. -/
def Runs {α : Type} (f : ParseM α) (s : List UInt8) (a : α) (s' : List UInt8) : Prop :=
  ∀ pos, ∃ pos', f ⟨s, pos⟩ = .ok (a, ⟨s', pos'⟩)

section Running

variable {α β : Type} {f : ParseM α} {k : α → ParseM β} {a : α} {b : β} {s s' s'' : List UInt8}

theorem runs_pure (a : α) (s : List UInt8) : Runs (pure a) s a s := fun pos => ⟨pos, rfl⟩

theorem Runs.bind (hf : Runs f s a s') (hk : Runs (k a) s' b s'') : Runs (f >>= k) s b s'' := by
  intro pos
  obtain ⟨pos₁, h₁⟩ := hf pos
  obtain ⟨pos₂, h₂⟩ := hk pos₁
  refine ⟨pos₂, ?_⟩
  show (f ⟨s, pos⟩ >>= fun r => k r.1 r.2) = _
  rw [h₁]
  exact h₂

theorem runs_peek (s : List UInt8) : Runs peek s s[0]? s := fun pos => ⟨pos, rfl⟩

theorem runs_rounds (s : List UInt8) : Runs rounds s (s.length + 1) s := fun pos => ⟨pos, rfl⟩

theorem runs_advance (b : UInt8) (s : List UInt8) : Runs advance (b :: s) () s :=
  fun pos => ⟨pos + 1, rfl⟩

theorem runs_consume (b : UInt8) (s : List UInt8) : Runs consume (b :: s) (some b) s :=
  fun pos => ⟨pos + 1, rfl⟩

theorem runs_advanceWhile (p : UInt8 → Bool) (s : List UInt8) :
    Runs (advanceWhile p) s (s.takeWhile p) (s.dropWhile p) :=
  fun pos => ⟨pos + (s.takeWhile p).length, rfl⟩

/-- A space or a tab. -/
def isInlineWs (b : UInt8) : Bool := asChar b == ' ' || asChar b == '\t'

theorem runs_skipInlineWs (s : List UInt8) :
    Runs skipInlineWs s () (s.dropWhile isInlineWs) :=
  (runs_advanceWhile _ s).bind (runs_pure () _)

theorem runs_expect {c : Char} {b : UInt8} (hb : asChar b = c) (s : List UInt8) :
    Runs (expect c) (b :: s) () s := by
  refine (runs_consume b s).bind ?_
  dsimp only
  rw [if_pos hb]
  exact runs_pure () s

end Running

/-! ### Bytes of characters -/

theorem asChar_eq_iff (b : UInt8) {c : Char} (hc : c.toNat < 0x80) :
    asChar b = c ↔ b.toNat = c.toNat := by
  have hb := b.toNat_lt
  have hvalid : b.toNat.isValidChar := .inl (by omega)
  have hnat : (asChar b).toNat = b.toNat := by
    rw [asChar, Char.ofNat, dif_pos hvalid]
    rfl
  constructor
  · rintro rfl
    exact hnat.symm
  · intro h
    exact Char.toNat_inj.mp (hnat.trans h)

/-- The bytes of a character are its code below `0x80`, and not below `0x80` elsewhere. -/
theorem utf8EncodeChar_cases (c : Char) :
    (c.toNat < 0x80 ∧ String.utf8EncodeChar c = [UInt8.ofNat c.toNat]) ∨
      0x80 ≤ c.toNat ∧ ∀ b ∈ String.utf8EncodeChar c, 0x80 ≤ b.toNat := by
  show (c.val.toNat < 0x80 ∧ String.utf8EncodeChar c = [UInt8.ofNat c.val.toNat]) ∨
    0x80 ≤ c.val.toNat ∧ _
  rw [String.utf8EncodeChar]
  generalize c.val.toNat = v
  split_ifs with h₁ h₂ h₃
  · exact .inl ⟨by omega, rfl⟩
  · refine .inr ⟨by omega, ?_⟩
    simp only [List.mem_cons, List.not_mem_nil, or_false, forall_eq_or_imp, forall_eq,
      UInt8.toNat_ofNat']
    omega
  · refine .inr ⟨by omega, ?_⟩
    simp only [List.mem_cons, List.not_mem_nil, or_false, forall_eq_or_imp, forall_eq,
      UInt8.toNat_ofNat']
    omega
  · refine .inr ⟨by omega, ?_⟩
    simp only [List.mem_cons, List.not_mem_nil, or_false, forall_eq_or_imp, forall_eq,
      UInt8.toNat_ofNat']
    omega

/-! ### String literals -/

/-- How a character is written in a string literal. -/
def literalChar (c : Char) : Text :=
  match c with
  | '"' => ['\\', '"']
  | '\\' => ['\\', '\\']
  | '\n' => ['\\', 'n']
  | '\r' => ['\\', 'r']
  | '\t' => ['\\', 't']
  | c => [c]

/-- A string literal. -/
def quoted (cs : Text) : List UInt8 := 0x22 :: (encode (cs.flatMap literalChar) ++ [0x22])

section Literals

variable {s s' : List UInt8} {acc r : List UInt8}

/-- Bytes that are neither a quotation mark nor a backslash stand for themselves. -/
theorem runs_parseStringBytes_plain {bs : List UInt8}
    (hbs : ∀ b ∈ bs, asChar b ≠ '"' ∧ asChar b ≠ '\\') {n : ℕ}
    (h : Runs (parseStringBytes n (acc ++ bs)) s r s') :
    Runs (parseStringBytes (n + bs.length) acc) (bs ++ s) r s' := by
  induction bs generalizing acc with
  | nil => simpa using h
  | cons b bs ih =>
    obtain ⟨hquote, hslash⟩ := hbs b List.mem_cons_self
    refine (runs_consume b (bs ++ s)).bind ?_
    dsimp only
    split
    · exact absurd ‹_› hquote
    · exact absurd ‹_› hslash
    · refine ih (fun x hx => hbs x (List.mem_cons_of_mem b hx)) ?_
      rwa [List.append_assoc]

/-- An escape stands for one byte. -/
theorem runs_parseStringBytes_escape {b byte : UInt8}
    (hb : Runs parseEscapeSequence (b :: s) [byte] s) {n : ℕ}
    (h : Runs (parseStringBytes n (acc ++ [byte])) s r s') :
    Runs (parseStringBytes (n + 1) acc) (0x5c :: b :: s) r s' :=
  (runs_consume 0x5c (b :: s)).bind (hb.bind h)

/-- The bytes of a character that is written as it is. -/
theorem plain_of_literalChar {c : Char} (hquote : c ≠ '"') (hslash : c ≠ '\\') :
    ∀ b ∈ encode [c], asChar b ≠ '"' ∧ asChar b ≠ '\\' := by
  intro b hb
  have hb : b ∈ String.utf8EncodeChar c := by simpa [encode] using hb
  have hne : ∀ d : Char, d.toNat < 0x80 → c ≠ d → asChar b ≠ d := by
    intro d hd hcd hbd
    have hnat := (asChar_eq_iff b hd).mp hbd
    rcases utf8EncodeChar_cases c with ⟨hc, hbytes⟩ | ⟨-, hbytes⟩
    · rw [hbytes, List.mem_singleton] at hb
      subst hb
      rw [UInt8.toNat_ofNat', Nat.mod_eq_of_lt (by omega)] at hnat
      exact hcd (Char.toNat_inj.mp hnat)
    · have := hbytes b hb
      omega
  exact ⟨hne '"' (by decide) hquote, hne '\\' (by decide) hslash⟩

/-- The loop of `parse_string_literal` reads back what was written. -/
theorem runs_parseStringBytes (cs : Text) (s acc : List UInt8) {n : ℕ}
    (hn : (encode (cs.flatMap literalChar)).length < n) :
    Runs (parseStringBytes n acc) (encode (cs.flatMap literalChar) ++ 0x22 :: s)
      (acc ++ encode cs) s := by
  induction cs generalizing acc n with
  | nil =>
    obtain ⟨n, rfl⟩ : ∃ m, n = m + 1 := ⟨n - 1, by omega⟩
    rw [encode_nil, List.append_nil]
    exact (runs_consume 0x22 s).bind (runs_pure acc s)
  | cons c cs ih =>
    have hcons : encode (c :: cs) = encode [c] ++ encode cs := encode_append [c] cs
    rw [List.flatMap_cons, encode_append, List.append_assoc, hcons, ← List.append_assoc acc]
    rw [List.flatMap_cons, encode_append, List.length_append] at hn
    have hescape : ∀ {d : Char} {b byte : UInt8}, literalChar c = ['\\', d] → encode [d] = [b] →
        encode [c] = [byte] → (∀ s, Runs parseEscapeSequence (b :: s) [byte] s) →
        Runs (parseStringBytes n acc)
          (encode (literalChar c) ++ (encode (cs.flatMap literalChar) ++ 0x22 :: s))
          (acc ++ encode [c] ++ encode cs) s := by
      intro d b byte hc hd hbyte hrun
      have hbytes : encode (literalChar c) = [0x5c, b] := by
        rw [hc]
        exact (encode_append ['\\'] [d]).trans (congrArg (0x5c :: ·) hd)
      rw [hbytes, List.length_cons] at hn
      obtain ⟨n, rfl⟩ : ∃ m, n = m + 1 := ⟨n - 1, by omega⟩
      rw [hbytes, hbyte]
      exact runs_parseStringBytes_escape (hrun _) (ih (acc ++ [byte]) (by omega))
    by_cases hspecial : c ∈ ['"', '\\', '\n', '\r', '\t']
    · simp only [List.mem_cons, List.not_mem_nil, or_false] at hspecial
      rcases hspecial with rfl | rfl | rfl | rfl | rfl
      · exact hescape rfl rfl rfl fun s pos => ⟨pos + 1, rfl⟩
      · exact hescape rfl rfl rfl fun s pos => ⟨pos + 1, rfl⟩
      · exact hescape rfl rfl rfl fun s pos => ⟨pos + 1, rfl⟩
      · exact hescape rfl rfl rfl fun s pos => ⟨pos + 1, rfl⟩
      · exact hescape rfl rfl rfl fun s pos => ⟨pos + 1, rfl⟩
    · simp only [List.mem_cons, List.not_mem_nil, or_false, not_or] at hspecial
      obtain ⟨hquote, hslash, hn', hr, ht⟩ := hspecial
      have hself : literalChar c = [c] := by
        unfold literalChar
        split <;> first | rfl | contradiction
      rw [hself] at hn ⊢
      obtain ⟨m, rfl⟩ : ∃ m, n = m + (encode [c]).length := ⟨n - (encode [c]).length, by omega⟩
      exact runs_parseStringBytes_plain (plain_of_literalChar hquote hslash)
        (ih (acc ++ encode [c]) (by omega))

theorem runs_parseStringLiteral (cs : Text) (s : List UInt8) :
    Runs parseStringLiteral (quoted cs ++ s) (.literal (encode cs)) s := by
  have htext : quoted cs ++ s = 0x22 :: (encode (cs.flatMap literalChar) ++ 0x22 :: s) := by
    rw [quoted, List.cons_append, List.append_assoc]
    rfl
  rw [htext, parseStringLiteral]
  refine (runs_expect (c := '"') (b := 0x22) rfl _).bind ?_
  refine (runs_rounds _).bind ?_
  refine Runs.bind ?_ (runs_pure _ s)
  refine runs_parseStringBytes cs s [] ?_
  rw [List.length_append]
  omega

end Literals

/-! ### Identifiers -/

/-- A rule name that `parse_ident` reads. -/
def IsIdent (name : String) : Prop :=
  ∃ c cs, name.toList = c :: cs ∧ (c.isAlpha || c == '_') = true ∧
    ∀ d ∈ cs, (d.isAlphanum || d == '_' || d == '-') = true

/-- The check of a name, computed. -/
theorem isIdent_of_all {name : String} {c : Char} {cs : List Char} (hname : name.toList = c :: cs)
    (hc : (c.isAlpha || c == '_') = true)
    (hcs : cs.all (fun d => d.isAlphanum || d == '_' || d == '-') = true) : IsIdent name :=
  ⟨c, cs, hname, hc, List.all_eq_true.mp hcs⟩

private theorem lt_of_ident {c : Char} (h : (c.isAlphanum || c == '_' || c == '-') = true) :
    c.toNat < 0x80 := by
  simp only [Char.isAlphanum, Char.isAlpha, Char.isUpper, Char.isLower, Char.isDigit,
    Bool.or_eq_true, Bool.and_eq_true, decide_eq_true_eq, beq_iff_eq, UInt32.le_iff_toNat_le,
    ge_iff_le] at h
  rcases h with (((h | h) | h) | rfl) | rfl
  · exact lt_of_le_of_lt h.2 (by decide)
  · exact lt_of_le_of_lt h.2 (by decide)
  · exact lt_of_le_of_lt h.2 (by decide)
  · decide
  · decide

/-- The byte of an ASCII character. -/
private theorem encode_ascii {c : Char} (hc : c.toNat < 0x80) :
    encode [c] = [UInt8.ofNat c.toNat] ∧ asChar (UInt8.ofNat c.toNat) = c := by
  constructor
  · rcases utf8EncodeChar_cases c with ⟨-, h⟩ | ⟨h, -⟩
    · simpa [encode] using h
    · omega
  · rw [asChar_eq_iff _ hc, UInt8.toNat_ofNat']
    omega

/-- Identifiers are ASCII: their bytes are their characters. -/
private theorem encode_idents {cs : Text}
    (h : ∀ d ∈ cs, (d.isAlphanum || d == '_' || d == '-') = true) :
    (∀ b ∈ encode cs, isIdentCont b = true) ∧ (encode cs).map asChar = cs := by
  induction cs with
  | nil => exact ⟨fun b hb => (List.not_mem_nil hb).elim, rfl⟩
  | cons c cs ih =>
    have hc := h c List.mem_cons_self
    obtain ⟨hbyte, hchar⟩ := encode_ascii (lt_of_ident hc)
    obtain ⟨hall, hmap⟩ := ih fun d hd => h d (List.mem_cons_of_mem c hd)
    have hcons : encode (c :: cs) = UInt8.ofNat c.toNat :: encode cs := by
      rw [← List.singleton_append, encode_append, hbyte]
      rfl
    rw [hcons]
    refine ⟨?_, by rw [List.map_cons, hchar, hmap]⟩
    intro b hb
    rcases List.mem_cons.mp hb with rfl | hb
    · rw [isIdentCont, hchar]
      exact hc
    · exact hall b hb

theorem IsIdent.bytes {name : String} (h : IsIdent name) :
    ∃ b t, Grammar.bytes name = b :: t ∧ isIdentStart b = true := by
  obtain ⟨c, cs, hlist, hc, -⟩ := h
  have hc' : (c.isAlphanum || c == '_' || c == '-') = true := by
    rw [Char.isAlphanum]
    revert hc
    cases c.isAlpha <;> simp +contextual
  obtain ⟨hbyte, hchar⟩ := encode_ascii (lt_of_ident hc')
  refine ⟨UInt8.ofNat c.toNat, encode cs, ?_, ?_⟩
  · rw [Grammar.bytes, hlist, ← List.singleton_append, encode_append, hbyte]
    rfl
  · rw [isIdentStart, hchar]
    exact hc

theorem runs_parseIdent {name : String} (hname : IsIdent name) {s : List UInt8}
    (hs : ∀ b ∈ s.head?, isIdentCont b = false) : Runs parseIdent (bytes name ++ s) name s := by
  obtain ⟨c, cs, hlist, hc, hcs⟩ := hname
  have hc' : (c.isAlphanum || c == '_' || c == '-') = true := by
    rw [Char.isAlphanum]
    revert hc
    cases c.isAlpha <;> simp +contextual
  obtain ⟨hbyte, hchar⟩ := encode_ascii (lt_of_ident hc')
  obtain ⟨hall, hmap⟩ := encode_idents hcs
  have hbytes : bytes name ++ s = UInt8.ofNat c.toNat :: (encode cs ++ s) := by
    rw [bytes, hlist, ← List.singleton_append, encode_append, hbyte, List.append_assoc]
    rfl
  have htake : (encode cs ++ s).takeWhile isIdentCont = encode cs := by
    rw [List.takeWhile_append_of_pos hall]
    cases s with
    | nil => simp
    | cons b s => rw [List.takeWhile_cons_of_neg (by simp [hs b rfl]), List.append_nil]
  have hdrop : (encode cs ++ s).dropWhile isIdentCont = s := by
    rw [List.dropWhile_append_of_pos hall]
    cases s with
    | nil => rfl
    | cons b s => rw [List.dropWhile_cons_of_neg (by simp [hs b rfl])]
  have hstart : isIdentStart (UInt8.ofNat c.toNat) = true := by
    rw [isIdentStart, hchar]
    exact hc
  rw [hbytes, parseIdent]
  refine (runs_peek _).bind ?_
  dsimp only [List.getElem?_cons_zero]
  rw [if_pos hstart]
  refine (runs_advance _ _).bind ?_
  refine (runs_advanceWhile _ _).bind ?_
  rw [htake, hdrop, List.map_cons, hchar, hmap, ← hlist, String.ofList_toList]
  exact runs_pure name s

end Grammar

end Oxillama
