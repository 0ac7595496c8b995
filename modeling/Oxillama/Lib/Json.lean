/-
The syntax of JSON texts (RFC 8259), over lists of characters.

* `Spells body units` — what may stand between two quotation marks, and the UTF-16 code
  units it stands for;
* `Number`, `Value`, `Elements`, `Members` — the grammar, members with their keys;
* `IsText`, `Object` — a value or an object between whitespace;
* `WellFormed`, `HasKey` — the same for byte strings: a JSON text is encoded in UTF-8.

The constructors take values without the whitespace around them; `elements_cons`,
`members_cons` and the like take texts, which is how texts are put together.
-/
import Oxillama.Lib.Utf8

namespace Oxillama

/-- The UTF-8 encoding of a text. -/
def encode (text : Text) : List UInt8 := text.flatMap String.utf8EncodeChar

@[simp] theorem encode_nil : encode [] = [] := rfl

@[simp] theorem encode_append (t t' : Text) : encode (t ++ t') = encode t ++ encode t' :=
  List.flatMap_append

theorem encode_injective {t t' : Text} (h : encode t = encode t') : t = t' := by
  have hdecode := congrArg fromUtf8Lossy h
  simpa only [encode, fromUtf8Lossy_encode] using hdecode

namespace Json

/-! ### Strings and numbers -/

/-- Insignificant whitespace. -/
def isWs (c : Char) : Bool := c == ' ' || c == '\t' || c == '\n' || c == '\r'

def Ws (t : Text) : Prop := ∀ c ∈ t, isWs c = true

/-- The UTF-16 code units of a character. -/
def utf16 (c : Char) : List ℕ :=
  if c.toNat < 0x10000 then [c.toNat]
  else [0xD800 + (c.toNat - 0x10000) / 0x400, 0xDC00 + (c.toNat - 0x10000) % 0x400]

/-- The code units of a string. -/
def units (t : Text) : List ℕ := t.flatMap utf16

/-- The value of a hexadecimal digit. -/
def hexValue (c : Char) : Option ℕ :=
  if '0' ≤ c ∧ c ≤ '9' then some (c.toNat - 0x30)
  else if 'a' ≤ c ∧ c ≤ 'f' then some (c.toNat - 0x61 + 10)
  else if 'A' ≤ c ∧ c ≤ 'F' then some (c.toNat - 0x41 + 10)
  else none

/-- What a character after a backslash stands for. -/
def escapeUnit : Char → Option ℕ
  | '"' => some 0x22
  | '\\' => some 0x5C
  | '/' => some 0x2F
  | 'b' => some 0x08
  | 'f' => some 0x0C
  | 'n' => some 0x0A
  | 'r' => some 0x0D
  | 't' => some 0x09
  | _ => none

/-- A character that stands for itself between quotation marks. -/
def Unescaped (c : Char) : Prop := 0x20 ≤ c.toNat ∧ c ≠ '"' ∧ c ≠ '\\'

/-- `Spells body us`: between quotation marks, `body` stands for the code units `us`. -/
inductive Spells : Text → List ℕ → Prop
  | nil : Spells [] []
  | unescaped {c : Char} {t : Text} {us : List ℕ} (hc : Unescaped c) (h : Spells t us) :
      Spells (c :: t) (utf16 c ++ us)
  | escape {c : Char} {u : ℕ} {t : Text} {us : List ℕ} (hc : escapeUnit c = some u)
      (h : Spells t us) : Spells ('\\' :: c :: t) (u :: us)
  | unicode {c₁ c₂ c₃ c₄ : Char} {d₁ d₂ d₃ d₄ : ℕ} {t : Text} {us : List ℕ}
      (h₁ : hexValue c₁ = some d₁) (h₂ : hexValue c₂ = some d₂) (h₃ : hexValue c₃ = some d₃)
      (h₄ : hexValue c₄ = some d₄) (h : Spells t us) :
      Spells ('\\' :: 'u' :: c₁ :: c₂ :: c₃ :: c₄ :: t)
        ((((d₁ * 16 + d₂) * 16 + d₃) * 16 + d₄) :: us)

/-- One digit at least. -/
def Digits (t : Text) : Prop := t ≠ [] ∧ ∀ c ∈ t, c.isDigit = true

/-- The integer part of a number has no leading zero. -/
def IntPart (t : Text) : Prop := t = ['0'] ∨ Digits t ∧ t.head? ≠ some '0'

/-- A number. -/
inductive Number : Text → Prop
  | mk {sign int frac exp : Text} (hsign : sign = [] ∨ sign = ['-']) (hint : IntPart int)
      (hfrac : frac = [] ∨ ∃ ds, Digits ds ∧ frac = '.' :: ds)
      (hexp : exp = [] ∨ ∃ e sgn ds, (e = 'e' ∨ e = 'E') ∧
        (sgn = [] ∨ sgn = ['+'] ∨ sgn = ['-']) ∧ Digits ds ∧ exp = e :: (sgn ++ ds)) :
      Number (sign ++ int ++ frac ++ exp)

/-! ### Values -/

mutual

/-- A value, without whitespace around it. -/
inductive Value : Text → Prop
  | null : Value ['n', 'u', 'l', 'l']
  | true : Value ['t', 'r', 'u', 'e']
  | false : Value ['f', 'a', 'l', 's', 'e']
  | number {t : Text} (h : Number t) : Value t
  | string {t : Text} {us : List ℕ} (h : Spells t us) : Value ('"' :: (t ++ ['"']))
  | emptyArray {t : Text} (h : Ws t) : Value ('[' :: (t ++ [']']))
  | array {t : Text} (h : Elements t) : Value ('[' :: (t ++ [']']))
  | emptyObject {t : Text} (h : Ws t) : Value ('\x7b' :: (t ++ ['\x7d']))
  | object {t : Text} {keys : List (List ℕ)} (h : Members keys t) :
      Value ('\x7b' :: (t ++ ['\x7d']))

/-- Values between commas. -/
inductive Elements : Text → Prop
  | single {a v b : Text} (ha : Ws a) (hv : Value v) (hb : Ws b) : Elements (a ++ v ++ b)
  | cons {a v b t : Text} (ha : Ws a) (hv : Value v) (hb : Ws b) (h : Elements t) :
      Elements (a ++ v ++ b ++ ',' :: t)

/-- Members between commas, and their keys. -/
inductive Members : List (List ℕ) → Text → Prop
  | single {a k b c v d : Text} {us : List ℕ} (ha : Ws a) (hk : Spells k us) (hb : Ws b)
      (hc : Ws c) (hv : Value v) (hd : Ws d) :
      Members [us] (a ++ '"' :: (k ++ '"' :: (b ++ ':' :: (c ++ v ++ d))))
  | cons {a k b c v d t : Text} {us : List ℕ} {keys : List (List ℕ)} (ha : Ws a)
      (hk : Spells k us) (hb : Ws b) (hc : Ws c) (hv : Value v) (hd : Ws d)
      (h : Members keys t) :
      Members (us :: keys) (a ++ '"' :: (k ++ '"' :: (b ++ ':' :: (c ++ v ++ d))) ++ ',' :: t)

end

/-- A JSON text: a value between whitespace. -/
def IsText (t : Text) : Prop := ∃ a v b, Ws a ∧ Value v ∧ Ws b ∧ t = a ++ v ++ b

/-- An object with these keys, between whitespace. -/
def Object (keys : List (List ℕ)) (t : Text) : Prop :=
  ∃ a m b, Ws a ∧ Ws b ∧ (Members keys m ∨ keys = [] ∧ Ws m) ∧
    t = a ++ '\x7b' :: (m ++ '\x7d' :: b)

/-- The bytes of a JSON text. -/
def WellFormed (w : List UInt8) : Prop := ∃ t, IsText t ∧ w = encode t

/-- `key` occurs as a key in the object that the bytes are. -/
def HasKey (key : Text) (w : List UInt8) : Prop :=
  ∃ keys t, Object keys t ∧ units key ∈ keys ∧ w = encode t

/-! ### Putting texts together -/

variable {a b k t t' : Text} {us : List ℕ} {keys keys' : List (List ℕ)}

@[simp] theorem ws_nil : Ws [] := fun _ h => by cases h

theorem ws_append (ha : Ws a) (hb : Ws b) : Ws (a ++ b) := by
  intro c hc
  rcases List.mem_append.mp hc with h | h
  · exact ha c h
  · exact hb c h

theorem isText_of_value (h : Value t) : IsText t :=
  ⟨[], t, [], ws_nil, h, ws_nil, by simp⟩

theorem IsText.ws (h : IsText t) (ha : Ws a) (hb : Ws b) : IsText (a ++ t ++ b) := by
  obtain ⟨x, v, y, hx, hv, hy, rfl⟩ := h
  exact ⟨a ++ x, v, y ++ b, ws_append ha hx, hv, ws_append hy hb, by simp⟩

theorem elements_single (h : IsText t) : Elements t := by
  obtain ⟨x, v, y, hx, hv, hy, rfl⟩ := h
  exact .single hx hv hy

theorem elements_cons (h : IsText t) (h' : Elements t') : Elements (t ++ ',' :: t') := by
  obtain ⟨x, v, y, hx, hv, hy, rfl⟩ := h
  exact .cons hx hv hy h'

theorem members_single (ha : Ws a) (hk : Spells k us) (hb : Ws b) (h : IsText t) :
    Members [us] (a ++ '"' :: (k ++ '"' :: (b ++ ':' :: t))) := by
  obtain ⟨x, v, y, hx, hv, hy, rfl⟩ := h
  exact .single ha hk hb hx hv hy

theorem members_cons (h : Members [us] t) (h' : Members keys t') :
    Members (us :: keys) (t ++ ',' :: t') := by
  cases h with
  | single ha hk hb hc hv hd => exact .cons ha hk hb hc hv hd h'
  | cons _ _ _ _ _ _ h => cases h

theorem Object.isText (h : Object keys t) : IsText t := by
  obtain ⟨x, m, y, hx, hy, hm, rfl⟩ := h
  have hv : Value ('\x7b' :: (m ++ ['\x7d'])) := by
    rcases hm with hm | ⟨-, hm⟩
    · exact .object hm
    · exact .emptyObject hm
  exact ⟨x, _, y, hx, hv, hy, by simp⟩

theorem HasKey.wellFormed {w : List UInt8} (h : HasKey k w) : WellFormed w := by
  obtain ⟨keys, t, ht, -, rfl⟩ := h
  exact ⟨t, ht.isText, rfl⟩

/-- A string without characters that need escaping spells itself. -/
theorem spells_self (h : ∀ c ∈ t, Unescaped c) : Spells t (units t) := by
  induction t with
  | nil => exact .nil
  | cons c t ih =>
    exact .unescaped (h c List.mem_cons_self) (ih fun x hx => h x (List.mem_cons_of_mem c hx))

theorem Spells.append {us' : List ℕ} (h : Spells t us) (h' : Spells t' us') :
    Spells (t ++ t') (us ++ us') := by
  induction h with
  | nil => exact h'
  | unescaped hc _ ih =>
    rw [List.append_assoc]
    exact .unescaped hc ih
  | escape hc _ ih => exact .escape hc ih
  | unicode h₁ h₂ h₃ h₄ _ ih => exact .unicode h₁ h₂ h₃ h₄ ih

/-- A body stands for one string. -/
theorem Spells.unique {us' : List ℕ} (h : Spells t us) (h' : Spells t us') : us = us' := by
  induction h generalizing us' with
  | nil =>
    cases h'
    rfl
  | unescaped hc _ ih =>
    cases h' with
    | unescaped _ h' => rw [ih h']
    | escape => exact absurd rfl hc.2.2
    | unicode => exact absurd rfl hc.2.2
  | escape hc _ ih =>
    cases h' with
    | unescaped hc' => exact absurd rfl hc'.2.2
    | escape hc' h' =>
      rw [hc] at hc'
      cases hc'
      rw [ih h']
    | unicode => cases hc
  | unicode h₁ h₂ h₃ h₄ _ ih =>
    cases h' with
    | unescaped hc' => exact absurd rfl hc'.2.2
    | escape hc' => cases hc'
    | unicode h₁' h₂' h₃' h₄' h' =>
      rw [h₁] at h₁'
      rw [h₂] at h₂'
      rw [h₃] at h₃'
      rw [h₄] at h₄'
      cases h₁'
      cases h₂'
      cases h₃'
      cases h₄'
      rw [ih h']

/-- The characters of a number. -/
theorem Number.mem (h : Number t) :
    ∀ c ∈ t, c.isDigit = true ∨ c ∈ ['-', '+', '.', 'e', 'E'] := by
  have hdigits : ∀ {ds : Text}, Digits ds → ∀ c ∈ ds, c.isDigit = true :=
    fun hds => hds.2
  obtain ⟨hsign, hint, hfrac, hexp⟩ := h
  intro c hc
  simp only [List.mem_append] at hc
  rcases hc with ((hc | hc) | hc) | hc
  · rcases hsign with rfl | rfl
    · cases hc
    · exact .inr (by simp_all)
  · rcases hint with rfl | ⟨hint, -⟩
    · exact .inl (by simp_all)
    · exact .inl (hdigits hint c hc)
  · rcases hfrac with rfl | ⟨ds, hds, rfl⟩
    · cases hc
    · rcases List.mem_cons.mp hc with rfl | hc
      · exact .inr (by simp)
      · exact .inl (hdigits hds c hc)
  · rcases hexp with rfl | ⟨e, sgn, ds, he, hsgn, hds, rfl⟩
    · cases hc
    · rcases List.mem_cons.mp hc with rfl | hc
      · exact .inr (by rcases he with rfl | rfl <;> simp)
      · rcases List.mem_append.mp hc with hc | hc
        · rcases hsgn with rfl | rfl | rfl
          · cases hc
          · exact .inr (by simp_all)
          · exact .inr (by simp_all)
        · exact .inl (hdigits hds c hc)

/-- What a JSON text can begin with. -/
theorem IsText.head (h : IsText t) :
    ∃ c rest, t = c :: rest ∧
      (isWs c = true ∨ c.isDigit = true ∨ c ∈ ['n', 't', 'f', '-', '"', '[', '\x7b']) := by
  obtain ⟨x, v, y, hx, hv, -, rfl⟩ := h
  have hvalue : ∃ c rest, v = c :: rest ∧
      (isWs c = true ∨ c.isDigit = true ∨ c ∈ ['n', 't', 'f', '-', '"', '[', '\x7b']) := by
    cases hv with
    | number hn =>
      obtain ⟨hsign, hint, -, -⟩ := hn
      have hdigit : ∀ int, IntPart int → ∃ c rest, int = c :: rest ∧ c.isDigit = true := by
        rintro int (rfl | ⟨⟨hne, hall⟩, -⟩)
        · exact ⟨'0', [], rfl, rfl⟩
        · obtain ⟨c, rest, rfl⟩ := List.exists_cons_of_ne_nil hne
          exact ⟨c, rest, rfl, hall c List.mem_cons_self⟩
      rcases hsign with rfl | rfl
      · obtain ⟨c, rest, rfl, hc⟩ := hdigit _ hint
        exact ⟨c, _, rfl, .inr (.inl hc)⟩
      · exact ⟨'-', _, rfl, by simp⟩
    | null | true | false | string | emptyArray | array | emptyObject | object =>
      exact ⟨_, _, rfl, by simp⟩
  cases x with
  | nil =>
    obtain ⟨c, rest, rfl, hc⟩ := hvalue
    exact ⟨c, rest ++ y, rfl, hc⟩
  | cons c x => exact ⟨c, x ++ v ++ y, rfl, .inl (hx c List.mem_cons_self)⟩

end Json

end Oxillama
