/-
What `serde_json::from_str` makes of JSON texts without numbers and escapes.

* `ReadsAs order n t v` — the text `t`, in which arrays and objects nest at most `n` deep,
  stands for the value `v`; a map iterates over its members as `order` says, and of members
  with one key it keeps the last;
* `Deserializes order fromStr` — `from_str` reads such texts, up to the nesting it allows;
* `readText` — a reader that does (`deserializes_readText`).
-/
import Oxillama.Schema.Value

namespace Oxillama

namespace Schema

open Json (Ws isWs Unescaped)

/-! ### Texts and their values -/

/-- A value in a text, between whitespace. -/
structure Item where
  before : Text
  text : Text
  after : Text
  value : Value

/-- A member of an object in a text: a key, between whitespace, and a value. -/
structure Member extends Item where
  beforeKey : Text
  key : String
  afterKey : Text

def Item.padded (i : Item) : Text := i.before ++ i.text ++ i.after

def Member.padded (m : Member) : Text :=
  m.beforeKey ++ '"' :: (m.key.toList ++ '"' :: (m.afterKey ++ ':' :: m.toItem.padded))

/-- Between commas. -/
def commas : List Text → Text
  | [] => []
  | [t] => t
  | t :: t' :: ts => t ++ ',' :: commas (t' :: ts)

/-- The members that a map has when these have been inserted one after the other. -/
def ofMembers (members : List (String × Value)) : Object :=
  members.foldl (fun obj m => obj.insert m.1 m.2) []

/-- The text stands for the value, and its arrays and objects nest at most `n` deep. -/
inductive ReadsAs (order : Object → Object) : ℕ → Text → Value → Prop
  | null {n : ℕ} : ReadsAs order n ['n', 'u', 'l', 'l'] .null
  | boolTrue {n : ℕ} : ReadsAs order n ['t', 'r', 'u', 'e'] (.bool true)
  | boolFalse {n : ℕ} : ReadsAs order n ['f', 'a', 'l', 's', 'e'] (.bool false)
  | string {n : ℕ} {s : String} (h : ∀ c ∈ s.toList, Unescaped c) :
      ReadsAs order n ('"' :: (s.toList ++ ['"'])) (.string s)
  | emptyArray {n : ℕ} {t : Text} (h : Ws t) :
      ReadsAs order (n + 1) ('[' :: (t ++ [']'])) (.array [])
  | array {n : ℕ} {items : List Item} (hne : items ≠ [])
      (hws : ∀ i ∈ items, Ws i.before ∧ Ws i.after)
      (h : ∀ i ∈ items, ReadsAs order n i.text i.value) :
      ReadsAs order (n + 1) ('[' :: (commas (items.map Item.padded) ++ [']']))
        (.array (items.map Item.value))
  | emptyObject {n : ℕ} {t : Text} (h : Ws t) :
      ReadsAs order (n + 1) ('\x7b' :: (t ++ ['\x7d'])) (.object (order []))
  | object {n : ℕ} {members : List Member} (hne : members ≠ [])
      (hws : ∀ m ∈ members, Ws m.beforeKey ∧ Ws m.afterKey ∧ Ws m.before ∧ Ws m.after)
      (hkey : ∀ m ∈ members, ∀ c ∈ m.key.toList, Unescaped c)
      (h : ∀ m ∈ members, ReadsAs order n m.text m.value) :
      ReadsAs order (n + 1) ('\x7b' :: (commas (members.map Member.padded) ++ ['\x7d']))
        (.object (order (ofMembers (members.map fun m => (m.key, m.value)))))

/-- `from_str` reads the texts that nest less than 128 deep, into maps that iterate over
their members in some order. -/
structure Deserializes (order : Object → Object) (fromStr : Text → Option Value) : Prop where
  perm : ∀ members, (order members).Perm members
  reads : ∀ t v, ReadsAs order 127 t v → fromStr t = some v

section Texts

variable {order : Object → Object} {n : ℕ} {t : Text} {v : Value}

/-- Nesting may be less deep than it may be. -/
theorem ReadsAs.mono (h : ReadsAs order n t v) {m : ℕ} (hle : n ≤ m) : ReadsAs order m t v := by
  induction h generalizing m with
  | null => exact .null
  | boolTrue => exact .boolTrue
  | boolFalse => exact .boolFalse
  | string h => exact .string h
  | emptyArray h =>
    obtain ⟨m, rfl⟩ : ∃ k, m = k + 1 := ⟨m - 1, by omega⟩
    exact .emptyArray h
  | array hne hws _ ih =>
    obtain ⟨m, rfl⟩ : ∃ k, m = k + 1 := ⟨m - 1, by omega⟩
    exact .array hne hws fun i hi => ih i hi (by omega)
  | emptyObject h =>
    obtain ⟨m, rfl⟩ : ∃ k, m = k + 1 := ⟨m - 1, by omega⟩
    exact .emptyObject h
  | object hne hws hkey _ ih =>
    obtain ⟨m, rfl⟩ : ∃ k, m = k + 1 := ⟨m - 1, by omega⟩
    exact .object hne hws hkey fun i hi => ih i hi (by omega)

/-- A value begins neither with whitespace nor with a closing bracket. -/
theorem ReadsAs.head (h : ReadsAs order n t v) :
    ∃ c rest, t = c :: rest ∧ isWs c = false ∧ c ≠ ']' := by
  cases h <;> exact ⟨_, _, rfl, rfl, by decide⟩

theorem commas_cons {ts : List Text} (hne : ts ≠ []) :
    commas (t :: ts) = t ++ ',' :: commas ts := by
  obtain ⟨t', ts, rfl⟩ := List.exists_cons_of_ne_nil hne
  rfl

theorem length_le_commas (ts : List Text) : ts.length ≤ (commas ts).length + 1 := by
  induction ts with
  | nil => exact Nat.zero_le _
  | cons t ts ih =>
    cases ts with
    | nil => simp
    | cons t' ts =>
      have hlen : (commas (t :: t' :: ts)).length =
          t.length + ((commas (t' :: ts)).length + 1) := by
        rw [commas, List.length_append, List.length_cons]
      rw [hlen, List.length_cons]
      omega

end Texts

/-! ### A reader -/

/-- The text from the first character on that is not whitespace. -/
def skipWs (t : Text) : Text := t.dropWhile isWs

/-- The rest of a string, up to the closing quotation mark. -/
def readString (t : Text) : Option (String × Text) :=
  match t.dropWhile (· != '"') with
  | '"' :: rest => some (String.ofList (t.takeWhile (· != '"')), rest)
  | _ => none

section Readers

variable (value : Text → Option (Value × Text))

/-- The rest of an array that is not empty; it has at most as many items as the first
argument says. -/
def readItems : ℕ → Text → Option (List Value × Text)
  | 0, _ => none
  | k + 1, t => do
    let (v, t) ← value (skipWs t)
    match skipWs t with
    | ',' :: t =>
      let (vs, t) ← readItems k t
      return (v :: vs, t)
    | ']' :: t => return ([v], t)
    | _ => none

/-- The rest of an object that is not empty. -/
def readMembers : ℕ → Text → Option (List (String × Value) × Text)
  | 0, _ => none
  | k + 1, t =>
    match skipWs t with
    | '"' :: t => do
      let (key, t) ← readString t
      match skipWs t with
      | ':' :: t =>
        let (v, t) ← value (skipWs t)
        match skipWs t with
        | ',' :: t =>
          let (members, t) ← readMembers k t
          return ((key, v) :: members, t)
        | '\x7d' :: t => return ([(key, v)], t)
        | _ => none
      | _ => none
    | _ => none

end Readers

/-- A value in which arrays and objects nest less deep than the first argument says. -/
def readValue : ℕ → Text → Option (Value × Text)
  | 0, _ => none
  | n + 1, t =>
    match t with
    | 'n' :: 'u' :: 'l' :: 'l' :: t => some (.null, t)
    | 't' :: 'r' :: 'u' :: 'e' :: t => some (.bool true, t)
    | 'f' :: 'a' :: 'l' :: 's' :: 'e' :: t => some (.bool false, t)
    | '"' :: t => (readString t).map fun r => (.string r.1, r.2)
    | '[' :: t =>
      match skipWs t with
      | ']' :: t => some (.array [], t)
      | _ => (readItems (readValue n) t.length t).map fun r => (.array r.1, r.2)
    | '\x7b' :: t =>
      match skipWs t with
      | '\x7d' :: t => some (.object [], t)
      | _ => (readMembers (readValue n) t.length t).map fun r => (.object (ofMembers r.1), r.2)
    | _ => none

/-- A text that is one value. -/
def readText (t : Text) : Option Value :=
  match readValue 128 t with
  | some (v, rest) => if skipWs rest = [] then some v else none
  | none => none

section Reading

variable {a t rest : Text} {n k : ℕ} {v : Value} {value : Text → Option (Value × Text)}

theorem skipWs_append (ha : Ws a) {c : Char} (hc : isWs c = false) (rest : Text) :
    skipWs (a ++ c :: rest) = c :: rest := by
  rw [skipWs, List.dropWhile_append_of_pos ha, List.dropWhile_cons_of_neg]
  simp [hc]

theorem readString_append {s : String} (hs : ∀ c ∈ s.toList, Unescaped c) (rest : Text) :
    readString (s.toList ++ '"' :: rest) = some (s, rest) := by
  have hall : ∀ c ∈ s.toList, (c != '"') = true := by
    intro c hc
    simpa using (hs c hc).2.1
  have hdrop : (s.toList ++ '"' :: rest).dropWhile (· != '"') = '"' :: rest := by
    rw [List.dropWhile_append_of_pos hall]
    rfl
  have htake : (s.toList ++ '"' :: rest).takeWhile (· != '"') = s.toList := by
    rw [List.takeWhile_append_of_pos hall]
    exact List.append_nil _
  unfold readString
  rw [hdrop, htake, String.ofList_toList]
  rfl

/-- `value` reads the value of the item, which is between whitespace. -/
def Item.IsReadBy (i : Item) (value : Text → Option (Value × Text)) : Prop :=
  Ws i.before ∧ Ws i.after ∧ (∃ c rest, i.text = c :: rest ∧ isWs c = false) ∧
    ∀ rest, value (i.text ++ rest) = some (i.value, rest)

theorem Item.IsReadBy.skip {i : Item} (h : i.IsReadBy value) (rest : Text) :
    value (skipWs (i.padded ++ rest)) = some (i.value, i.after ++ rest) := by
  obtain ⟨hbefore, -, ⟨c, tail, htext, hc⟩, hvalue⟩ := h
  have htail : i.padded ++ rest = i.before ++ c :: (tail ++ (i.after ++ rest)) := by
    rw [Item.padded, htext]
    simp only [List.append_assoc, List.cons_append]
  rw [htail, skipWs_append hbefore hc, ← List.cons_append, ← htext, hvalue]

theorem readItems_commas {items : List Item} (hne : items ≠ [])
    (h : ∀ i ∈ items, i.IsReadBy value) (hk : items.length ≤ k) (rest : Text) :
    readItems value k (commas (items.map Item.padded) ++ ']' :: rest) =
      some (items.map Item.value, rest) := by
  induction items generalizing k with
  | nil => exact absurd rfl hne
  | cons i items ih =>
    obtain ⟨k, rfl⟩ : ∃ m, k = m + 1 := ⟨k - 1, by rw [List.length_cons] at hk; omega⟩
    have hi := h i List.mem_cons_self
    cases items with
    | nil =>
      show readItems value (k + 1) (i.padded ++ ']' :: rest) = _
      rw [readItems, hi.skip]
      show (match skipWs (i.after ++ ']' :: rest) with
        | ',' :: t => (readItems value k t).bind fun r => some (i.value :: r.1, r.2)
        | ']' :: t => some ([i.value], t)
        | _ => none) = _
      rw [skipWs_append hi.2.1 rfl]
      rfl
    | cons i' items =>
      have hrest := ih (List.cons_ne_nil _ _) (fun j hj => h j (List.mem_cons_of_mem i hj))
        (k := k) (by rw [List.length_cons] at hk; omega)
      have htext : commas ((i :: i' :: items).map Item.padded) ++ ']' :: rest =
          i.padded ++ ',' :: (commas ((i' :: items).map Item.padded) ++ ']' :: rest) := by
        simp only [List.map_cons, commas, List.append_assoc, List.cons_append]
      rw [htext, readItems, hi.skip]
      show (match skipWs (i.after ++ ',' :: (commas ((i' :: items).map Item.padded) ++
          ']' :: rest)) with
        | ',' :: t => (readItems value k t).bind fun r => some (i.value :: r.1, r.2)
        | ']' :: t => some ([i.value], t)
        | _ => none) = _
      rw [skipWs_append hi.2.1 rfl]
      show (readItems value k _).bind _ = _
      rw [hrest]
      rfl

/-- The key of a member is read, and then its value. -/
theorem readMembers_padded {m : Member} (hm : m.toItem.IsReadBy value)
    (hws : Ws m.beforeKey ∧ Ws m.afterKey) (hkey : ∀ c ∈ m.key.toList, Unescaped c)
    (rest : Text) :
    readMembers value (k + 1) (m.padded ++ rest) =
      match skipWs (m.after ++ rest) with
      | ',' :: t => (readMembers value k t).bind fun r => some ((m.key, m.value) :: r.1, r.2)
      | '\x7d' :: t => some ([(m.key, m.value)], t)
      | _ => none := by
  have htext : m.padded ++ rest = m.beforeKey ++ '"' :: (m.key.toList ++ '"' ::
      (m.afterKey ++ ':' :: (m.toItem.padded ++ rest))) := by
    simp only [Member.padded, List.append_assoc, List.cons_append]
  rw [htext, readMembers, skipWs_append hws.1 rfl]
  show (readString _).bind _ = _
  rw [readString_append hkey]
  show (match skipWs (m.afterKey ++ ':' :: (m.toItem.padded ++ rest)) with
    | ':' :: t => (value (skipWs t)).bind _
    | _ => none) = _
  rw [skipWs_append hws.2 rfl]
  show (value (skipWs (m.toItem.padded ++ rest))).bind _ = _
  rw [hm.skip]
  rfl

theorem readMembers_commas {members : List Member} (hne : members ≠ [])
    (h : ∀ m ∈ members, m.toItem.IsReadBy value ∧ (Ws m.beforeKey ∧ Ws m.afterKey) ∧
      ∀ c ∈ m.key.toList, Unescaped c) (hk : members.length ≤ k) (rest : Text) :
    readMembers value k (commas (members.map Member.padded) ++ '\x7d' :: rest) =
      some (members.map fun m => (m.key, m.value), rest) := by
  induction members generalizing k with
  | nil => exact absurd rfl hne
  | cons m members ih =>
    obtain ⟨k, rfl⟩ : ∃ j, k = j + 1 := ⟨k - 1, by rw [List.length_cons] at hk; omega⟩
    obtain ⟨hm, hws, hkey⟩ := h m List.mem_cons_self
    cases members with
    | nil =>
      show readMembers value (k + 1) (m.padded ++ '\x7d' :: rest) = _
      rw [readMembers_padded hm hws hkey, skipWs_append hm.2.1 rfl]
      rfl
    | cons m' members =>
      have hrest := ih (List.cons_ne_nil _ _) (fun j hj => h j (List.mem_cons_of_mem m hj))
        (k := k) (by rw [List.length_cons] at hk; omega)
      have htext : commas ((m :: m' :: members).map Member.padded) ++ '\x7d' :: rest =
          m.padded ++ ',' :: (commas ((m' :: members).map Member.padded) ++ '\x7d' :: rest) := by
        simp only [List.map_cons, commas, List.append_assoc, List.cons_append]
      rw [htext, readMembers_padded hm hws hkey, skipWs_append hm.2.1 rfl]
      show (readMembers value k _).bind _ = _
      rw [hrest]
      rfl

/-- What is between the brackets is not taken for an empty array or object. -/
theorem skipWs_commas {ts : List Text} (hne : ts ≠ []) {close : Char}
    (h : ∀ t ∈ ts, ∃ a c tail, Ws a ∧ t = a ++ c :: tail ∧ isWs c = false ∧ c ≠ close)
    (rest : Text) : ∃ c tail, skipWs (commas ts ++ rest) = c :: tail ∧ c ≠ close := by
  obtain ⟨t, ts, rfl⟩ := List.exists_cons_of_ne_nil hne
  obtain ⟨a, c, tail, ha, rfl, hc, hclose⟩ := h t List.mem_cons_self
  have htext : ∃ more, commas ((a ++ c :: tail) :: ts) ++ rest = a ++ c :: more := by
    cases ts with
    | nil => exact ⟨tail ++ rest, by simp only [commas, List.append_assoc, List.cons_append]⟩
    | cons t' ts => exact ⟨_, by simp only [commas, List.append_assoc, List.cons_append]; rfl⟩
  obtain ⟨more, hmore⟩ := htext
  exact ⟨c, more, by rw [hmore, skipWs_append ha hc], hclose⟩

/-- **Every text that stands for a value is read.** -/
theorem readValue_append (h : ReadsAs id n t v) (rest : Text) :
    readValue (n + 1) (t ++ rest) = some (v, rest) := by
  induction h generalizing rest with
  | null => rfl
  | boolTrue => rfl
  | boolFalse => rfl
  | string hs =>
    rw [List.cons_append, List.append_assoc]
    show (readString _).map _ = _
    rw [List.singleton_append, readString_append hs]
    rfl
  | emptyArray hws =>
    rw [List.cons_append, List.append_assoc, List.singleton_append]
    show (match skipWs _ with
      | ']' :: t => some (Value.array [], t)
      | _ => _) = _
    rw [skipWs_append hws rfl]
    rfl
  | @array n items hne hws hreads ih =>
    have hitems : ∀ i ∈ items, i.IsReadBy (readValue (n + 1)) := by
      intro i hi
      obtain ⟨c, tail, htext, hc, -⟩ := (hreads i hi).head
      exact ⟨(hws i hi).1, (hws i hi).2, ⟨c, tail, htext, hc⟩, ih i hi⟩
    have hstarts : ∀ p ∈ items.map Item.padded, ∃ a c tail, Ws a ∧ p = a ++ c :: tail ∧
        isWs c = false ∧ c ≠ ']' := by
      intro p hp
      obtain ⟨i, hi, rfl⟩ := List.mem_map.mp hp
      obtain ⟨c, tail, htext, hc, hclose⟩ := (hreads i hi).head
      refine ⟨i.before, c, tail ++ i.after, (hws i hi).1, ?_, hc, hclose⟩
      rw [Item.padded, htext, List.append_assoc, List.cons_append]
    obtain ⟨c, tail, hskip, hclose⟩ :=
      skipWs_commas (mt List.map_eq_nil_iff.mp hne) hstarts (']' :: rest)
    have hlen : items.length ≤ (commas (items.map Item.padded) ++ ']' :: rest).length := by
      have hle := length_le_commas (items.map Item.padded)
      rw [List.length_map] at hle
      rw [List.length_append, List.length_cons]
      omega
    rw [List.cons_append, List.append_assoc, List.singleton_append]
    show (match skipWs (commas (items.map Item.padded) ++ ']' :: rest) with
      | ']' :: t => some (Value.array [], t)
      | _ => (readItems _ _ _).map _) = _
    rw [hskip, readItems_commas hne hitems hlen]
    split
    · rename_i heq
      exact absurd (List.cons.inj heq).1 hclose
    · rfl
  | emptyObject hws =>
    rw [List.cons_append, List.append_assoc, List.singleton_append]
    show (match skipWs _ with
      | '\x7d' :: t => some (Value.object [], t)
      | _ => _) = _
    rw [skipWs_append hws rfl]
    rfl
  | @object n members hne hws hkey hreads ih =>
    have hmembers : ∀ m ∈ members, m.toItem.IsReadBy (readValue (n + 1)) ∧
        (Ws m.beforeKey ∧ Ws m.afterKey) ∧ ∀ c ∈ m.key.toList, Unescaped c := by
      intro m hm
      obtain ⟨c, tail, htext, hc, -⟩ := (hreads m hm).head
      obtain ⟨hbeforeKey, hafterKey, hbefore, hafter⟩ := hws m hm
      exact ⟨⟨hbefore, hafter, ⟨c, tail, htext, hc⟩, ih m hm⟩, ⟨hbeforeKey, hafterKey⟩, hkey m hm⟩
    have hstarts : ∀ p ∈ members.map Member.padded, ∃ a c tail, Ws a ∧ p = a ++ c :: tail ∧
        isWs c = false ∧ c ≠ '\x7d' := by
      intro p hp
      obtain ⟨m, hm, rfl⟩ := List.mem_map.mp hp
      exact ⟨m.beforeKey, '"', _, (hws m hm).1, rfl, rfl, by decide⟩
    obtain ⟨c, tail, hskip, hclose⟩ :=
      skipWs_commas (mt List.map_eq_nil_iff.mp hne) hstarts ('\x7d' :: rest)
    have hlen : members.length ≤ (commas (members.map Member.padded) ++ '\x7d' :: rest).length := by
      have hle := length_le_commas (members.map Member.padded)
      rw [List.length_map] at hle
      rw [List.length_append, List.length_cons]
      omega
    rw [List.cons_append, List.append_assoc, List.singleton_append]
    show (match skipWs (commas (members.map Member.padded) ++ '\x7d' :: rest) with
      | '\x7d' :: t => some (Value.object [], t)
      | _ => (readMembers _ _ _).map _) = _
    rw [hskip, readMembers_commas hne hmembers hlen]
    split
    · rename_i heq
      exact absurd (List.cons.inj heq).1 hclose
    · rfl

/-- The reader, whose maps keep the order of the text, is one that `from_str` may be. -/
theorem deserializes_readText : Deserializes id readText where
  perm := fun _ => .rfl
  reads := by
    intro t v h
    have hread := readValue_append h []
    rw [List.append_nil] at hread
    unfold readText
    rw [hread]
    rfl

end Reading

end Schema

end Oxillama
