/-
Methods of Rust's `str` over text as a list of characters.

Lengths and positions count the bytes of the encoding, so a position is a
character boundary exactly if it is the length of a prefix.

* `splitAt_append`, `eq_append_of_splitAt` — slicing at a boundary;
* `find_spec` — the position `find` answers is that of the first occurrence;
* `First` — an occurrence that is the first, whatever follows it (`find_append_iff`).
-/
import Oxillama.Lib.Utf8

namespace Oxillama

namespace Text

/-- `str::len`. -/
def len (text : Text) : ℕ := (text.map Char.utf8Size).sum

/-- `(&text[..i], &text[i..])`, where `i` is a character boundary. -/
def splitAt (i : ℕ) : Text → Option (Text × Text)
  | [] => if i = 0 then some ([], []) else none
  | c :: text =>
    if i = 0 then some ([], c :: text)
    else if c.utf8Size ≤ i then
      (splitAt (i - c.utf8Size) text).map fun parts => (c :: parts.1, parts.2)
    else none

/-- `text.get(start..stop)`. -/
def slice (text : Text) (start stop : ℕ) : Option Text :=
  (splitAt stop text).bind fun parts => (splitAt start parts.1).map (·.2)

/-- `str::find`: the position of the first occurrence of `pat`. -/
def find : Text → Text → Option ℕ
  | [], pat => if pat.isPrefixOf [] then some 0 else none
  | c :: text, pat =>
    if pat.isPrefixOf (c :: text) then some 0 else (find text pat).map (c.utf8Size + ·)

/-- `char::is_whitespace`. -/
def isWhitespace (c : Char) : Bool :=
  [0x20, 0x85, 0xA0, 0x1680, 0x2028, 0x2029, 0x202F, 0x205F, 0x3000].contains c.toNat ||
    (0x09 ≤ c.toNat && c.toNat ≤ 0x0D) || (0x2000 ≤ c.toNat && c.toNat ≤ 0x200A)

/-- `str::trim`. -/
def trim (text : Text) : Text :=
  ((text.dropWhile isWhitespace).reverse.dropWhile isWhitespace).reverse

variable {text pre post pat : Text} {i p q : ℕ}

@[simp] theorem len_nil : len [] = 0 := rfl

@[simp] theorem len_cons (c : Char) (text : Text) : len (c :: text) = c.utf8Size + len text := rfl

@[simp] theorem len_append (pre post : Text) : len (pre ++ post) = len pre + len post := by
  simp [len]

theorem len_eq_zero (h : len text = 0) : text = [] := by
  cases text with
  | nil => rfl
  | cons c text =>
    have := c.utf8Size_pos
    rw [len_cons] at h
    omega

theorem len_le_of_prefix (h : pre <+: text) : len pre ≤ len text := by
  obtain ⟨post, rfl⟩ := h
  rw [len_append]
  exact Nat.le_add_right _ _

/-- A proper prefix is shorter. -/
theorem len_lt_of_prefix (h : pre <+: text) (hne : pre ≠ text) : len pre < len text := by
  obtain ⟨post, rfl⟩ := h
  rw [len_append]
  refine Nat.lt_add_of_pos_right (Nat.pos_of_ne_zero fun hzero => hne ?_)
  rw [len_eq_zero hzero, List.append_nil]

theorem ne_of_len_lt (h : len pre < len text) : pre ≠ text := by
  rintro rfl
  exact Nat.lt_irrefl _ h

/-- Slicing at the end of a prefix. -/
theorem splitAt_append (pre post : Text) : splitAt (len pre) (pre ++ post) = some (pre, post) := by
  induction pre with
  | nil => cases post <;> rfl
  | cons c pre ih =>
    have hpos := c.utf8Size_pos
    rw [len_cons, List.cons_append, splitAt, if_neg (by omega), if_pos (Nat.le_add_right _ _),
      Nat.add_sub_cancel_left, ih]
    rfl

/-- Slicing behind a prefix. -/
theorem splitAt_add (pre text : Text) (i : ℕ) : splitAt (len pre + i) (pre ++ text) =
    (splitAt i text).map fun parts => (pre ++ parts.1, parts.2) := by
  induction pre with
  | nil => simp
  | cons c pre ih =>
    have hpos := c.utf8Size_pos
    have hsub : c.utf8Size + len pre + i - c.utf8Size = len pre + i := by omega
    rw [len_cons, List.cons_append, splitAt, if_neg (by omega), if_pos (by omega), hsub, ih,
      Option.map_map]
    rfl

/-- Slicing between two prefixes. -/
theorem slice_append (pre mid post : Text) :
    slice (pre ++ mid ++ post) (len pre) (len (pre ++ mid)) = some mid := by
  rw [slice, splitAt_append, Option.bind_some, splitAt_append]
  rfl

/-- What is sliced makes up the text. -/
theorem eq_append_of_splitAt (h : splitAt i text = some (pre, post)) :
    text = pre ++ post ∧ len pre = i := by
  induction text generalizing i pre post with
  | nil =>
    rw [splitAt] at h
    split at h
    · rename_i hzero
      obtain ⟨rfl, rfl⟩ := Prod.mk.inj (Option.some.inj h)
      exact ⟨rfl, hzero.symm⟩
    · cases h
  | cons c text ih =>
    rw [splitAt] at h
    split at h
    · rename_i hzero
      obtain ⟨rfl, rfl⟩ := Prod.mk.inj (Option.some.inj h)
      exact ⟨rfl, hzero.symm⟩
    · split at h
      · rename_i hle
        obtain ⟨⟨pre', post'⟩, hsplit, heq⟩ := Option.map_eq_some_iff.mp h
        obtain ⟨rfl, rfl⟩ := Prod.mk.inj heq
        obtain ⟨rfl, hlen⟩ := ih hsplit
        refine ⟨rfl, ?_⟩
        rw [len_cons]
        dsimp only
        omega
      · cases h

theorem len_take_le (h : p ≤ q) : len (text.take p) ≤ len (text.take q) :=
  len_le_of_prefix (List.take_prefix_take_left h)

/-- Positions of a text in order. -/
theorem len_take_lt (h : p < q) (hq : q ≤ text.length) : len (text.take p) < len (text.take q) := by
  refine len_lt_of_prefix (List.take_prefix_take_left (Nat.le_of_lt h)) fun heq => ?_
  have hlen := congrArg List.length heq
  rw [List.length_take, List.length_take] at hlen
  omega

theorem find_eq_none (h : find text pat = none) (p : ℕ) : ¬ pat <+: text.drop p := by
  induction text generalizing p with
  | nil =>
    rw [find] at h
    split at h
    · cases h
    · rename_i hpre
      rw [List.drop_nil]
      exact fun hp => hpre (List.isPrefixOf_iff_prefix.mpr hp)
  | cons c text ih =>
    rw [find] at h
    split at h
    · cases h
    · rename_i hpre
      cases p with
      | zero => exact fun hp => hpre (List.isPrefixOf_iff_prefix.mpr hp)
      | succ p => exact ih (Option.map_eq_none_iff.mp h) p

/-- **`find` answers the first occurrence.** -/
theorem find_spec (h : find text pat = some i) : ∃ p ≤ text.length, len (text.take p) = i ∧
    pat <+: text.drop p ∧ ∀ q, pat <+: text.drop q → p ≤ q := by
  induction text generalizing i with
  | nil =>
    rw [find] at h
    split at h
    · rename_i hpre
      obtain rfl := Option.some.inj h
      exact ⟨0, le_rfl, rfl, List.isPrefixOf_iff_prefix.mp hpre, fun _ _ => Nat.zero_le _⟩
    · cases h
  | cons c text ih =>
    rw [find] at h
    split at h
    · rename_i hpre
      obtain rfl := Option.some.inj h
      exact ⟨0, Nat.zero_le _, rfl, List.isPrefixOf_iff_prefix.mp hpre, fun _ _ => Nat.zero_le _⟩
    · rename_i hpre
      obtain ⟨j, hfind, rfl⟩ := Option.map_eq_some_iff.mp h
      obtain ⟨p, hp, rfl, hocc, hfirst⟩ := ih hfind
      refine ⟨p + 1, Nat.succ_le_succ hp, rfl, hocc, fun q hq => ?_⟩
      cases q with
      | zero => exact absurd (List.isPrefixOf_iff_prefix.mpr hq) hpre
      | succ q => exact Nat.succ_le_succ (hfirst q hq)

theorem find_eq_none_iff : find text pat = none ↔ ¬ pat <:+: text := by
  constructor
  · rintro h ⟨pre, post, rfl⟩
    refine find_eq_none h pre.length ?_
    rw [List.append_assoc, List.drop_left]
    exact List.prefix_append _ _
  · intro h
    rcases hfind : find text pat with - | i
    · rfl
    · obtain ⟨p, -, -, hocc, -⟩ := find_spec hfind
      exact absurd (hocc.isInfix.trans (List.drop_suffix p text).isInfix) h

/-! ### First occurrences -/

/-- No occurrence of `pat` in `pre ++ pat` is before the one at its end. -/
def First (pat pre : Text) : Prop :=
  ∀ pre' post', pre' ++ pat ++ post' = pre ++ pat → pre.length ≤ pre'.length

/-- Every occurrence is behind the first. -/
theorem First.le {pre' post' : Text} (h : First pat pre)
    (htext : pre' ++ pat ++ post' = pre ++ pat ++ post) : pre <+: pre' := by
  have hpre : pre <+: pre' ++ pat ++ post' := ⟨pat ++ post, by rw [htext, List.append_assoc]⟩
  have hpre' : pre' <+: pre' ++ pat ++ post' := ⟨pat ++ post', (List.append_assoc _ _ _).symm⟩
  rcases Nat.le_total pre.length pre'.length with hle | hle
  · exact List.prefix_of_prefix_length_le hpre hpre' hle
  · have hends : pre' ++ pat <+: pre ++ pat := by
      refine List.prefix_of_prefix_length_le (List.prefix_append _ post')
        (htext ▸ List.prefix_append _ post) ?_
      rw [List.length_append, List.length_append]
      omega
    obtain ⟨rest, hrest⟩ := hends
    exact List.prefix_of_prefix_length_le hpre hpre' (h pre' rest hrest)

/-- The answer of `find` as a way to cut the text. -/
theorem find_eq_some_iff : find text pat = some i ↔
    ∃ pre post, text = pre ++ pat ++ post ∧ len pre = i ∧ First pat pre := by
  constructor
  · intro h
    obtain ⟨p, hp, hlen, ⟨post, hpost⟩, hfirst⟩ := find_spec h
    have htext : text = text.take p ++ pat ++ post := by
      rw [List.append_assoc, hpost, List.take_append_drop]
    refine ⟨text.take p, post, htext, hlen, ?_⟩
    intro pre' post' hpre'
    rw [List.length_take, Nat.min_eq_left hp]
    refine hfirst _ ?_
    rw [htext, ← hpre', List.append_assoc, List.append_assoc, List.drop_left]
    exact List.prefix_append _ _
  · rintro ⟨pre, post, htext, rfl, hfirst⟩
    rcases hfind : find text pat with - | j
    · exact absurd ⟨pre, post, htext.symm⟩ (find_eq_none_iff.1 hfind)
    · obtain ⟨p, hp, rfl, ⟨post', hpost'⟩, hleast⟩ := find_spec hfind
      have hcut : text.take p ++ pat ++ post' = pre ++ pat ++ post := by
        rw [← htext, List.append_assoc, hpost', List.take_append_drop]
      have hge : p ≤ pre.length := by
        refine hleast _ ?_
        rw [htext, List.append_assoc, List.drop_left]
        exact List.prefix_append _ _
      have hinit := hfirst.le hcut
      rw [hinit.eq_of_length_le (by rw [List.length_take]; omega)]

/-- Whether an occurrence is the first does not depend on what follows it. -/
theorem find_append_iff : find (pre ++ pat ++ post) pat = some (len pre) ↔ First pat pre := by
  constructor
  · intro h
    obtain ⟨first, rest, htext, hlen, hfirst⟩ := find_eq_some_iff.1 h
    have hinit := hfirst.le htext
    have heq : first = pre := by
      by_contra hne
      exact absurd hlen (Nat.ne_of_lt (Text.len_lt_of_prefix hinit hne))
    rw [← heq]
    exact hfirst
  · intro h
    exact find_eq_some_iff.2 ⟨pre, post, rfl, rfl, h⟩

instance : Decidable (First pat pre) :=
  decidable_of_iff (find (pre ++ pat ++ []) pat = some (len pre)) find_append_iff

end Text

end Oxillama
