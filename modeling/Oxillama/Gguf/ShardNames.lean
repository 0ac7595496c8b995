/-
The names of shards (`oxillama-gguf/src/sharded.rs`).

A shard is named `<base>-NNNNN-of-MMMMM.gguf`, and the parser of such names takes
any extension, a sign and any number of digits.

* `parseU32_pad`, `pad_eq_iff` — a number that is printed is read back, and which
  fields are what the printer prints;
* `parseShardId_stem` — what is read of a stem;
* `invertible_iff` — **a name is the name of its own shard, just when it ends in `gguf`
  and its fields are as they are printed**;
* `not_invertible_short` — fields of one digit.
-/
import Mathlib

namespace Oxillama

namespace Gguf

/-! ### File names -/

/-- The units of a file name: characters, and bytes that are part of none. -/
abbrev OsStr := List (Char ⊕ UInt8)

/-- A string as a file name. -/
def OsStr.ofText (text : List Char) : OsStr := text.map .inl

/-- `to_str`. -/
def OsStr.toStr (s : OsStr) : Option (List Char) :=
  s.mapM fun
    | .inl c => some c
    | .inr _ => none

/-- `rsplit_file_at_dot`: what `file_stem` and `extension` take of a file name. -/
def splitAtDot (name : OsStr) : OsStr × Option OsStr :=
  let dot : Char ⊕ UInt8 := .inl '.'
  let after := (name.reverse.takeWhile (· ≠ dot)).reverse
  let before := (name.reverse.dropWhile (· ≠ dot)).tail.reverse
  if name = [dot, dot] ∨ before = [] then (name, none) else (before, some after)

/-- A path: the components of its parent, and its file name, if it has one.  A path without a
parent has no file name either. -/
structure FilePath where
  dir : List OsStr
  fileName : Option OsStr

/-! ### Shards -/

/-- `ShardId`. -/
structure ShardId where
  dir : List OsStr
  base : List Char
  index : ℕ
  total : ℕ

/-- `format!("{n:05}")`. -/
def pad (n : ℕ) : List Char := List.leftpad 5 '0' (Nat.toDigits 10 n)

/-- The stem of the name of a shard. -/
def shardStem (base indexStr totalStr : List Char) : List Char :=
  base ++ '-' :: (indexStr ++ '-' :: ("of".toList ++ '-' :: totalStr))

/-- `ShardId::path_for_index`. -/
def ShardId.pathForIndex (id : ShardId) (index : ℕ) : FilePath where
  dir := id.dir
  fileName := some (.ofText (shardStem id.base (pad index) (pad id.total) ++ ".gguf".toList))

/-- A field without its sign; a sign alone stays. -/
def unsigned : List Char → List Char
  | '+' :: c :: rest => c :: rest
  | field => field

/-- `str::parse::<u32>`. -/
def parseU32 (field : List Char) : Option ℕ :=
  let digits := unsigned field
  let n := Nat.ofDigitChars 10 digits 0
  if digits ≠ [] ∧ (∀ c ∈ digits, c.isDigit) ∧ n < 2 ^ 32 then some n else none

/-- `parse_shard_id`. -/
def parseShardId (path : FilePath) : Option ShardId := do
  let name ← path.fileName
  let stem ← (splitAtDot name).1.toStr
  let parts := stem.splitOn '-'
  if parts.length < 4 then none
  else
    let totalStr ← parts.getLast?
    let ofStr ← parts[parts.length - 2]?
    let indexStr ← parts[parts.length - 3]?
    if ofStr ≠ "of".toList then none
    else
      let total ← parseU32 totalStr
      let index ← parseU32 indexStr
      if total = 0 ∨ index = 0 ∨ index > total then none
      else
        let baseParts := parts.take (parts.length - 3)
        some ⟨path.dir, ['-'].intercalate baseParts, index, total⟩

/-- The files that `load_sharded` opens, one behind the other. -/
def ShardId.paths (id : ShardId) : List FilePath :=
  (List.range id.total).map fun i => id.pathForIndex (i + 1)

/-! ### Numbers -/

section Numbers

variable {n : ℕ} {field : List Char}

theorem digitChar_of_isDigit {c : Char} (h : c.isDigit) : Nat.digitChar (c.toNat - 48) = c := by
  have hrange : 48 ≤ c.toNat ∧ c.toNat ≤ 57 := by
    rw [Char.isDigit, Bool.and_eq_true, decide_eq_true_eq, decide_eq_true_eq] at h
    exact h
  refine Char.toNat_inj.mp ?_
  rw [Nat.toNat_digitChar_of_lt_ten (by omega)]
  omega

theorem lt_ten_of_isDigit {c : Char} (h : c.isDigit) : c.toNat - 48 < 10 := by
  rw [Char.isDigit, Bool.and_eq_true, decide_eq_true_eq, decide_eq_true_eq] at h
  have hle : c.toNat ≤ 57 := h.2
  omega

/-- Digits behind a number that is not zero. -/
theorem toDigits_append (h : ∀ c ∈ field, c.isDigit) (hn : 0 < n) :
    Nat.toDigits 10 n ++ field = Nat.toDigits 10 (Nat.ofDigitChars 10 field n) := by
  induction field generalizing n with
  | nil => exact List.append_nil _
  | cons c field ih =>
    have hc := h c List.mem_cons_self
    have hstep := Nat.toDigits_append_toDigits (b := 10) (by decide) hn (lt_ten_of_isDigit hc)
    rw [Nat.toDigits_of_lt_base (lt_ten_of_isDigit hc), digitChar_of_isDigit hc] at hstep
    rw [Nat.ofDigitChars_cons, ← ih (fun d hd => h d (List.mem_cons_of_mem c hd)) (by omega),
      List.append_cons, hstep]
    rfl

/-- **Digits that do not begin with zero are printed as they were read.** -/
theorem toDigits_ofDigitChars {c : Char} (h : ∀ d ∈ c :: field, d.isDigit) (hc : c ≠ '0') :
    Nat.toDigits 10 (Nat.ofDigitChars 10 (c :: field) 0) = c :: field := by
  have hdigit := h c List.mem_cons_self
  have hpos : 0 < c.toNat - 48 := by
    refine Nat.pos_of_ne_zero fun hzero => hc ?_
    rw [← digitChar_of_isDigit hdigit, hzero]
    rfl
  rw [Nat.ofDigitChars_cons, Nat.mul_zero, Nat.zero_add]
  change Nat.toDigits 10 (Nat.ofDigitChars 10 field (c.toNat - 48)) = c :: field
  rw [← toDigits_append (fun d hd => h d (List.mem_cons_of_mem c hd)) hpos,
    Nat.toDigits_of_lt_base (lt_ten_of_isDigit hdigit), digitChar_of_isDigit hdigit]
  rfl

/-- A number that is not zero does not begin with one. -/
theorem head?_toDigits_ne (hn : 0 < n) : (Nat.toDigits 10 n).head? ≠ some '0' := by
  induction n using Nat.strongRecOn with
  | ind n ih =>
    rcases Nat.lt_or_ge n 10 with hlt | hge
    · rw [Nat.toDigits_of_lt_base hlt]
      interval_cases n <;> decide
    · rw [Nat.toDigits_of_base_le (by decide) hge,
        List.head?_append_of_ne_nil _ Nat.toDigits_ne_nil]
      exact ih (n / 10) (Nat.div_lt_self hn (by decide)) (Nat.div_pos hge (by decide))

theorem isDigit_of_mem_pad {c : Char} (h : c ∈ pad n) : c.isDigit := by
  rcases List.mem_append.mp h with hzero | hdigit
  · rw [(List.mem_replicate.mp hzero).2]
    decide
  · exact Nat.isDigit_of_mem_toDigits (by decide) (by decide) hdigit

theorem ofDigitChars_pad (n : ℕ) : Nat.ofDigitChars 10 (pad n) 0 = n := by
  rw [pad, List.leftpad, Nat.ofDigitChars_append, Nat.ofDigitChars_replicate_zero, Nat.mul_zero,
    Nat.ofDigitChars_toDigits (by decide) (by decide)]

theorem pad_ne_nil (n : ℕ) : pad n ≠ [] := by
  intro h
  have hmem := Nat.toDigits_ne_nil (n := n) (b := 10)
  exact hmem (List.append_eq_nil_iff.mp h).2

/-- A field of digits alone is read as its number. -/
theorem parseU32_digits (hne : field ≠ []) (h : ∀ c ∈ field, c.isDigit) :
    parseU32 field = if Nat.ofDigitChars 10 field 0 < 2 ^ 32 then
      some (Nat.ofDigitChars 10 field 0) else none := by
  have hsign : unsigned field = field := by
    rw [unsigned.eq_def]
    split
    · exact absurd (h '+' List.mem_cons_self) (by decide)
    · rfl
  rw [parseU32, hsign]
  by_cases hlt : Nat.ofDigitChars 10 field 0 < 2 ^ 32
  · rw [if_pos ⟨hne, h, hlt⟩, if_pos hlt]
  · rw [if_neg fun hall => hlt hall.2.2, if_neg hlt]

/-- **A number that is printed is read back.** -/
theorem parseU32_pad (hn : n < 2 ^ 32) : parseU32 (pad n) = some n := by
  rw [parseU32_digits (pad_ne_nil n) fun c hc => isDigit_of_mem_pad hc, ofDigitChars_pad,
    if_pos hn]

theorem lt_of_parseU32 (h : parseU32 field = some n) : n < 2 ^ 32 := by
  rw [parseU32, Option.ite_none_right_eq_some, Option.some_inj] at h
  exact h.2 ▸ h.1.2.2

/-- A field as it is printed: five digits, or more that do not begin with zero. -/
def Canonical (field : List Char) : Prop :=
  (∀ c ∈ field, c.isDigit) ∧ (field.length = 5 ∨ 5 < field.length ∧ field.head? ≠ some '0')

/-- **Which fields are what the printer prints.** -/
theorem pad_eq_iff (h : parseU32 field = some n) (hn : 0 < n) : pad n = field ↔ Canonical field := by
  constructor
  · rintro rfl
    refine ⟨fun c hc => isDigit_of_mem_pad hc, ?_⟩
    have hlen : (pad n).length = max 5 (Nat.toDigits 10 n).length := List.length_leftpad
    rcases Nat.lt_or_ge 5 (Nat.toDigits 10 n).length with hlong | hshort
    · refine .inr ⟨by omega, ?_⟩
      rw [pad, List.leftpad, Nat.sub_eq_zero_of_le hlong.le, List.replicate_zero, List.nil_append]
      exact head?_toDigits_ne hn
    · exact .inl (by omega)
  · rintro ⟨hdigits, hlength⟩
    have hne : field ≠ [] := by
      rintro rfl
      simp at hlength
    rw [parseU32_digits hne hdigits, Option.ite_none_right_eq_some, Option.some_inj] at h
    -- the zeros in front are the padding
    obtain ⟨k, ds, rfl, hhead⟩ : ∃ k ds, field = List.replicate k '0' ++ ds ∧ ds.head? ≠ some '0' := by
      clear h hn hlength hdigits hne
      induction field with
      | nil => exact ⟨0, [], rfl, by rintro ⟨⟩⟩
      | cons c field ih =>
        by_cases hc : c = '0'
        · obtain ⟨k, ds, rfl, hhead⟩ := ih
          exact ⟨k + 1, ds, by rw [hc]; rfl, hhead⟩
        · exact ⟨0, c :: field, rfl, fun heq => hc (Option.some.inj heq)⟩
    rw [Nat.ofDigitChars_append, Nat.ofDigitChars_replicate_zero, Nat.mul_zero] at h
    cases ds with
    | nil =>
      rw [Nat.ofDigitChars_nil] at h
      omega
    | cons c ds =>
      have hprinted : Nat.toDigits 10 n = c :: ds := by
        rw [← h.2]
        exact toDigits_ofDigitChars (fun d hd => hdigits d (List.mem_append_right _ hd))
          fun hc => hhead (congrArg some hc)
      rw [pad, hprinted, List.leftpad]
      congr 2
      rw [List.length_append, List.length_replicate] at hlength
      rcases hlength with hfive | ⟨hlong, hfirst⟩
      · omega
      · cases k with
        | zero => exact Nat.sub_eq_zero_of_le (by omega)
        | succ k => exact absurd rfl hfirst

end Numbers

/-! ### Stems -/

section Stems

variable {stem base indexStr totalStr : List Char} {name : OsStr} {path : FilePath} {id : ShardId}

theorem toStr_ofText (text : List Char) : (OsStr.ofText text).toStr = some text := by
  induction text with
  | nil => rfl
  | cons c text ih =>
    rw [OsStr.toStr, OsStr.ofText] at ih
    rw [OsStr.toStr, OsStr.ofText, List.map_cons, List.mapM_cons, ih]
    rfl

/-- The fields of a stem, cut at its hyphens. -/
theorem splitOn_shardStem (hindex : '-' ∉ indexStr) (htotal : '-' ∉ totalStr) :
    (shardStem base indexStr totalStr).splitOn '-' =
      base.splitOn '-' ++ [indexStr, "of".toList, totalStr] := by
  have hof : '-' ∉ "of".toList := by decide
  have hlast : totalStr.splitOn '-' = [totalStr] := List.splitOn_eq_singleton htotal
  rw [shardStem, List.splitOn_append_cons_self, List.splitOn_append_cons_self_of_not_mem hindex,
    List.splitOn_append_cons_self_of_not_mem hof, hlast]

/-- What is read of the fields of a stem. -/
def readFields (dir : List OsStr) (base indexStr totalStr : List Char) : Option ShardId := do
  let total ← parseU32 totalStr
  let index ← parseU32 indexStr
  if total = 0 ∨ index = 0 ∨ index > total then none else some ⟨dir, base, index, total⟩

/-- **What is read of a stem.** -/
theorem parseShardId_stem (hname : path.fileName = some name)
    (hstem : (splitAtDot name).1.toStr = some (shardStem base indexStr totalStr))
    (hindex : '-' ∉ indexStr) (htotal : '-' ∉ totalStr) :
    parseShardId path = readFields path.dir base indexStr totalStr := by
  have hne : 0 < (base.splitOn '-').length := List.length_pos_iff.mpr (List.splitOn_ne_nil _ _)
  have hlen : (base.splitOn '-' ++ [indexStr, "of".toList, totalStr]).length =
      (base.splitOn '-').length + 3 := List.length_append
  have hlast : (base.splitOn '-' ++ [indexStr, "of".toList, totalStr]).getLast? =
      some totalStr := by
    rw [List.getLast?_append]
    rfl
  rw [parseShardId, hname, Option.bind_eq_bind, Option.bind_some, hstem, Option.bind_eq_bind,
    Option.bind_some, splitOn_shardStem hindex htotal]
  dsimp only
  rw [if_neg (by omega), hlast, hlen, Option.bind_eq_bind, Option.bind_some,
    List.getElem?_append_right (by omega), List.getElem?_append_right (by omega)]
  rw [show (base.splitOn '-').length + 3 - 2 - (base.splitOn '-').length = 1 by omega,
    show (base.splitOn '-').length + 3 - 3 - (base.splitOn '-').length = 0 by omega,
    Nat.add_sub_cancel, List.take_left' rfl, List.intercalate_splitOn]
  rfl

/-- What holds of the numbers that are read. -/
theorem bounds_of_parseShardId (h : parseShardId path = some id) :
    0 < id.index ∧ id.index ≤ id.total ∧ id.total < 2 ^ 32 := by
  rw [parseShardId] at h
  obtain ⟨name, -, h⟩ := Option.bind_eq_some_iff.mp h
  obtain ⟨stem, -, h⟩ := Option.bind_eq_some_iff.mp h
  dsimp only at h
  split at h
  · cases h
  obtain ⟨totalStr, -, h⟩ := Option.bind_eq_some_iff.mp h
  obtain ⟨ofStr, -, h⟩ := Option.bind_eq_some_iff.mp h
  obtain ⟨indexStr, -, h⟩ := Option.bind_eq_some_iff.mp h
  split at h
  · cases h
  obtain ⟨total, htotal, h⟩ := Option.bind_eq_some_iff.mp h
  obtain ⟨index, -, h⟩ := Option.bind_eq_some_iff.mp h
  rw [Option.ite_none_left_eq_some, Option.some_inj] at h
  obtain ⟨hbounds, rfl⟩ := h
  have hpos : 0 < index := by omega
  have hle : index ≤ total := by omega
  exact ⟨hpos, hle, lt_of_parseU32 htotal⟩

/-! ### Paths -/

/-- A stem with an extension is cut at the dot between them. -/
theorem splitAtDot_append {stem : List Char} (hne : stem ≠ []) :
    splitAtDot (.ofText (stem ++ ".gguf".toList)) =
      (.ofText stem, some (.ofText "gguf".toList)) := by
  have hreverse : (OsStr.ofText (stem ++ ".gguf".toList)).reverse =
      .inl 'f' :: .inl 'u' :: .inl 'g' :: .inl 'g' :: .inl '.' :: (OsStr.ofText stem).reverse := by
    rw [OsStr.ofText, List.map_append, List.reverse_append]
    rfl
  have hstem : (OsStr.ofText stem).reverse.reverse ≠ [] := by
    rw [List.reverse_reverse]
    exact fun h => hne (List.map_eq_nil_iff.mp h)
  have hdots : OsStr.ofText (stem ++ ".gguf".toList) ≠ [.inl '.', .inl '.'] := by
    intro h
    have hlen := congrArg List.length h
    rw [OsStr.ofText, List.length_map, List.length_append] at hlen
    have hext : (".gguf".toList).length = 5 := rfl
    have htwo : [(.inl '.' : Char ⊕ UInt8), .inl '.'].length = 2 := rfl
    omega
  rw [splitAtDot, hreverse]
  refine (if_neg (not_or.mpr ⟨hdots, hstem⟩)).trans ?_
  exact Prod.ext (List.reverse_reverse _) rfl

theorem shardStem_ne_nil (base indexStr totalStr : List Char) :
    shardStem base indexStr totalStr ≠ [] :=
  List.append_ne_nil_of_right_ne_nil _ (List.cons_ne_nil _ _)

/-- What is read of a name with the extension `gguf`. -/
theorem parseShardId_gguf (hindex : '-' ∉ indexStr) (htotal : '-' ∉ totalStr)
    (hname : path.fileName = some (.ofText (shardStem base indexStr totalStr ++ ".gguf".toList))) :
    parseShardId path = readFields path.dir base indexStr totalStr :=
  parseShardId_stem hname
    (by rw [splitAtDot_append (shardStem_ne_nil _ _ _), toStr_ofText]) hindex htotal

theorem not_hyphen_of_digits {field : List Char} (h : ∀ c ∈ field, c.isDigit) : '-' ∉ field :=
  fun hmem => absurd (h '-' hmem) (by decide)

/-- **The paths of an id are read as its own.** -/
theorem parseShardId_pathForIndex {i : ℕ} (hpos : 0 < i) (hle : i ≤ id.total)
    (htotal : id.total < 2 ^ 32) :
    parseShardId (id.pathForIndex i) = some { id with index := i } := by
  have hhyphen : ∀ n, '-' ∉ pad n := fun n => not_hyphen_of_digits fun c => isDigit_of_mem_pad
  rw [parseShardId_gguf (hhyphen i) (hhyphen id.total) rfl, readFields, parseU32_pad htotal,
    parseU32_pad (hle.trans_lt htotal)]
  exact if_neg (by omega)

/-- The paths of an id are different from each other. -/
theorem nodup_paths (htotal : id.total < 2 ^ 32) : id.paths.Nodup := by
  refine List.Nodup.map_on (fun i hi j hj heq => ?_) List.nodup_range
  have hi := List.mem_range.mp hi
  have hj := List.mem_range.mp hj
  -- each of the two is read back as its own index
  have hread := congrArg parseShardId heq
  rw [parseShardId_pathForIndex (by omega) (by omega) htotal,
    parseShardId_pathForIndex (by omega) (by omega) htotal, Option.some_inj] at hread
  have hindex : i + 1 = j + 1 := congrArg ShardId.index hread
  omega

/-- A path as it is printed: it ends in `gguf`, and its two fields are canonical. -/
def FilePath.WellNamed (path : FilePath) : Prop :=
  ∃ base indexStr totalStr, Canonical indexStr ∧ Canonical totalStr ∧
    path.fileName = some (.ofText (shardStem base indexStr totalStr ++ ".gguf".toList))

/-- What is asked of a path and the id that is read of it. -/
structure Invertible (path : FilePath) (id : ShardId) : Prop where
  own : id.pathForIndex id.index = path
  nodup : id.paths.Nodup
  back : ∀ i, 0 < i → i ≤ id.total → parseShardId (id.pathForIndex i) = some { id with index := i }
  opened : path ∈ id.paths
  count : id.paths.length = id.total

/-- A path that is printed is the path of the id that is read of it. -/
theorem pathForIndex_of_wellNamed (h : parseShardId path = some id) (hpath : path.WellNamed) :
    id.pathForIndex id.index = path := by
  obtain ⟨hpos, hle, -⟩ := bounds_of_parseShardId h
  obtain ⟨base, indexStr, totalStr, hindex, htotal, hname⟩ := hpath
  rw [parseShardId_gguf (not_hyphen_of_digits hindex.1) (not_hyphen_of_digits htotal.1) hname,
    readFields] at h
  obtain ⟨total, hreadTotal, h⟩ := Option.bind_eq_some_iff.mp h
  obtain ⟨index, hreadIndex, h⟩ := Option.bind_eq_some_iff.mp h
  rw [Option.ite_none_left_eq_some, Option.some_inj] at h
  obtain ⟨-, rfl⟩ := h
  -- both fields are what the printer makes of their numbers
  have hpadIndex := (pad_eq_iff hreadIndex hpos).mpr hindex
  have hpadTotal := (pad_eq_iff hreadTotal (hpos.trans_le hle)).mpr htotal
  rcases path with ⟨dir, fileName⟩
  dsimp only at hname
  rw [ShardId.pathForIndex, hname]
  dsimp only
  rw [hpadIndex, hpadTotal]

/-- **A name that is read is the name of its own shard, just when it is as it is printed.** -/
theorem invertible_iff (h : parseShardId path = some id) : Invertible path id ↔ path.WellNamed := by
  obtain ⟨hpos, hle, htotal⟩ := bounds_of_parseShardId h
  constructor
  · intro hinv
    refine ⟨id.base, pad id.index, pad id.total, ?_, ?_, ?_⟩
    · exact (pad_eq_iff (parseU32_pad (hle.trans_lt htotal)) hpos).mp rfl
    · exact (pad_eq_iff (parseU32_pad htotal) (hpos.trans_le hle)).mp rfl
    · rw [← hinv.own]
      rfl
  · intro hpath
    have hown := pathForIndex_of_wellNamed h hpath
    refine ⟨hown, nodup_paths htotal, fun i hpos hle =>
      parseShardId_pathForIndex hpos hle htotal, ?_, ?_⟩
    · refine List.mem_map.mpr ⟨id.index - 1, List.mem_range.mpr (by omega), ?_⟩
      rw [Nat.sub_add_cancel hpos, hown]
    · rw [ShardId.paths, List.length_map, List.length_range]

/-- The first of two shards. -/
def firstOfTwo : FilePath where
  dir := []
  fileName := some (.ofText "m-00001-of-00002.gguf".toList)

/-- Both files are opened, and the first of them is the one that was asked for. -/
theorem invertible_firstOfTwo : parseShardId firstOfTwo = some ⟨[], ['m'], 1, 2⟩ ∧
    Invertible firstOfTwo ⟨[], ['m'], 1, 2⟩ := by
  have hread : parseShardId firstOfTwo = some ⟨[], ['m'], 1, 2⟩ :=
    @parseShardId_pathForIndex ⟨[], ['m'], 1, 2⟩ 1 Nat.one_pos one_le_two (by norm_num)
  refine ⟨hread, (invertible_iff hread).mpr ?_⟩
  refine ⟨['m'], ['0', '0', '0', '0', '1'], ['0', '0', '0', '0', '2'], ?_, ?_, rfl⟩
  · exact ⟨by simp, .inl rfl⟩
  · exact ⟨by simp, .inl rfl⟩

/-- The first of two shards, with fields of one digit. -/
def shortName : FilePath where
  dir := []
  fileName := some (.ofText "m-1-of-2.gguf".toList)

/-- **The file that was asked for is not among those that are opened.** -/
theorem not_invertible_short : parseShardId shortName = some ⟨[], ['m'], 1, 2⟩ ∧
    (⟨[], ['m'], 1, 2⟩ : ShardId).pathForIndex 1 ≠ shortName ∧
      shortName ∉ (⟨[], ['m'], 1, 2⟩ : ShardId).paths := by
  have hread : parseShardId shortName = readFields [] ['m'] ['1'] ['2'] :=
    parseShardId_gguf (by decide) (by decide) rfl
  have hone : parseU32 ['1'] = some 1 :=
    (parseU32_digits (by decide) (by simp)).trans (if_pos (by simp [Nat.ofDigitChars]))
  have htwo : parseU32 ['2'] = some 2 :=
    (parseU32_digits (by decide) (by simp)).trans (if_pos (by simp [Nat.ofDigitChars]))
  have hlen : ∀ path ∈ (⟨[], ['m'], 1, 2⟩ : ShardId).paths,
      path.fileName.map List.length ≠ shortName.fileName.map List.length := by decide
  have hnot : shortName ∉ (⟨[], ['m'], 1, 2⟩ : ShardId).paths := fun h => hlen shortName h rfl
  refine ⟨?_, fun h => hnot ?_, hnot⟩
  · rw [hread, readFields, htwo, hone]
    rfl
  · rw [← h]
    exact List.mem_cons_self

end Stems

end Gguf

end Oxillama
