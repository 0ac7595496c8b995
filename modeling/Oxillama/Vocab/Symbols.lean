/-
The list of symbols that the merge loops share (`oxillama-runtime/src/gguf_vocab/symbols.rs`).

A symbol is a span of a text.  The spans are linked in the order of the text; merging two
neighbours makes the first one longer and the second one empty.

* `Live` — the linked spans, with their texts, make up the text;
* `Live.absorb` — **merging two neighbours keeps it.**
-/
import Mathlib.Data.List.Perm.Subperm
import Oxillama.Lib.Str

namespace Oxillama

namespace Vocab

/-- `Symbol`.  An index that is not there is `-1` in the source. -/
structure Symbol where
  prev : Option ℕ
  next : Option ℕ
  start : ℕ
  len : ℕ
  deriving DecidableEq, Repr

/-- `Symbol::text`. -/
def Symbol.text (symbol : Symbol) (buf : Text) : Text :=
  (buf.slice symbol.start (symbol.start + symbol.len)).getD []

/-- The symbols of a text from an index and a position on. -/
def splitCharsFrom (index start : ℕ) : Text → List Symbol
  | [] => []
  | ch :: text =>
    { prev := if index = 0 then none else some (index - 1)
      next := if text.isEmpty then none else some (index + 1)
      start
      len := ch.utf8Size } :: splitCharsFrom (index + 1) (start + ch.utf8Size) text

/-- `split_chars`. -/
def splitChars (text : Text) : List Symbol := splitCharsFrom 0 0 text

/-- `absorb`: the symbols it leaves. -/
def absorb (symbols : List Symbol) (left right : ℕ) : Option (List Symbol) := do
  let _ ← symbols[left]?
  let absorbed ← symbols[right]?
  let symbols := symbols.modify left fun s =>
    { s with len := s.len + absorbed.len, next := absorbed.next }
  let symbols := symbols.modify right fun s => { s with len := 0 }
  match absorbed.next with
  | none => return symbols
  | some next =>
    let _ ← symbols[next]?
    return symbols.modify next fun s => { s with prev := some left }

/-! ### Linked spans -/

/-- Some symbols with their texts are linked in this order, between `prev` and `next`. -/
def Linked (symbols : List Symbol) : Option ℕ → ℕ → List (ℕ × Text) → Option ℕ → Prop
  | _, _, [], _ => True
  | prev, start, (i, p) :: rest, next =>
    symbols[i]? = some ⟨prev, (rest.head?.map Prod.fst).or next, start, p.len⟩ ∧ p ≠ [] ∧
      Linked symbols (some i) (start + p.len) rest next

/-- The text of some symbols. -/
def textOf (live : List (ℕ × Text)) : Text := live.flatMap Prod.snd

/-- **The symbols that are not empty** make up the text. -/
structure Live (symbols : List Symbol) (text : Text) (live : List (ℕ × Text)) : Prop where
  linked : Linked symbols none 0 live none
  sorted : (live.map Prod.fst).Pairwise (· < ·)
  dead : ∀ i s, symbols[i]? = some s → i ∉ live.map Prod.fst → s.len = 0
  text_eq : textOf live = text
  first : ∀ e ∈ live.head?, e.1 = 0

variable {symbols symbols' : List Symbol} {text p q : Text} {a b live : List (ℕ × Text)}
  {prev next : Option ℕ} {start i j : ℕ}

theorem textOf_append (a b : List (ℕ × Text)) : textOf (a ++ b) = textOf a ++ textOf b :=
  List.flatMap_append

theorem linked_append : Linked symbols prev start (a ++ b) next ↔
    Linked symbols prev start a ((b.head?.map Prod.fst).or next) ∧
      Linked symbols ((a.getLast?.map Prod.fst).or prev) (start + (textOf a).len) b next := by
  induction a generalizing prev start with
  | nil => simp [Linked, textOf]
  | cons e a ih =>
    rcases e with ⟨i, p⟩
    have hhead : ((a ++ b).head?.map Prod.fst).or next =
        (a.head?.map Prod.fst).or ((b.head?.map Prod.fst).or next) := by
      rcases a with - | ⟨e, a⟩
      · simp
      · simp
    have hlast : (((i, p) :: a).getLast?.map Prod.fst).or prev =
        (a.getLast?.map Prod.fst).or (some i) := by
      rcases hlast : a.getLast? with - | e
      · rw [List.getLast?_eq_none_iff.1 hlast]
        rfl
      · simp [List.getLast?_cons, hlast]
    have hlen : start + (textOf ((i, p) :: a)).len = start + p.len + (textOf a).len := by
      rw [textOf, List.flatMap_cons, Text.len_append, ← Nat.add_assoc]
      rfl
    rw [List.cons_append, Linked, Linked, ih, hhead, hlast, hlen]
    simp only [and_assoc]

/-- Only the symbols themselves matter. -/
theorem Linked.congr (h : Linked symbols prev start live next)
    (heq : ∀ e ∈ live, symbols'[e.1]? = symbols[e.1]?) : Linked symbols' prev start live next := by
  induction live generalizing prev start with
  | nil => trivial
  | cons e live ih =>
    obtain ⟨hsymbol, hne, hrest⟩ := h
    refine ⟨?_, hne, ih hrest fun e' he' => heq e' (List.mem_cons_of_mem _ he')⟩
    rw [← hsymbol]
    exact heq _ List.mem_cons_self

/-- The first symbol gets another predecessor. -/
theorem Linked.relink {prev' : Option ℕ} (h : Linked symbols prev start live next)
    (hhead : ∀ e ∈ live.head?,
      symbols'[e.1]? = symbols[e.1]?.map fun s => { s with prev := prev' })
    (htail : ∀ e ∈ live.tail, symbols'[e.1]? = symbols[e.1]?) :
    Linked symbols' prev' start live next := by
  rcases live with - | ⟨⟨i, p⟩, live⟩
  · trivial
  · obtain ⟨hsymbol, hne, hrest⟩ := h
    refine ⟨?_, hne, hrest.congr htail⟩
    rw [hhead (i, p) rfl, hsymbol]
    rfl

theorem Live.nodup (h : Live symbols text live) : (live.map Prod.fst).Nodup :=
  h.sorted.imp Nat.ne_of_lt

/-- The symbol of a span. -/
theorem Live.symbol (h : Live symbols text (a ++ (i, p) :: b)) :
    symbols[i]? = some ⟨a.getLast?.map Prod.fst, b.head?.map Prod.fst, (textOf a).len, p.len⟩ ∧
      p ≠ [] := by
  obtain ⟨hsymbol, hne, -⟩ := (linked_append.1 h.linked).2
  rw [Option.or_none, Option.or_none, Nat.zero_add] at hsymbol
  exact ⟨hsymbol, hne⟩

/-- The span of a symbol. -/
theorem Live.slice {pre mid post : List (ℕ × Text)} (h : Live symbols text (pre ++ mid ++ post)) :
    text.slice (textOf pre).len ((textOf pre).len + (textOf mid).len) = some (textOf mid) := by
  rw [← h.text_eq, textOf_append, textOf_append, ← Text.len_append, Text.slice_append]

/-- The text of a span is that of its symbol. -/
theorem Live.symbol_text (h : Live symbols text (a ++ (i, p) :: b)) :
    ∃ s, symbols[i]? = some s ∧ s.start = (textOf a).len ∧ s.len = p.len ∧
      s.next = b.head?.map Prod.fst ∧ s.text text = p := by
  have hcut : a ++ (i, p) :: b = a ++ [(i, p)] ++ b := by simp
  have hslice := (hcut ▸ h : Live symbols text (a ++ [(i, p)] ++ b)).slice
  have hmid : textOf [(i, p)] = p := List.append_nil p
  rw [hmid] at hslice
  refine ⟨_, h.symbol.1, rfl, rfl, rfl, ?_⟩
  rw [Symbol.text, hslice]
  rfl

/-- Two neighbours are different symbols. -/
theorem Live.ne (h : Live symbols text (a ++ (i, p) :: b)) {e : ℕ × Text} (he : e ∈ a ++ b) :
    e.1 ≠ i := by
  have hnodup := h.nodup
  rw [List.map_append, List.map_cons, List.nodup_append] at hnodup
  obtain ⟨-, hcons, hdisjoint⟩ := hnodup
  rcases List.mem_append.1 he with he | he
  · exact hdisjoint e.1 (List.mem_map.2 ⟨_, he, rfl⟩) i List.mem_cons_self
  · rintro rfl
    exact (List.nodup_cons.1 hcons).1 (List.mem_map.2 ⟨_, he, rfl⟩)

/-- An index stands for one span. -/
theorem Live.unique (h : Live symbols text live) (hp : (i, p) ∈ live) (hq : (i, q) ∈ live) :
    p = q := by
  obtain ⟨a, b, rfl⟩ := List.append_of_mem hp
  rcases List.mem_append.1 hq with hq | hq
  · exact absurd rfl (h.ne (List.mem_append_left _ hq))
  · rcases List.mem_cons.1 hq with hq | hq
    · exact (Prod.mk.inj hq).2.symm
    · exact absurd rfl (h.ne (List.mem_append_right _ hq))

/-- A symbol that is not empty has a span. -/
theorem Live.mem_of_len {s : Symbol} (h : Live symbols text live) (hs : symbols[i]? = some s)
    (hlen : s.len ≠ 0) : ∃ p, (i, p) ∈ live ∧ p.len = s.len := by
  by_cases hmem : i ∈ live.map Prod.fst
  · obtain ⟨⟨i, p⟩, hp, rfl⟩ := List.mem_map.1 hmem
    obtain ⟨a, b, rfl⟩ := List.append_of_mem hp
    obtain ⟨hsymbol, -⟩ := h.symbol
    rw [hsymbol] at hs
    exact ⟨p, hp, congrArg Symbol.len (Option.some.inj hs)⟩
  · exact absurd (h.dead i s hs hmem) hlen

/-! ### Merging -/

/-- What merging does to the symbols. -/
theorem absorb_eq {l r : Symbol} (hl : symbols[i]? = some l) (hr : symbols[j]? = some r)
    (hne : i ≠ j) (hnext : ∀ k ∈ r.next, k ≠ i ∧ k ≠ j ∧ k < symbols.length) :
    ∃ symbols', absorb symbols i j = some symbols' ∧ symbols'.length = symbols.length ∧
      ∀ k, symbols'[k]? =
        if k = i then some { l with len := l.len + r.len, next := r.next }
        else if k = j then some { r with len := 0 }
        else if r.next = some k then symbols[k]?.map fun s => { s with prev := some i }
        else symbols[k]? := by
  let merged (symbols : List Symbol) : List Symbol :=
    (symbols.modify i fun s => { s with len := s.len + r.len, next := r.next }).modify j
      fun s => { s with len := 0 }
  have hmerged (k : ℕ) : (merged symbols)[k]? =
      if k = i then some { l with len := l.len + r.len, next := r.next }
      else if k = j then some { r with len := 0 }
      else symbols[k]? := by
    rw [List.getElem?_modify, List.getElem?_modify]
    by_cases hki : k = i
    · subst hki
      simp [hl, hne.symm]
    · by_cases hkj : k = j
      · subst hkj
        simp [hr, hne, hki]
      · simp [Ne.symm hki, Ne.symm hkj, hki, hkj]
  have hlength : (merged symbols).length = symbols.length := by simp [merged]
  rcases hk : r.next with - | next
  · refine ⟨merged symbols, ?_, hlength, fun k => ?_⟩
    · simp [absorb, hl, hr, hk, merged]
    · rw [hmerged, hk]
      simp
  · obtain ⟨hnei, hnej, hlt⟩ := hnext next hk
    refine ⟨(merged symbols).modify next fun s => { s with prev := some i }, ?_, ?_, fun k => ?_⟩
    · have hsome : ∃ s, (merged symbols)[next]? = some s :=
        ⟨_, List.getElem?_eq_getElem (by rw [hlength]; exact hlt)⟩
      obtain ⟨s, hs⟩ := hsome
      rw [absorb, hl, hr]
      simp only [Option.bind_eq_bind, Option.bind_some, hk]
      simp only [merged, hk] at hs
      rw [hs]
      simp [merged, hk]
    · rw [List.length_modify, hlength]
    · rw [List.getElem?_modify, hmerged, hk]
      by_cases hkn : k = next
      · subst hkn
        simp [hnei, hnej]
      · simp [Ne.symm hkn]

/-- **Merging two neighbours.** -/
theorem Live.absorb (h : Live symbols text (a ++ (i, p) :: (j, q) :: b)) :
    ∃ symbols', absorb symbols i j = some symbols' ∧
      Live symbols' text (a ++ (i, p ++ q) :: b) ∧ symbols'.length = symbols.length ∧
      ∀ k, k ≠ i → k ≠ j → symbols'[k]?.bind Symbol.next = symbols[k]?.bind Symbol.next := by
  have hshift : a ++ (i, p) :: (j, q) :: b = (a ++ [(i, p)]) ++ (j, q) :: b := by simp
  obtain ⟨hi, hp⟩ := h.symbol
  have hj : Live symbols text ((a ++ [(i, p)]) ++ (j, q) :: b) := hshift ▸ h
  obtain ⟨hsymbolj, hq⟩ := hj.symbol
  have hne : i ≠ j := Ne.symm (h.ne (e := (j, q)) (by simp))
  have hnei : ∀ e ∈ a ++ b, e.1 ≠ i := fun e he => h.ne (by
    rcases List.mem_append.1 he with he | he
    · exact List.mem_append_left _ he
    · exact List.mem_append_right _ (List.mem_cons_of_mem _ he))
  have hnej : ∀ e ∈ a ++ b, e.1 ≠ j := fun e he => hj.ne (by
    rcases List.mem_append.1 he with he | he
    · exact List.mem_append_left _ (List.mem_append_left _ he)
    · exact List.mem_append_right _ he)
  have hhead : ∀ e ∈ b.head?, e.1 ≠ i ∧ e.1 ≠ j ∧ e.1 < symbols.length ∧
      (∀ e' ∈ a, e'.1 ≠ e.1) ∧ ∀ e' ∈ b.tail, e'.1 ≠ e.1 := by
    rcases b with - | ⟨⟨k, r⟩, b⟩
    · nofun
    · rintro e ⟨⟩
      have hk : Live symbols text ((a ++ [(i, p), (j, q)]) ++ (k, r) :: b) := by
        simpa using h
      obtain ⟨hlt, -⟩ := List.getElem?_eq_some_iff.1 hk.symbol.1
      refine ⟨hnei _ (by simp), hnej _ (by simp), hlt, fun e' he' => hk.ne ?_,
        fun e' he' => hk.ne ?_⟩
      · exact List.mem_append_left _ (List.mem_append_left _ he')
      · exact List.mem_append_right _ he'
  have hnext : ∀ k ∈ b.head?.map Prod.fst, k ≠ i ∧ k ≠ j ∧ k < symbols.length := by
    intro k hk
    obtain ⟨e, he, rfl⟩ := Option.map_eq_some_iff.1 hk
    obtain ⟨h₁, h₂, h₃, -⟩ := hhead e he
    exact ⟨h₁, h₂, h₃⟩
  obtain ⟨symbols', habsorb, hlength, hget⟩ := absorb_eq hi hsymbolj hne hnext
  refine ⟨symbols', habsorb, ⟨?_, ?_, ?_, ?_, ?_⟩, hlength, ?_⟩
  · obtain ⟨hla, -, -, -, -, hlb⟩ := linked_append.1 h.linked
    refine linked_append.2 ⟨hla.congr fun e he => ?_, ?_, by simp [hp], ?_⟩
    · rw [hget, if_neg (hnei e (List.mem_append_left _ he)),
        if_neg (hnej e (List.mem_append_left _ he)), if_neg]
      intro hnext
      obtain ⟨e', he', heq⟩ := Option.map_eq_some_iff.1 hnext
      exact (hhead e' he').2.2.2.1 e he heq.symm
    · rw [hget, if_pos rfl]
      simp
    · rw [Text.len_append, ← Nat.add_assoc]
      refine hlb.relink (fun e he => ?_) fun e he => ?_
      · obtain ⟨hei, hej, -⟩ := hhead e he
        rw [hget, if_neg hei, if_neg hej, if_pos (by rw [he]; rfl)]
      · have hmem := List.mem_of_mem_tail he
        rw [hget, if_neg (hnei e (List.mem_append_right _ hmem)),
          if_neg (hnej e (List.mem_append_right _ hmem)), if_neg]
        intro hnext
        obtain ⟨e', he', heq⟩ := Option.map_eq_some_iff.1 hnext
        exact (hhead e' he').2.2.2.2 e he heq.symm
  · refine h.sorted.sublist ?_
    simp only [List.map_append, List.map_cons]
    exact (List.Sublist.refl _).append (.cons_cons _ (.cons _ (.refl _)))
  · intro k s hs hk
    have hki : k ≠ i := by
      rintro rfl
      exact hk (by simp)
    rw [hget, if_neg hki] at hs
    by_cases hkj : k = j
    · rw [if_pos hkj] at hs
      cases hs
      rfl
    · have hdead (s : Symbol) (hs : symbols[k]? = some s) : s.len = 0 := by
        refine h.dead k s hs ?_
        simp only [List.map_append, List.map_cons, List.mem_append, List.mem_cons] at hk ⊢
        tauto
      rw [if_neg hkj] at hs
      split at hs
      · obtain ⟨s', hs', rfl⟩ := Option.map_eq_some_iff.1 hs
        exact hdead s' hs'
      · exact hdead s hs
  · rw [← h.text_eq, textOf_append, textOf_append]
    simp [textOf]
  · intro e he
    rcases a with - | ⟨e', a⟩
    · cases he
      exact h.first (i, p) rfl
    · cases he
      exact h.first _ rfl
  · intro k hki hkj
    rw [hget, if_neg hki, if_neg hkj]
    split
    · rcases symbols[k]? with - | s
      · rfl
      · rfl
    · rfl

/-! ### Characters -/

/-- The characters of a text, counted from an index on. -/
def charsFrom (index : ℕ) : Text → List (ℕ × Text)
  | [] => []
  | ch :: text => (index, [ch]) :: charsFrom (index + 1) text

theorem map_snd_charsFrom (index : ℕ) (text : Text) :
    (charsFrom index text).map Prod.snd = text.map fun c => [c] := by
  induction text generalizing index with
  | nil => rfl
  | cons ch text ih => exact congrArg ([ch] :: ·) (ih _)

theorem textOf_charsFrom (index : ℕ) (text : Text) : textOf (charsFrom index text) = text := by
  induction text generalizing index with
  | nil => rfl
  | cons ch text ih => exact congrArg (ch :: ·) (ih _)

theorem map_fst_charsFrom (index : ℕ) (text : Text) :
    (charsFrom index text).map Prod.fst = List.range' index text.length := by
  induction text generalizing index with
  | nil => rfl
  | cons ch text ih =>
    rw [charsFrom, List.map_cons, ih, List.length_cons, List.range'_succ]

theorem length_splitCharsFrom (index start : ℕ) (text : Text) :
    (splitCharsFrom index start text).length = text.length := by
  induction text generalizing index start with
  | nil => rfl
  | cons ch text ih => rw [splitCharsFrom, List.length_cons, ih, List.length_cons]

theorem linked_splitCharsFrom (front : List Symbol) (start : ℕ) {index : ℕ} {text : Text}
    (hfront : front.length = index) :
    Linked (front ++ splitCharsFrom index start text) (if index = 0 then none else some (index - 1))
      start (charsFrom index text) none := by
  induction text generalizing front index start with
  | nil => trivial
  | cons ch text ih =>
    rw [splitCharsFrom, charsFrom, Linked]
    refine ⟨?_, List.cons_ne_nil _ _, ?_⟩
    · rw [List.getElem?_append_right (by omega), hfront, Nat.sub_self, List.getElem?_cons_zero]
      rcases text with - | ⟨next, text⟩
      · rfl
      · rfl
    · have hstep := fun symbol => ih (front ++ [symbol]) (start + ch.utf8Size)
        (by rw [List.length_append, hfront, List.length_singleton])
      simp only [List.append_assoc, List.singleton_append] at hstep
      exact hstep _

/-- **Cutting a text** into characters. -/
theorem live_splitChars (text : Text) : Live (splitChars text) text (charsFrom 0 text) where
  linked := linked_splitCharsFrom [] 0 rfl
  sorted := by
    rw [map_fst_charsFrom]
    exact List.pairwise_lt_range'
  dead i s hs hi := by
    obtain ⟨hlt, -⟩ := List.getElem?_eq_some_iff.1 hs
    rw [splitChars, length_splitCharsFrom] at hlt
    rw [map_fst_charsFrom] at hi
    exact absurd (List.mem_range'_1.2 ⟨Nat.zero_le _, by omega⟩) hi
  text_eq := textOf_charsFrom 0 text
  first e he := by
    rcases text with - | ⟨ch, text⟩
    · cases he
    · cases he
      rfl

/-! ### Following the links -/

/-- The loop `while index != -1` over the symbols, for at most `fuel` rounds. -/
def walk (symbols : List Symbol) : ℕ → Option ℕ → Option (List Symbol)
  | _, none => some []
  | 0, some _ => none
  | fuel + 1, some index => do
    let symbol ← symbols[index]?
    let rest ← walk symbols fuel symbol.next
    return symbol :: rest

theorem Live.length_le (h : Live symbols text live) : live.length ≤ symbols.length := by
  have hsub : live.map Prod.fst ⊆ List.range symbols.length := by
    intro i hi
    obtain ⟨⟨i, p⟩, he, rfl⟩ := List.mem_map.1 hi
    obtain ⟨a, b, rfl⟩ := List.append_of_mem he
    exact List.mem_range.2 (List.getElem?_eq_some_iff.1 h.symbol.1).1
  have hle := (List.subperm_of_subset h.nodup hsub).length_le
  rwa [List.length_map, List.length_range] at hle

/-- **Following the links** visits the symbols that are not empty. -/
theorem Live.walk (h : Live symbols text live) (htext : text ≠ []) :
    ∃ found, walk symbols symbols.length (some 0) = some found ∧
      found.map (Symbol.text · text) = live.map Prod.snd ∧ ∀ s ∈ found, s.len ≠ 0 := by
  have hrest : ∀ (b a : List (ℕ × Text)) (fuel : ℕ), live = a ++ b → b.length ≤ fuel →
      ∃ found, Vocab.walk symbols fuel (b.head?.map Prod.fst) = some found ∧
        found.map (Symbol.text · text) = b.map Prod.snd ∧ ∀ s ∈ found, s.len ≠ 0 := by
    intro b
    induction b with
    | nil =>
      intro a fuel _ _
      exact ⟨[], by simp [Vocab.walk], rfl, by nofun⟩
    | cons e b ih =>
      intro a fuel hlive hfuel
      obtain ⟨fuel, rfl⟩ : ∃ n, fuel = n + 1 := ⟨fuel - 1, by simp at hfuel; omega⟩
      obtain ⟨i, p⟩ := e
      subst hlive
      obtain ⟨found, hfound, hmap, hlen⟩ := ih (a ++ [(i, p)]) fuel (by simp)
        (by simpa using hfuel)
      obtain ⟨symbol, hsymbol, -, hsize, hnext, htext⟩ := h.symbol_text
      refine ⟨symbol :: found, ?_, ?_, ?_⟩
      · rw [List.head?_cons, Option.map_some, Vocab.walk, hsymbol]
        simp only [Option.bind_eq_bind, Option.bind_some, hnext, hfound]
        rfl
      · rw [List.map_cons, hmap, List.map_cons, htext]
      · intro s hs
        rcases List.mem_cons.1 hs with rfl | hs
        · rw [hsize]
          exact mt Text.len_eq_zero h.symbol.2
        · exact hlen s hs
  have hfirst : live.head?.map Prod.fst = some 0 := by
    rcases hhead : live.head? with - | e
    · rw [List.head?_eq_none_iff] at hhead
      exact absurd h.text_eq.symm (by rw [hhead]; exact htext)
    · exact congrArg some (h.first e hhead)
  have hall := hrest live [] symbols.length rfl h.length_le
  rwa [hfirst] at hall

end Vocab

end Oxillama
