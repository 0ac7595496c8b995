/-
The merge loop that the tokenizers share (`gguf_vocab/bpe.rs`, `gguf_vocab/spm.rs`).

Candidates for merging are queued when two symbols become neighbours and taken best first;
one whose symbols have changed since is stale and skipped.  A tokenizer says what a
candidate records (`Merger`), and keeps a state `σ` beside the queue.

* `Queued` — what a candidate in the queue knows of its symbols;
* `Complete` — all neighbours that can be merged are queued;
* `pass_spec` — what one pass of the loop does;
* `merge_spec` — **the loop ends, and what is left is what greedy merging leaves.**
-/
import Mathlib.Data.Prod.Lex
import Mathlib.Logic.Relation
import Oxillama.Lib.GreedyMerge
import Oxillama.Vocab.Symbols

namespace Oxillama

namespace Vocab

/-- How a tokenizer queues candidates. -/
structure Merger (β σ : Type) where
  left : β → ℕ
  right : β → ℕ
  /-- Whether the symbols have changed since the candidate was queued. -/
  stale : Symbol → Symbol → β → Bool
  /-- Whether the first candidate is taken before the second. -/
  better : β → β → Bool
  /-- Two neighbours are looked at, and queued if they can be merged. -/
  offer : List Symbol → ℕ → ℕ → List β × σ → Option (List β × σ)

variable {β σ : Type}

/-- `BinaryHeap::pop`. -/
def popBest (better : β → β → Bool) : List β → Option (β × List β)
  | [] => none
  | e :: queue =>
    match popBest better queue with
    | none => some (e, [])
    | some (best, rest) => if better best e then some (best, e :: rest) else some (e, queue)

/-- The loop that offers all neighbours. -/
def Merger.seed (m : Merger β σ) (symbols : List Symbol) (s : σ) : Option (List β × σ) :=
  (List.range' 1 (symbols.length - 1)).foldlM (fun state i => m.offer symbols (i - 1) i state)
    ([], s)

/-- A merged symbol and the one before it. -/
def Merger.offerPrev (m : Merger β σ) (symbols : List Symbol) (i : ℕ) (merged : Symbol)
    (state : List β × σ) : Option (List β × σ) :=
  match merged.prev with
  | some prev => m.offer symbols prev i state
  | none => some state

/-- A merged symbol and the one behind it. -/
def Merger.offerNext (m : Merger β σ) (symbols : List Symbol) (i : ℕ) (merged : Symbol)
    (state : List β × σ) : Option (List β × σ) :=
  match merged.next with
  | some next => m.offer symbols i next state
  | none => some state

/-- The loop that merges, for at most `fuel` candidates. -/
def Merger.mergeLoop (m : Merger β σ) : ℕ → List Symbol → List β × σ → Option (List Symbol × σ)
  | 0, _, _ => none
  | fuel + 1, symbols, (queue, s) =>
    match popBest m.better queue with
    | none => some (symbols, s)
    | some (bigram, queue) => do
      let left ← symbols[m.left bigram]?
      let right ← symbols[m.right bigram]?
      if m.stale left right bigram then mergeLoop m fuel symbols (queue, s)
      else
        let symbols ← absorb symbols (m.left bigram) (m.right bigram)
        let merged ← symbols[m.left bigram]?
        let state ← m.offerPrev symbols (m.left bigram) merged (queue, s)
        let state ← m.offerNext symbols (m.left bigram) merged state
        mergeLoop m fuel symbols state

/-- The symbols that are left of a text when no candidate is left. -/
def Merger.merge (m : Merger β σ) (text : Text) (s : σ) : Option (List Symbol × σ) := do
  let symbols := splitChars text
  let state ← m.seed symbols s
  m.mergeLoop (3 * symbols.length + 1) symbols state

/-- One pass of the loop. -/
def Merger.pass (m : Merger β σ) :
    List Symbol × List β × σ → Option (List Symbol × List β × σ)
  | (symbols, queue, s) => do
    let (bigram, queue) ← popBest m.better queue
    let left ← symbols[m.left bigram]?
    let right ← symbols[m.right bigram]?
    if m.stale left right bigram then return (symbols, queue, s)
    else
      let symbols ← absorb symbols (m.left bigram) (m.right bigram)
      let merged ← symbols[m.left bigram]?
      let state ← m.offerPrev symbols (m.left bigram) merged (queue, s)
      let state ← m.offerNext symbols (m.left bigram) merged state
      return (symbols, state)

/-- Where the loop begins. -/
def Merger.start (m : Merger β σ) (text : Text) (s : σ) : Option (List Symbol × List β × σ) := do
  let state ← m.seed (splitChars text) s
  return (splitChars text, state)

/-- Where the loop comes by. -/
def Merger.Reaches (m : Merger β σ) (text : Text) (s : σ) (st : List Symbol × List β × σ) : Prop :=
  ∃ st₀, m.start text s = some st₀ ∧ Relation.ReflTransGen (fun a b => m.pass a = some b) st₀ st

/-- The next pass applies a candidate: it is taken from the queue and not found stale. -/
structure Merger.Applies (m : Merger β σ) (st : List Symbol × List β × σ) (e : β) : Prop where
  popped : ∃ rest, popBest m.better st.2.1 = some (e, rest)
  found : ∃ l r, st.1[m.left e]? = some l ∧ st.1[m.right e]? = some r ∧ m.stale l r e = false

/-- A candidate is that of two neighbours as they are: it would be queued for them now. -/
structure Merger.Current (m : Merger β σ) (st : List Symbol × List β × σ) (e : β) : Prop where
  next : ∃ l, st.1[m.left e]? = some l ∧ l.next = some (m.right e)
  offered : ∃ s, m.offer st.1 (m.left e) (m.right e) ([], st.2.2) = some ([e], s)

theorem eq_nil_of_popBest {better : β → β → Bool} {queue : List β}
    (h : popBest better queue = none) : queue = [] := by
  rcases queue with - | ⟨first, queue⟩
  · rfl
  · rw [popBest] at h
    split at h
    · cases h
    · split at h
      · cases h
      · cases h

theorem mem_of_popBest {better : β → β → Bool} {queue rest : List β} {e : β}
    (h : popBest better queue = some (e, rest)) :
    e ∈ queue ∧ (∀ x ∈ rest, x ∈ queue) ∧ (∀ x ∈ queue, x = e ∨ x ∈ rest) ∧
      rest.length + 1 = queue.length := by
  induction queue generalizing e rest with
  | nil => cases h
  | cons first queue ih =>
    rw [popBest] at h
    rcases hpop : popBest better queue with - | ⟨best, others⟩
    · rw [hpop] at h
      cases h
      obtain rfl := eq_nil_of_popBest hpop
      exact ⟨List.mem_cons_self, by nofun, fun x hx => .inl (List.mem_singleton.1 hx), rfl⟩
    · obtain ⟨hbest, hothers, hall, hlength⟩ := ih hpop
      rw [hpop] at h
      dsimp only at h
      split at h
      · cases h
        refine ⟨List.mem_cons_of_mem _ hbest, fun x hx => ?_, fun x hx => ?_, ?_⟩
        · rcases List.mem_cons.1 hx with rfl | hx
          · exact List.mem_cons_self
          · exact List.mem_cons_of_mem _ (hothers x hx)
        · rcases List.mem_cons.1 hx with rfl | hx
          · exact .inr List.mem_cons_self
          · exact (hall x hx).imp_right (List.mem_cons_of_mem _)
        · rw [List.length_cons, List.length_cons, hlength]
      · cases h
        exact ⟨List.mem_cons_self, fun x hx => List.mem_cons_of_mem _ hx,
          fun x hx => List.mem_cons.1 hx, rfl⟩

/-- Nothing in the queue comes before what is taken. -/
theorem popBest_first {κ : Type} [LinearOrder κ] {better : β → β → Bool} (order : β → κ)
    (hbetter : ∀ x y, better x y = true ↔ order x < order y) {queue rest : List β} {e : β}
    (h : popBest better queue = some (e, rest)) : ∀ x ∈ queue, order e ≤ order x := by
  induction queue generalizing e rest with
  | nil => cases h
  | cons first queue ih =>
    rw [popBest] at h
    rcases hpop : popBest better queue with - | ⟨best, others⟩
    · rw [hpop] at h
      cases h
      obtain rfl := eq_nil_of_popBest hpop
      intro x hx
      exact (List.mem_singleton.1 hx) ▸ le_rfl
    · rw [hpop] at h
      dsimp only at h
      have hbest := ih hpop
      split at h
      next hlt =>
        cases h
        intro x hx
        rcases List.mem_cons.1 hx with rfl | hx
        · exact le_of_lt ((hbetter _ _).1 hlt)
        · exact hbest x hx
      next hnot =>
        cases h
        intro x hx
        rcases List.mem_cons.1 hx with rfl | hx
        · exact le_rfl
        · exact le_trans (not_lt.1 (mt (hbetter _ _).2 hnot)) (hbest x hx)

/-! ### What the queue knows -/

/-- What the loop needs of a tokenizer: `rank` says which texts can be merged, and `Offers e p q`
that the candidate `e` was queued for symbols with the texts `p` and `q`. -/
structure Merger.Spec {κ : Type} [LinearOrder κ] (m : Merger β σ) (text : Text)
    (rank : Text → Text → Option κ) (key : β → κ) (Offers : β → Text → Text → Prop)
    (Inv : σ → Prop) : Prop where
  offer : ∀ {symbols : List Symbol} {a b : List (ℕ × Text)} {i j : ℕ} {p q : Text}
    (queue : List β) {s : σ}, Live symbols text (a ++ (i, p) :: (j, q) :: b) → Inv s →
    ∃ queue' s', m.offer symbols i j (queue, s) = some (queue', s') ∧ Inv s' ∧
      (rank p q = none ∧ queue' = queue ∨
        ∃ e, queue' = queue ++ [e] ∧ m.left e = i ∧ m.right e = j ∧ Offers e p q)
  rank_eq : ∀ {e : β} {p q : Text}, Offers e p q → rank p q = some (key e)
  better : ∀ e e', m.better e e' = true ↔
    toLex (key e, m.left e) < toLex (key e', m.left e')
  fresh : ∀ {l r : Symbol} {e : β} {p q : Text}, Offers e p q → m.stale l r e = false →
    l.len ≠ 0 ∧ r.len ≠ 0 ∧
      (p.len ≤ l.len → q.len ≤ r.len → l.len = p.len ∧ r.len = q.len)
  current : ∀ {l r : Symbol} {e : β} {p q : Text}, Offers e p q → p ≠ [] → q ≠ [] →
    l.len = p.len → r.len = q.len → m.stale l r e = false

/-- What a queued candidate knows: its symbols have grown, or are still as they were. -/
def Queued (m : Merger β σ) (Offers : β → Text → Text → Prop) (symbols : List Symbol)
    (live : List (ℕ × Text)) (e : β) : Prop :=
  ∃ p q, Offers e p q ∧ m.left e < symbols.length ∧ m.right e < symbols.length ∧
    (∀ p', (m.left e, p') ∈ live → p <+: p') ∧ (∀ q', (m.right e, q') ∈ live → q <+: q') ∧
    ((m.left e, p) ∈ live → (m.right e, q) ∈ live →
      symbols[m.left e]?.bind Symbol.next = some (m.right e))

variable {κ : Type} [LinearOrder κ] {m : Merger β σ} {rank : Text → Text → Option κ}
  {key : β → κ} {Offers : β → Text → Text → Prop} {Inv : σ → Prop}
  {symbols symbols' : List Symbol} {text p q : Text} {a b live : List (ℕ × Text)} {i j : ℕ} {e : β}

/-- A candidate for two neighbours. -/
theorem queued_of_neighbours (h : Live symbols text (a ++ (i, p) :: (j, q) :: b))
    (hleft : m.left e = i) (hright : m.right e = j) (hoffers : Offers e p q) :
    Queued m Offers symbols (a ++ (i, p) :: (j, q) :: b) e := by
  have hi := h.symbol.1
  have hshift : a ++ (i, p) :: (j, q) :: b = (a ++ [(i, p)]) ++ (j, q) :: b := by simp
  have hj := (hshift ▸ h : Live symbols text ((a ++ [(i, p)]) ++ (j, q) :: b)).symbol.1
  refine ⟨p, q, hoffers, ?_, ?_, ?_, ?_, ?_⟩
  · rw [hleft]
    exact (List.getElem?_eq_some_iff.1 hi).1
  · rw [hright]
    exact (List.getElem?_eq_some_iff.1 hj).1
  · intro p' hp'
    rw [hleft] at hp'
    have hsame : p' = p := h.unique hp' (by simp)
    exact hsame ▸ List.prefix_rfl
  · intro q' hq'
    rw [hright] at hq'
    have hsame : q' = q := h.unique hq' (by simp)
    exact hsame ▸ List.prefix_rfl
  · intro _ _
    rw [hleft, hright, hi]
    rfl

/-- A candidate that is not stale stands for two neighbours. -/
theorem neighbours_of_queued (hspec : m.Spec text rank key Offers Inv) (h : Live symbols text live)
    (hqueued : Queued m Offers symbols live e) {l r : Symbol}
    (hl : symbols[m.left e]? = some l) (hr : symbols[m.right e]? = some r)
    (hfresh : m.stale l r e = false) :
    ∃ a b p q, live = a ++ (m.left e, p) :: (m.right e, q) :: b ∧ Offers e p q := by
  obtain ⟨p, q, hoffers, -, -, hp, hq, hnext⟩ := hqueued
  obtain ⟨hl0, hr0, hlen⟩ := hspec.fresh hoffers hfresh
  obtain ⟨p', hp', hlp⟩ := h.mem_of_len hl hl0
  obtain ⟨q', hq', hrq⟩ := h.mem_of_len hr hr0
  have hpp := hp p' hp'
  have hqq := hq q' hq'
  obtain ⟨hlenl, hlenr⟩ :=
    hlen (hlp ▸ Text.len_le_of_prefix hpp) (hrq ▸ Text.len_le_of_prefix hqq)
  have hpeq : p = p' := by
    by_contra hne
    have := Text.len_lt_of_prefix hpp hne
    omega
  have hqeq : q = q' := by
    by_contra hne
    have := Text.len_lt_of_prefix hqq hne
    omega
  subst hpeq hqeq
  obtain ⟨a, b, rfl⟩ := List.append_of_mem hp'
  have hsucc := hnext hp' hq'
  rw [h.symbol.1] at hsucc
  obtain ⟨⟨j, q'⟩, hb, hj⟩ := Option.map_eq_some_iff.1 hsucc
  obtain ⟨rest, rfl⟩ : ∃ rest, b = (j, q') :: rest := by
    rcases b with - | ⟨first, rest⟩
    · cases hb
    · cases hb
      exact ⟨rest, rfl⟩
  dsimp only at hj
  subst hj
  have hq'' : q' = q := h.unique (by simp) hq'
  exact ⟨a, rest, p, q, by rw [hq''], hoffers⟩

/-- What the queue knows stays true when two neighbours are merged. -/
theorem Queued.absorb (hqueued : Queued m Offers symbols (a ++ (i, p) :: (j, q) :: b) e)
    (h : Live symbols text (a ++ (i, p) :: (j, q) :: b))
    (h' : Live symbols' text (a ++ (i, p ++ q) :: b)) (hlength : symbols'.length = symbols.length)
    (hnext : ∀ k, k ≠ i → k ≠ j → symbols'[k]?.bind Symbol.next = symbols[k]?.bind Symbol.next) :
    Queued m Offers symbols' (a ++ (i, p ++ q) :: b) e := by
  have hshift : a ++ (i, p) :: (j, q) :: b = (a ++ [(i, p)]) ++ (j, q) :: b := by simp
  have hjlive : Live symbols text ((a ++ [(i, p)]) ++ (j, q) :: b) := hshift ▸ h
  have hq : q ≠ [] := hjlive.symbol.2
  have hother {k : ℕ} {w : Text} (hmem : (k, w) ∈ a ++ (i, p ++ q) :: b) :
      (k = i ∧ w = p ++ q) ∨ k ≠ i ∧ k ≠ j ∧ (k, w) ∈ a ++ (i, p) :: (j, q) :: b := by
    by_cases hk : k = i
    · subst hk
      exact .inl ⟨rfl, h'.unique hmem (by simp)⟩
    · have hmem : (k, w) ∈ a ++ b := by
        rcases List.mem_append.1 hmem with hmem | hmem
        · exact List.mem_append_left _ hmem
        · rcases List.mem_cons.1 hmem with hmem | hmem
          · exact absurd (Prod.mk.inj hmem).1 hk
          · exact List.mem_append_right _ hmem
      have hj : k ≠ j := hjlive.ne (e := (k, w)) (by
        rcases List.mem_append.1 hmem with hmem | hmem
        · exact List.mem_append_left _ (List.mem_append_left _ hmem)
        · exact List.mem_append_right _ hmem)
      refine .inr ⟨hk, hj, ?_⟩
      rcases List.mem_append.1 hmem with hmem | hmem
      · exact List.mem_append_left _ hmem
      · exact List.mem_append_right _ (List.mem_cons_of_mem _ (List.mem_cons_of_mem _ hmem))
  -- A symbol that has grown does not have its old text any more.
  have hgrown {w : Text} (hw : w <+: p) : p ++ q ≠ w := by
    rintro rfl
    have hlen := hw.length_le
    have := List.length_pos_of_ne_nil hq
    rw [List.length_append] at hlen
    omega
  obtain ⟨u, v, hoffers, hl, hr, hu, hv, hadjacent⟩ := hqueued
  refine ⟨u, v, hoffers, hlength ▸ hl, hlength ▸ hr, ?_, ?_, ?_⟩
  · intro w hw
    rcases hother hw with ⟨hk, rfl⟩ | ⟨-, -, hold⟩
    · exact (hu p (by rw [hk]; simp)).trans (List.prefix_append _ _)
    · exact hu w hold
  · intro w hw
    rcases hother hw with ⟨hk, rfl⟩ | ⟨-, -, hold⟩
    · exact (hv p (by rw [hk]; simp)).trans (List.prefix_append _ _)
    · exact hv w hold
  · intro hmeml hmemr
    rcases hother hmeml with ⟨hk, heq⟩ | ⟨hli, hlj, hold⟩
    · exact absurd heq.symm (hgrown (hu p (by rw [hk]; simp)))
    · rcases hother hmemr with ⟨hk, heq⟩ | ⟨-, -, hold'⟩
      · exact absurd heq.symm (hgrown (hv p (by rw [hk]; simp)))
      · rw [hnext _ hli hlj]
        exact hadjacent hold hold'

/-! ### The loop -/

/-- Everything in the queue is queued for symbols of the text. -/
def Queue (m : Merger β σ) (Offers : β → Text → Text → Prop) (symbols : List Symbol)
    (live : List (ℕ × Text)) (queue : List β) : Prop :=
  ∀ e ∈ queue, Queued m Offers symbols live e

/-- The queue got at most `n` candidates longer. -/
structure Extends (m : Merger β σ) (Offers : β → Text → Text → Prop) (symbols : List Symbol)
    (live : List (ℕ × Text)) (n : ℕ) (queue queue' : List β) : Prop where
  queued : Queue m Offers symbols live queue'
  subset : queue ⊆ queue'
  length_le : queue'.length ≤ queue.length + n

/-- Two neighbours cannot be merged, or are queued. -/
def Offered (m : Merger β σ) (rank : Text → Text → Option κ) (Offers : β → Text → Text → Prop)
    (queue : List β) (x y : ℕ × Text) : Prop :=
  rank x.2 y.2 = none ∨ ∃ e ∈ queue, m.left e = x.1 ∧ m.right e = y.1 ∧ Offers e x.2 y.2

/-- All neighbours that can be merged are queued. -/
def Complete (m : Merger β σ) (rank : Text → Text → Option κ) (Offers : β → Text → Text → Prop)
    (live : List (ℕ × Text)) (queue : List β) : Prop :=
  ∀ a b x y, live = a ++ x :: y :: b → Offered m rank Offers queue x y

variable {queue queue' queue'' rest : List β} {x y : ℕ × Text} {n n' : ℕ}

theorem Extends.refl (h : Queue m Offers symbols live queue) :
    Extends m Offers symbols live n queue queue :=
  ⟨h, List.Subset.refl _, Nat.le_add_right _ _⟩

theorem Extends.trans (h : Extends m Offers symbols live n queue queue')
    (h' : Extends m Offers symbols live n' queue' queue'') :
    Extends m Offers symbols live (n + n') queue queue'' where
  queued := h'.queued
  subset := List.Subset.trans h.subset h'.subset
  length_le := by
    have := h.length_le
    have := h'.length_le
    omega

omit [LinearOrder κ] in
theorem Offered.mono (h : Offered m rank Offers queue x y) (hsub : queue ⊆ queue') :
    Offered m rank Offers queue' x y :=
  h.imp_right fun ⟨e, he, hrest⟩ => ⟨e, hsub he, hrest⟩

/-- Two neighbours are offered. -/
theorem offer_spec (hspec : m.Spec text rank key Offers Inv) {s : σ}
    (h : Live symbols text (a ++ (i, p) :: (j, q) :: b)) (hs : Inv s)
    (hqueue : Queue m Offers symbols (a ++ (i, p) :: (j, q) :: b) queue) :
    ∃ queue' s', m.offer symbols i j (queue, s) = some (queue', s') ∧ Inv s' ∧
      Extends m Offers symbols (a ++ (i, p) :: (j, q) :: b) 1 queue queue' ∧
      Offered m rank Offers queue' (i, p) (j, q) := by
  obtain ⟨queue', s', hoffer, hs', ⟨hrank, rfl⟩ | ⟨e, rfl, hleft, hright, hoffers⟩⟩ :=
    hspec.offer queue h hs
  · exact ⟨_, s', hoffer, hs', .refl hqueue, .inl hrank⟩
  · refine ⟨_, s', hoffer, hs', ⟨fun x hx => ?_, List.subset_append_left _ _, by simp⟩,
      .inr ⟨e, by simp, hleft, hright, hoffers⟩⟩
    rcases List.mem_append.1 hx with hx | hx
    · exact hqueue x hx
    · rw [List.mem_singleton.1 hx]
      exact queued_of_neighbours h hleft hright hoffers

/-- The two offers after a merge. -/
theorem offers_spec (hspec : m.Spec text rank key Offers Inv) {s : σ} {l : Symbol}
    (h : Live symbols text (a ++ (i, p) :: b)) (hl : symbols[i]? = some l) (hs : Inv s)
    (hqueue : Queue m Offers symbols (a ++ (i, p) :: b) queue) :
    ∃ queue₁ s₁ queue₂ s₂, m.offerPrev symbols i l (queue, s) = some (queue₁, s₁) ∧
      m.offerNext symbols i l (queue₁, s₁) = some (queue₂, s₂) ∧ Inv s₂ ∧
      Extends m Offers symbols (a ++ (i, p) :: b) 2 queue queue₂ ∧
      (∀ e ∈ a.getLast?, Offered m rank Offers queue₂ e (i, p)) ∧
      ∀ e ∈ b.head?, Offered m rank Offers queue₂ (i, p) e := by
  obtain ⟨hsymbol, -⟩ := h.symbol
  have hsame := Option.some.inj (hl.symm.trans hsymbol)
  have hprev : ∃ queue₁ s₁, m.offerPrev symbols i l (queue, s) = some (queue₁, s₁) ∧ Inv s₁ ∧
      Extends m Offers symbols (a ++ (i, p) :: b) 1 queue queue₁ ∧
      ∀ e ∈ a.getLast?, Offered m rank Offers queue₁ e (i, p) := by
    rw [Merger.offerPrev, hsame]
    rcases hlast : a.getLast? with - | ⟨k, r⟩
    · exact ⟨queue, s, rfl, hs, .refl hqueue, by nofun⟩
    · obtain ⟨front, rfl⟩ := List.getLast?_eq_some_iff.1 hlast
      have hshift : (front ++ [(k, r)]) ++ (i, p) :: b = front ++ (k, r) :: (i, p) :: b := by simp
      rw [hshift] at h hqueue ⊢
      obtain ⟨queue₁, s₁, hoffer, hs₁, hextends, hoffered⟩ := offer_spec hspec h hs hqueue
      refine ⟨queue₁, s₁, hoffer, hs₁, hextends, ?_⟩
      rintro e ⟨⟩
      exact hoffered
  obtain ⟨queue₁, s₁, hfirst, hs₁, hextends₁, hoffered₁⟩ := hprev
  have hnext : ∃ queue₂ s₂, m.offerNext symbols i l (queue₁, s₁) = some (queue₂, s₂) ∧ Inv s₂ ∧
      Extends m Offers symbols (a ++ (i, p) :: b) 1 queue₁ queue₂ ∧
      ∀ e ∈ b.head?, Offered m rank Offers queue₂ (i, p) e := by
    rw [Merger.offerNext, hsame]
    rcases b with - | ⟨⟨k, r⟩, b⟩
    · exact ⟨queue₁, s₁, rfl, hs₁, .refl hextends₁.queued, by nofun⟩
    · obtain ⟨queue₂, s₂, hoffer, hs₂, hextends, hoffered⟩ :=
        offer_spec hspec h hs₁ hextends₁.queued
      refine ⟨queue₂, s₂, hoffer, hs₂, hextends, ?_⟩
      rintro e ⟨⟩
      exact hoffered
  obtain ⟨queue₂, s₂, hsecond, hs₂, hextends₂, hoffered₂⟩ := hnext
  exact ⟨queue₁, s₁, queue₂, s₂, hfirst, hsecond, hs₂, hextends₁.trans hextends₂,
    fun e he => (hoffered₁ e he).mono hextends₂.subset, hoffered₂⟩

/-- The loop that offers all neighbours. -/
theorem seed_spec (hspec : m.Spec text rank key Offers Inv) {s : σ} (h : Live symbols text live)
    (hindices : live.map Prod.fst = List.range symbols.length) (hs : Inv s) :
    ∃ queue s', m.seed symbols s = some (queue, s') ∧ Inv s' ∧
      Queue m Offers symbols live queue ∧ Complete m rank Offers live queue ∧
      queue.length ≤ symbols.length := by
  have hlen : live.length = symbols.length := by
    simpa using congrArg List.length hindices
  have hindex (k : ℕ) (hk : k < live.length) : live[k].1 = k := by
    have := congrArg (·[k]?) hindices
    simpa [hk, hlen ▸ hk] using this
  have hsplit (k : ℕ) (hk : k + 1 < live.length) :
      live = live.take k ++ (k, live[k].2) :: (k + 1, live[k + 1].2) :: live.drop (k + 2) := by
    have hfirst : (k, live[k].2) = live[k] := Prod.ext (hindex k (by omega)).symm rfl
    have hsecond : (k + 1, live[k + 1].2) = live[k + 1] := Prod.ext (hindex (k + 1) hk).symm rfl
    rw [hfirst, hsecond, ← List.drop_eq_getElem_cons, ← List.drop_eq_getElem_cons,
      List.take_append_drop]
  -- The same for every list of indices behind the first.
  have hfold : ∀ (is : List ℕ) (queue : List β) (s : σ), (∀ i ∈ is, 1 ≤ i ∧ i < live.length) →
      Inv s → Queue m Offers symbols live queue →
      ∃ queue' s', is.foldlM (fun state i => m.offer symbols (i - 1) i state) (queue, s) =
          some (queue', s') ∧ Inv s' ∧ Extends m Offers symbols live is.length queue queue' ∧
        ∀ k (hk : k + 1 < live.length), k + 1 ∈ is →
          Offered m rank Offers queue' live[k] live[k + 1] := by
    intro is
    induction is with
    | nil =>
      intro queue s _ hs hqueue
      exact ⟨queue, s, rfl, hs, .refl hqueue, by simp⟩
    | cons i is ih =>
      intro queue s his hs hqueue
      obtain ⟨hi, hlt⟩ := his i List.mem_cons_self
      obtain ⟨k, rfl⟩ : ∃ k, i = k + 1 := ⟨i - 1, by omega⟩
      have hlive := hsplit k hlt
      have hoffer : ∃ queue' s', m.offer symbols k (k + 1) (queue, s) = some (queue', s') ∧
          Inv s' ∧ Extends m Offers symbols live 1 queue queue' ∧
          Offered m rank Offers queue' (k, live[k].2) (k + 1, live[k + 1].2) := by
        have hlive' := h
        rw [hlive] at hlive' hqueue
        have := offer_spec hspec hlive' hs hqueue
        rw [← hlive] at this
        exact this
      obtain ⟨queue₁, s₁, hfirst, hs₁, hextends₁, hoffered₁⟩ := hoffer
      obtain ⟨queue', s', hrest, hs', hextends', hoffered'⟩ :=
        ih queue₁ s₁ (fun j hj => his j (List.mem_cons_of_mem _ hj)) hs₁ hextends₁.queued
      refine ⟨queue', s', ?_, hs', ?_, fun k' hk' hmem => ?_⟩
      · rw [List.foldlM_cons, Nat.add_sub_cancel, hfirst]
        exact hrest
      · rw [List.length_cons, Nat.add_comm]
        exact hextends₁.trans hextends'
      · rcases List.mem_cons.1 hmem with heq | hmem
        · obtain rfl : k' = k := by omega
          have hx : (k', live[k'].2) = live[k'] := Prod.ext (hindex k' (by omega)).symm rfl
          have hy : (k' + 1, live[k' + 1].2) = live[k' + 1] :=
            Prod.ext (hindex (k' + 1) hk').symm rfl
          rw [hx, hy] at hoffered₁
          exact hoffered₁.mono hextends'.subset
        · exact hoffered' k' hk' hmem
  obtain ⟨queue, s', hseed, hs', hextends, hoffered⟩ :=
    hfold (List.range' 1 (symbols.length - 1)) [] s (fun i hi => by
      obtain ⟨h₁, h₂⟩ := List.mem_range'_1.1 hi
      omega) hs (by nofun)
  refine ⟨queue, s', hseed, hs', hextends.queued, ?_, ?_⟩
  · intro a b x y hlive
    have hk : a.length + 1 < live.length := by
      rw [hlive]
      simp
    have hoffer := hoffered a.length hk (List.mem_range'_1.2 (by omega))
    simpa [hlive] using hoffer
  · have := hextends.length_le
    rw [List.length_range', List.length_nil] at this
    omega

/-- Where neighbours can be around a piece. -/
theorem neighbours_append {α : Type} {a b a' b' : List α} {c x y : α}
    (h : a ++ c :: b = a' ++ x :: y :: b') :
    (∃ b₁, a = a' ++ x :: y :: b₁) ∨ (x ∈ a.getLast? ∧ y = c) ∨ (x = c ∧ y ∈ b.head?) ∨
      ∃ a₁, b = a₁ ++ x :: y :: b' := by
  rcases List.append_eq_append_iff.1 h with ⟨mid, rfl, hmid⟩ | ⟨mid, rfl, hmid⟩
  · rcases mid with - | ⟨z, mid⟩
    · cases hmid
      exact .inr (.inr (.inl ⟨rfl, rfl⟩))
    · cases hmid
      exact .inr (.inr (.inr ⟨mid, rfl⟩))
  · rcases mid with - | ⟨z, - | ⟨w, mid⟩⟩
    · cases hmid
      exact .inr (.inr (.inl ⟨rfl, rfl⟩))
    · cases hmid
      exact .inr (.inl ⟨by simp, rfl⟩)
    · cases hmid
      exact .inl ⟨mid, rfl⟩

omit [LinearOrder κ] in
/-- The queue stays complete when the neighbours it gave are merged. -/
theorem Complete.absorb {e : β}
    (hcomplete : Complete m rank Offers (a ++ (i, p) :: (j, q) :: b) queue)
    (h : Live symbols text (a ++ (i, p) :: (j, q) :: b)) (hleft : m.left e = i)
    (hrest : ∀ x ∈ queue, x = e ∨ x ∈ rest) (hsub : rest ⊆ queue')
    (hprev : ∀ x ∈ a.getLast?, Offered m rank Offers queue' x (i, p ++ q))
    (hnext : ∀ x ∈ b.head?, Offered m rank Offers queue' (i, p ++ q) x) :
    Complete m rank Offers (a ++ (i, p ++ q) :: b) queue' := by
  -- Neighbours that are not touched were queued, and not by the candidate that is gone.
  have hold {x y : ℕ × Text} {a' b' : List (ℕ × Text)}
      (heq : a ++ (i, p) :: (j, q) :: b = a' ++ x :: y :: b') (hx : x ∈ a ++ b) :
      Offered m rank Offers queue' x y := by
    refine (hcomplete a' b' x y heq).imp_right fun ⟨e', he', hl, hr, hoffers⟩ => ?_
    refine ⟨e', hsub ?_, hl, hr, hoffers⟩
    refine (hrest e' he').resolve_left ?_
    rintro rfl
    refine h.ne (e := x) ?_ (hl.symm.trans hleft)
    rcases List.mem_append.1 hx with hx | hx
    · exact List.mem_append_left _ hx
    · exact List.mem_append_right _ (List.mem_cons_of_mem _ hx)
  intro a' b' x y heq
  rcases neighbours_append heq with ⟨b₁, rfl⟩ | ⟨hx, rfl⟩ | ⟨rfl, hy⟩ | ⟨a₁, rfl⟩
  · have hcut : (a' ++ x :: y :: b₁) ++ (i, p) :: (j, q) :: b =
        a' ++ x :: y :: (b₁ ++ (i, p) :: (j, q) :: b) := by simp
    exact hold hcut (by simp)
  · exact hprev x hx
  · exact hnext y hy
  · have hcut : a ++ (i, p) :: (j, q) :: (a₁ ++ x :: y :: b') =
        (a ++ (i, p) :: (j, q) :: a₁) ++ x :: y :: b' := by simp
    exact hold hcut (by simp)

/-- Neighbours among texts are neighbours among spans. -/
theorem neighbours_of_map {a b : List Text} {p q : Text}
    (h : live.map Prod.snd = a ++ p :: q :: b) :
    ∃ a' b' x y, live = a' ++ x :: y :: b' ∧ a'.length = a.length ∧ x.2 = p ∧ y.2 = q := by
  obtain ⟨a', rest, hlive, rfl, hrest⟩ := List.map_eq_append_iff.1 h
  obtain ⟨x, rest', rfl, hx, hrest'⟩ := List.map_eq_cons_iff.1 hrest
  obtain ⟨y, b', rfl, hy, -⟩ := List.map_eq_cons_iff.1 hrest'
  exact ⟨a', b', x, y, hlive, (List.length_map _).symm, hx, hy⟩

/-- What is taken from a complete queue, and is not stale, is the best pair. -/
theorem bestPair_of_popBest {e : β} (hspec : m.Spec text rank key Offers Inv)
    (h : Live symbols text (a ++ (m.left e, p) :: (m.right e, q) :: b)) (hoffers : Offers e p q)
    (hcomplete : Complete m rank Offers (a ++ (m.left e, p) :: (m.right e, q) :: b) queue)
    (hpop : popBest m.better queue = some (e, rest)) :
    bestPair rank ((a ++ (m.left e, p) :: (m.right e, q) :: b).map Prod.snd) =
      some (key e, a.length) := by
  have hfirst := popBest_first (fun e => toLex (key e, m.left e)) hspec.better hpop
  have hmap : (a ++ (m.left e, p) :: (m.right e, q) :: b).map Prod.snd =
      a.map Prod.snd ++ p :: q :: b.map Prod.snd := List.map_append
  rw [hmap]
  refine (bestPair_eq_some (hspec.rank_eq hoffers) ?_).trans (by rw [List.length_map])
  intro a' p' q' b' k' heq hrank'
  obtain ⟨A, B, x, y, hlive, hlength, rfl, rfl⟩ := neighbours_of_map (hmap.trans heq)
  rcases hcomplete A B x y hlive with hnone | ⟨e', he', hl, -, hoffers'⟩
  · rw [hnone] at hrank'
    cases hrank'
  · have hkey : key e' = k' := Option.some.inj ((hspec.rank_eq hoffers').symm.trans hrank')
    rcases Prod.Lex.toLex_le_toLex.1 (hfirst e' he') with hlt | ⟨hsame, hle⟩
    · exact .inl (hkey ▸ hlt)
    · refine .inr ⟨hsame.trans hkey, ?_⟩
      rw [List.length_map, ← hlength]
      -- Indices grow along the text.
      by_contra hlt
      have hsorted := h.sorted
      rw [hlive] at hsorted
      have hx : (m.left e, p) ∈ y :: B := by
        have hat := congrArg (·[a.length]?) hlive
        simp only [List.getElem?_append_right (Nat.le_refl _), Nat.sub_self] at hat
        rw [List.getElem?_append_right (by omega)] at hat
        obtain ⟨k, hk⟩ : ∃ k, a.length - A.length = k + 1 := ⟨a.length - A.length - 1, by omega⟩
        rw [hk, List.getElem?_cons_succ] at hat
        exact List.mem_of_getElem? hat.symm
      rw [List.map_append, List.pairwise_append, List.map_cons, List.pairwise_cons] at hsorted
      have := hsorted.2.1.1 (m.left e) (List.mem_map.2 ⟨_, hx, rfl⟩)
      omega

/-! ### Passes of the loop -/

variable {st st' : List Symbol × List β × σ}

omit [LinearOrder κ] in
/-- The loop goes on with what a pass leaves. -/
theorem mergeLoop_succ {fuel : ℕ} {queue : List β} {s : σ}
    (hpop : popBest m.better queue = some (e, rest)) :
    m.mergeLoop (fuel + 1) symbols (queue, s) =
      (m.pass (symbols, queue, s)).bind fun st => m.mergeLoop fuel st.1 st.2 := by
  rw [Merger.mergeLoop, Merger.pass, hpop]
  simp only [Option.bind_eq_bind, Option.bind_some, Option.bind_assoc]
  refine Option.bind_congr fun l _ => Option.bind_congr fun r _ => ?_
  split
  · rfl
  · simp only [Option.bind_assoc]
    rfl

/-- What holds between two passes: the symbols that are left are `live`, and the queue knows
of them what it has to. -/
structure Merging (m : Merger β σ) (text : Text) (rank : Text → Text → Option κ)
    (Offers : β → Text → Text → Prop) (Inv : σ → Prop) (st : List Symbol × List β × σ)
    (live : List (ℕ × Text)) : Prop where
  spans : Live st.1 text live
  inv : Inv st.2.2
  queue : Queue m Offers st.1 live st.2.1
  complete : Complete m rank Offers live st.2.1

/-- A candidate that is applied stands for two neighbours. -/
theorem Merging.neighbours (hspec : m.Spec text rank key Offers Inv)
    (h : Merging m text rank Offers Inv st live) (happlies : m.Applies st e) :
    ∃ a b p q, live = a ++ (m.left e, p) :: (m.right e, q) :: b ∧ Offers e p q := by
  obtain ⟨⟨rest, hpop⟩, l, r, hl, hr, hfresh⟩ := happlies
  have hqueued := h.queue e (mem_of_popBest hpop).1
  exact neighbours_of_queued hspec h.spans hqueued hl hr hfresh

/-- **A pass** merges the best pair, or takes a candidate away that is stale. -/
theorem pass_spec (hspec : m.Spec text rank key Offers Inv)
    (h : Merging m text rank Offers Inv st live)
    (hpop : popBest m.better st.2.1 = some (e, rest)) :
    ∃ st' live', m.pass st = some st' ∧ Merging m text rank Offers Inv st' live' ∧
      st'.1.length = st.1.length ∧
      (live' = live ∧ st'.2.1.length < st.2.1.length ∨
        ∃ k i, bestPair rank (live.map Prod.snd) = some (k, i) ∧
          live'.map Prod.snd = mergeAt i (live.map Prod.snd) ∧
          live'.length + 1 = live.length ∧ st'.2.1.length ≤ st.2.1.length + 1) := by
  obtain ⟨symbols, queue, s⟩ := st
  obtain ⟨hlive, hs, hqueue, hcomplete⟩ := h
  dsimp only at hlive hs hqueue hcomplete hpop
  obtain ⟨hmem, hsub, hrest, hlen⟩ := mem_of_popBest hpop
  have hqueued := hqueue e hmem
  obtain ⟨-, -, -, hl, hr, -⟩ := id hqueued
  have hleft := List.getElem?_eq_getElem hl
  have hright := List.getElem?_eq_getElem hr
  rcases hstale : m.stale symbols[m.left e] symbols[m.right e] e with - | -
  · obtain ⟨a, b, p, q, rfl, hoffers⟩ :=
      neighbours_of_queued hspec hlive hqueued hleft hright hstale
    obtain ⟨symbols₁, habsorb, h₁, hlength, hnext⟩ := hlive.absorb
    have hmerged := h₁.symbol.1
    have hqueue₁ : Queue m Offers symbols₁ (a ++ (m.left e, p ++ q) :: b) rest :=
      fun x hx => (hqueue x (hsub x hx)).absorb hlive h₁ hlength hnext
    obtain ⟨queue₁, s₁, queue₂, s₂, hfirst, hsecond, hs₂, hextends, hprev, hfollow⟩ :=
      offers_spec hspec h₁ hmerged hs hqueue₁
    have hcomplete₂ := hcomplete.absorb hlive rfl hrest hextends.subset hprev hfollow
    have hlen₂ := hextends.length_le
    refine ⟨(symbols₁, queue₂, s₂), _, ?_, ⟨h₁, hs₂, hextends.queued, hcomplete₂⟩, hlength,
      .inr ⟨key e, a.length, bestPair_of_popBest hspec hlive hoffers hcomplete hpop, ?_, ?_, ?_⟩⟩
    · rw [Merger.pass, hpop]
      simp only [hleft, hright, Option.bind_eq_bind, Option.bind_some, hstale, habsorb, hmerged,
        hfirst, hsecond, Bool.false_eq_true, if_false]
      rfl
    · have hat : a.length = (a.map Prod.snd).length := (List.length_map _).symm
      simp only [List.map_append, List.map_cons]
      rw [hat, mergeAt_append]
    · simp only [List.length_append, List.length_cons]
      omega
    · dsimp only
      omega
  · -- A candidate that is stale stands for no neighbours.
    have hcomplete' : Complete m rank Offers live rest := by
      intro a b x y hlive'
      refine (hcomplete a b x y hlive').imp_right fun ⟨e', he', hl', hr', hoffers'⟩ => ?_
      refine ⟨e', (hrest e' he').resolve_left ?_, hl', hr', hoffers'⟩
      rintro rfl
      subst hlive'
      have hx := hlive.symbol
      have hshift : a ++ x :: y :: b = (a ++ [x]) ++ y :: b := by simp
      have hy := (hshift ▸ hlive : Live symbols text ((a ++ [x]) ++ (y.1, y.2) :: b)).symbol
      rw [← hl', hleft] at hx
      rw [← hr', hright] at hy
      have hcurrent := hspec.current (l := symbols[m.left e']) (r := symbols[m.right e'])
        hoffers' hx.2 hy.2 (congrArg Symbol.len (Option.some.inj hx.1))
        (congrArg Symbol.len (Option.some.inj hy.1))
      rw [hstale] at hcurrent
      cases hcurrent
    refine ⟨(symbols, rest, s), live, ?_, ⟨hlive, hs, fun x hx => hqueue x (hsub x hx),
      hcomplete'⟩, rfl, .inl ⟨rfl, ?_⟩⟩
    · rw [Merger.pass, hpop]
      simp only [hleft, hright, Option.bind_eq_bind, Option.bind_some, hstale, if_true]
      rfl
    · dsimp only
      omega

/-- **The loop ends**, and merges greedily. -/
theorem mergeLoop_spec (hspec : m.Spec text rank key Offers Inv) {fuel n : ℕ} {s : σ}
    (h : Live symbols text live) (hs : Inv s) (hqueue : Queue m Offers symbols live queue)
    (hcomplete : Complete m rank Offers live queue) (hfuel : queue.length + 2 * live.length < fuel)
    (hn : live.length ≤ n + 1) :
    ∃ symbols' s' live', m.mergeLoop fuel symbols (queue, s) = some (symbols', s') ∧
      Live symbols' text live' ∧ symbols'.length = symbols.length ∧
      live'.map Prod.snd = greedy rank n (live.map Prod.snd) ∧ Inv s' := by
  induction fuel generalizing symbols queue s live n with
  | zero => omega
  | succ fuel ih =>
    rcases hpop : popBest m.better queue with - | ⟨e, rest⟩
    · obtain rfl := eq_nil_of_popBest hpop
      have hnone : bestPair rank (live.map Prod.snd) = none := by
        refine bestPair_eq_none fun a' p' q' b' heq => ?_
        obtain ⟨A, B, x, y, hlive, -, rfl, rfl⟩ := neighbours_of_map heq
        rcases hcomplete A B x y hlive with hnone | ⟨e, he, -⟩
        · exact hnone
        · cases he
      refine ⟨symbols, s, live, ?_, h, rfl, (greedy_of_none hnone).symm, hs⟩
      rw [Merger.mergeLoop, hpop]
    · have hmerging : Merging m text rank Offers Inv (symbols, queue, s) live :=
        ⟨h, hs, hqueue, hcomplete⟩
      obtain ⟨⟨symbols₁, queue₁, s₁⟩, live₁, hpass, ⟨h₁, hs₁, hqueue₁, hcomplete₁⟩, hlength,
        hmoved⟩ := pass_spec hspec hmerging hpop
      dsimp only at h₁ hs₁ hqueue₁ hcomplete₁ hlength hmoved
      rw [mergeLoop_succ hpop, hpass, Option.bind_some]
      rcases hmoved with ⟨rfl, hlt⟩ | ⟨k, i, hbest, hmerge, hless, hle⟩
      · obtain ⟨symbols', s', live', hloop, hlive', hlength', hrest'⟩ :=
          ih h₁ hs₁ hqueue₁ hcomplete₁ (by omega) hn
        exact ⟨symbols', s', live', hloop, hlive', hlength'.trans hlength, hrest'⟩
      · have htwo : 2 ≤ live.length := by
          obtain ⟨a, p, q, b, hpieces, -⟩ := exists_of_bestPair hbest
          have hcount := congrArg List.length hpieces
          simp only [List.length_map, List.length_append, List.length_cons] at hcount
          omega
        obtain ⟨n, rfl⟩ : ∃ n', n = n' + 1 := ⟨n - 1, by omega⟩
        obtain ⟨symbols', s', live', hloop, hlive', hlength', hpieces, hs'⟩ :=
          ih (n := n) h₁ hs₁ hqueue₁ hcomplete₁ (by omega) (by omega)
        refine ⟨symbols', s', live', hloop, hlive', hlength'.trans hlength, ?_, hs'⟩
        rw [hpieces, hmerge, greedy, hbest]

/-- The loop begins with the characters of the text, all offered. -/
theorem start_spec (hspec : m.Spec text rank key Offers Inv) {s : σ} (hs : Inv s) :
    ∃ st, m.start text s = some st ∧ Merging m text rank Offers Inv st (charsFrom 0 text) ∧
      st.1 = splitChars text ∧ st.2.1.length ≤ text.length := by
  have hlength : (splitChars text).length = text.length := length_splitCharsFrom 0 0 text
  have hindices : (charsFrom 0 text).map Prod.fst = List.range (splitChars text).length := by
    rw [map_fst_charsFrom, hlength, List.range_eq_range']
  obtain ⟨queue, s₁, hseed, hs₁, hqueue, hcomplete, hlen⟩ :=
    seed_spec hspec (live_splitChars text) hindices hs
  refine ⟨(splitChars text, queue, s₁), ?_, ⟨live_splitChars text, hs₁, hqueue, hcomplete⟩, rfl,
    hlen.trans_eq hlength⟩
  rw [Merger.start, hseed]
  rfl

/-- **What holds between two passes** holds whenever the loop begins one. -/
theorem merging_of_reaches (hspec : m.Spec text rank key Offers Inv) {s : σ} (hs : Inv s)
    (h : m.Reaches text s st) : ∃ live, Merging m text rank Offers Inv st live := by
  obtain ⟨st₀, hstart, hpasses⟩ := h
  induction hpasses with
  | refl =>
    obtain ⟨st₁, hstart₁, hmerging, -⟩ := start_spec hspec hs
    obtain rfl := Option.some.inj (hstart₁.symm.trans hstart)
    exact ⟨_, hmerging⟩
  | @tail st₁ st₂ _ hpass ih =>
    obtain ⟨live, hmerging⟩ := ih
    rcases hpop : popBest m.better st₁.2.1 with - | ⟨e, rest⟩
    · rw [Merger.pass, hpop] at hpass
      cases hpass
    · obtain ⟨st', live', hpass', hmerging', -⟩ := pass_spec hspec hmerging hpop
      obtain rfl := Option.some.inj (hpass'.symm.trans hpass)
      exact ⟨live', hmerging'⟩

/-- **Merging a text** leaves what greedy merging of its characters leaves. -/
theorem merge_spec (hspec : m.Spec text rank key Offers Inv) {s : σ} (hs : Inv s) :
    ∃ symbols s' live, m.merge text s = some (symbols, s') ∧ Live symbols text live ∧
      symbols.length = text.length ∧ live.map Prod.snd = segment rank text ∧ Inv s' := by
  obtain ⟨⟨symbols, queue, s₁⟩, hstart, ⟨hlive, hs₁, hqueue, hcomplete⟩, rfl, hlen⟩ :=
    start_spec hspec hs
  dsimp only at hlive hs₁ hqueue hcomplete hlen
  have hlength : (splitChars text).length = text.length := length_splitCharsFrom 0 0 text
  have hcount : (charsFrom 0 text).length = text.length := by
    have := congrArg List.length (map_fst_charsFrom 0 text)
    rwa [List.length_map, List.length_range'] at this
  have hfuel : queue.length + 2 * (charsFrom 0 text).length < 3 * (splitChars text).length + 1 := by
    omega
  have hn : (charsFrom 0 text).length ≤ text.length + 1 := by omega
  obtain ⟨symbols', s', live, hloop, hlive', hlength', hpieces, hs'⟩ :=
    mergeLoop_spec hspec hlive hs₁ hqueue hcomplete hfuel hn
  refine ⟨symbols', s', live, ?_, hlive', hlength'.trans hlength, ?_, hs'⟩
  · rw [Merger.start] at hstart
    obtain ⟨⟨queue₁, s₂⟩, hseed, heq⟩ := Option.bind_eq_some_iff.1 hstart
    cases heq
    rw [Merger.merge, hseed]
    exact hloop
  · rw [hpieces, map_snd_charsFrom]
    rfl

end Vocab

end Oxillama
