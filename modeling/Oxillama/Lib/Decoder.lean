/-
Stateful decoders and encoders.

A decoder is a computation in `StateT σ (Except ε)`.  Three ways of saying what a
decoder does, each with one rule per way of building decoders:

* `Reads mk p bytes a` — placed in front of `bytes`, whatever stands before and
  after them, `p` answers `a` and stops right behind them;
* `Lockstep R V p q` — from related states, `p` and `q` both fail, or both
  succeed with related answers in related states;
* `Grows mk Retry p` — `p` takes nothing back when more data arrive, errors that
  ask for more data apart.

`iterM f n a` runs `f` on an accumulator `n` times; it is the counted loop of
both.

An encoder writes to a sink and may fail: `ExceptT ε (StateM σ)`.  A failed encoder leaves
behind what it has written, so the state is there in either case.

* `Emits p bytes a` — whatever the sink holds, `p` appends `bytes` to it and
  answers `a`;
* `sumM f xs n` — the loop that runs `f` on one item after the other and adds
  up what it answers to `n`.
-/
import Mathlib.Algebra.BigOperators.Group.List.Basic
import Mathlib.Data.List.Basic

namespace Oxillama

/-! ### Counted loops -/

/-- `f`, `n` times over, on an accumulator. -/
def iterM {m : Type → Type} [Monad m] {α : Type} (f : α → m α) : ℕ → α → m α
  | 0, a => pure a
  | n + 1, a => f a >>= iterM f n

/-- The value of an option, or an error. -/
def okOr {m : Type → Type} {ε : Type} [Monad m] [MonadExcept ε m] {α : Type} (e : ε) :
    Option α → m α
  | some a => pure a
  | none => throw e

theorem except_bind_eq_ok {ε α β : Type} {x : Except ε α} {f : α → Except ε β} {b : β} :
    (x >>= f) = .ok b ↔ ∃ a, x = .ok a ∧ f a = .ok b := by
  cases x with
  | error e =>
    refine iff_of_false (fun h => ?_) ?_
    · cases h
    · rintro ⟨_, h, -⟩
      cases h
  | ok a =>
    constructor
    · intro h
      exact ⟨a, rfl, h⟩
    · rintro ⟨_, ha, h⟩
      obtain rfl := Except.ok.inj ha
      exact h

theorem mapM_of_ok {ε α β : Type} {f : α → Except ε β} {g : α → β} {xs : List α}
    (h : ∀ x ∈ xs, f x = .ok (g x)) : xs.mapM f = .ok (xs.map g) := by
  induction xs with
  | nil => rfl
  | cons x xs ih =>
    rw [List.mapM_cons, h x List.mem_cons_self, ih fun y hy => h y (List.mem_cons_of_mem x hy)]
    rfl

theorem mapM_of_some {α β : Type} {f : α → Option β} {g : α → β} {xs : List α}
    (h : ∀ x ∈ xs, f x = some (g x)) : xs.mapM f = some (xs.map g) := by
  induction xs with
  | nil => rfl
  | cons x xs ih =>
    rw [List.mapM_cons, h x List.mem_cons_self, ih fun y hy => h y (List.mem_cons_of_mem _ hy)]
    rfl

theorem mapM_eq_none {α β : Type} {f : α → Option β} {xs : List α} {x : α} (hmem : x ∈ xs)
    (h : f x = none) : xs.mapM f = none := by
  induction xs with
  | nil => cases hmem
  | cons y xs ih =>
    rw [List.mapM_cons]
    rcases List.mem_cons.mp hmem with rfl | hmem
    · rw [h]
      rfl
    · rw [ih hmem]
      cases f y <;> rfl

theorem ok_of_mapM {ε α β : Type} {f : α → Except ε β} {xs : List α} {ys : List β}
    (h : xs.mapM f = .ok ys) : ∀ x ∈ xs, ∃ y, f x = .ok y := by
  induction xs generalizing ys with
  | nil => simp
  | cons x xs ih =>
    rw [List.mapM_cons, except_bind_eq_ok] at h
    obtain ⟨y, hy, hrest⟩ := h
    obtain ⟨ys', hys', -⟩ := except_bind_eq_ok.mp hrest
    exact List.forall_mem_cons.mpr ⟨⟨y, hy⟩, ih hys'⟩

theorem toOption_eq_some {ε α : Type} {x : Except ε α} {a : α} :
    x.toOption = some a ↔ x = .ok a := by
  cases x with
  | error e => exact iff_of_false (fun h => nomatch h) (fun h => nomatch h)
  | ok a' =>
    show some a' = some a ↔ Except.ok a' = Except.ok a
    rw [Except.ok.injEq, Option.some_inj]

theorem okOr_eq_ok {ε α : Type} {e : ε} {o : Option α} {a : α} :
    (okOr e o : Except ε α) = .ok a ↔ o = some a := by
  cases o with
  | none => exact iff_of_false (fun h => nomatch h) (fun h => nomatch h)
  | some a' =>
    show Except.ok a' = Except.ok a ↔ _
    rw [Except.ok.injEq, Option.some_inj]

theorem get_bind_apply {σ ε α : Type} (f : σ → StateT σ (Except ε) α) (s : σ) :
    (get >>= f) s = f s s := rfl

theorem bind_apply_ok {σ ε α β : Type} {p : StateT σ (Except ε) α}
    {f : α → StateT σ (Except ε) β} {s s' : σ} {a : α} (h : p s = .ok (a, s')) :
    (p >>= f) s = f a s' := by
  show (p s >>= fun r => f r.1 r.2) = _
  rw [h]
  rfl

theorem bind_eq_ok {σ ε α β : Type} {p : StateT σ (Except ε) α}
    {f : α → StateT σ (Except ε) β} {s s' : σ} {b : β} :
    (p >>= f) s = .ok (b, s') ↔ ∃ a s₁, p s = .ok (a, s₁) ∧ f a s₁ = .ok (b, s') := by
  constructor
  · intro h
    cases hp : p s with
    | error e =>
      have h' : (p s >>= fun r => f r.1 r.2) = .ok (b, s') := h
      rw [hp] at h'
      cases h'
    | ok r =>
      refine ⟨r.1, r.2, rfl, ?_⟩
      rw [← h, bind_apply_ok hp]
  · rintro ⟨a, s₁, hp, hf⟩
    rw [bind_apply_ok hp, hf]

/-- The loop that collects what it reads reads as often as it is told. -/
theorem length_of_collect {σ ε ι : Type} {read : StateT σ (Except ε) ι} {n : ℕ} {s s' : σ}
    {acc items : List ι}
    (h : (iterM (fun acc => do return acc ++ [← read]) n acc : StateT σ (Except ε) (List ι)) s =
      .ok (items, s')) : items.length = acc.length + n := by
  induction n generalizing acc s with
  | zero =>
    obtain ⟨rfl, -⟩ := Prod.mk.inj (Except.ok.inj h)
    rfl
  | succ n ih =>
    obtain ⟨acc₁, s₁, hone, hrest⟩ := bind_eq_ok.mp h
    obtain ⟨item, s₂, -, hone⟩ := bind_eq_ok.mp hone
    obtain ⟨rfl, rfl⟩ := Prod.mk.inj (Except.ok.inj hone)
    have hlen := ih hrest
    rw [List.length_append, List.length_singleton] at hlen
    omega

/-! ### Reading an encoding -/

/-- `Reads mk p bytes a`: from the state `mk data pos` of a decoder in front of
`bytes`, `p` answers `a` and the state is the one behind `bytes`. -/
def Reads {β σ ε α : Type} (mk : List β → ℕ → σ) (p : StateT σ (Except ε) α)
    (bytes : List β) (a : α) : Prop :=
  ∀ pre post : List β, p (mk (pre ++ bytes ++ post) pre.length) =
    .ok (a, mk (pre ++ bytes ++ post) (pre.length + bytes.length))

namespace Reads

variable {β σ ε α γ ι : Type} {mk : List β → ℕ → σ} {p : StateT σ (Except ε) α}

/-- Reading somewhere inside of given data. -/
theorem apply {u pre post data : List β} {a : α} {pos : ℕ} (h : Reads mk p u a)
    (hdata : pre ++ (u ++ post) = data) (hpos : pre.length = pos) :
    p (mk data pos) = .ok (a, mk data (pos + u.length)) := by
  have hread := h pre post
  rwa [List.append_assoc, hdata, hpos] at hread

theorem pure (a : α) : Reads (ε := ε) mk (Pure.pure a) [] a := by
  intro pre post
  rfl

theorem bind {f : α → StateT σ (Except ε) γ} {u v : List β} {a : α} {c : γ}
    (hp : Reads mk p u a) (hf : Reads mk (f a) v c) : Reads mk (p >>= f) (u ++ v) c := by
  intro pre post
  have h₁ := hp pre (v ++ post)
  have h₂ := hf (pre ++ u) post
  have hdata : pre ++ u ++ (v ++ post) = pre ++ (u ++ v) ++ post := by
    simp only [List.append_assoc]
  have hdata' : pre ++ u ++ v ++ post = pre ++ (u ++ v) ++ post := by
    simp only [List.append_assoc]
  rw [hdata] at h₁
  rw [hdata', List.length_append] at h₂
  show (p _ >>= fun r => f r.1 r.2) = _
  rw [h₁, List.length_append, ← Nat.add_assoc]
  exact h₂

/-- A last step that reads nothing. -/
theorem bind_last {f : α → StateT σ (Except ε) γ} {u : List β} {a : α} {c : γ}
    (hp : Reads mk p u a) (hf : Reads mk (f a) [] c) : Reads mk (p >>= f) u c := by
  have h := hp.bind hf
  rwa [List.append_nil] at h

theorem okOr {o : Option α} {e : ε} {a : α} (h : o = some a) :
    Reads mk (Oxillama.okOr e o : StateT σ (Except ε) α) [] a := by
  subst h
  exact pure a

/-- A loop that reads one item after the other.  `Inv` says what the rest of the
items and the accumulator have to do with each other. -/
theorem iterM {f : γ → StateT σ (Except ε) γ} {enc : ι → List β} {next : γ → ι → γ}
    (Inv : List ι → γ → Prop)
    (hstep : ∀ x xs acc, Inv (x :: xs) acc →
      Reads mk (f acc) (enc x) (next acc x) ∧ Inv xs (next acc x))
    {items : List ι} {acc : γ} (h : Inv items acc) :
    Reads mk (Oxillama.iterM f items.length acc) (items.flatMap enc)
      (items.foldl next acc) := by
  induction items generalizing acc with
  | nil => exact pure acc
  | cons x xs ih =>
    obtain ⟨hx, hxs⟩ := hstep x xs acc h
    exact hx.bind (ih hxs)

/-- The loop that collects what it reads. -/
theorem collect {read : StateT σ (Except ε) ι} {enc : ι → List β} {items : List ι}
    (h : ∀ x ∈ items, Reads mk read (enc x) x) :
    Reads mk (Oxillama.iterM (fun acc => do return acc ++ [← read]) items.length [])
      (items.flatMap enc) items := by
  have hfold : ∀ (xs acc : List ι), xs.foldl (fun acc x => acc ++ [x]) acc = acc ++ xs := by
    intro xs
    induction xs with
    | nil => simp
    | cons x xs ih => simp [ih]
  have hloop : Reads mk (Oxillama.iterM (fun acc => do return acc ++ [← read]) items.length [])
      (items.flatMap enc) (items.foldl (fun acc x => acc ++ [x]) []) := by
    refine iterM (fun xs _ => ∀ x ∈ xs, x ∈ items) ?_ fun x hx => hx
    intro x xs acc hmem
    exact ⟨(h x (hmem x List.mem_cons_self)).bind_last (pure _),
      fun y hy => hmem y (List.mem_cons_of_mem x hy)⟩
  rwa [hfold, List.nil_append] at hloop

end Reads

/-! ### Two decoders in lockstep -/

/-- `Lockstep R V p q`: from states related by `R`, both decoders fail, or both
succeed with answers related by `V` in states related by `R`. -/
def Lockstep {σ τ ε δ α β : Type} (R : σ → τ → Prop) (V : α → β → Prop)
    (p : StateT σ (Except ε) α) (q : StateT τ (Except δ) β) : Prop :=
  ∀ s t, R s t →
    (∃ e e', p s = .error e ∧ q t = .error e') ∨
    ∃ a s' b t', p s = .ok (a, s') ∧ q t = .ok (b, t') ∧ V a b ∧ R s' t'

namespace Lockstep

variable {σ τ ε δ α β γ κ : Type} {R : σ → τ → Prop} {V : α → β → Prop} {W : γ → κ → Prop}
  {p : StateT σ (Except ε) α} {q : StateT τ (Except δ) β}

theorem pure {a : α} {b : β} (h : V a b) :
    Lockstep (ε := ε) (δ := δ) R V (Pure.pure a) (Pure.pure b) :=
  fun s t hR => .inr ⟨a, s, b, t, rfl, rfl, h, hR⟩

theorem fail (e : ε) (e' : δ) :
    Lockstep R V (throw e : StateT σ (Except ε) α) (throw e' : StateT τ (Except δ) β) :=
  fun _ _ _ => .inl ⟨e, e', rfl, rfl⟩

theorem bind {f : α → StateT σ (Except ε) γ} {g : β → StateT τ (Except δ) κ}
    (hp : Lockstep R V p q) (hf : ∀ a b, V a b → Lockstep R W (f a) (g b)) :
    Lockstep R W (p >>= f) (q >>= g) := by
  intro s t hR
  show (∃ e e', (p s >>= fun r => f r.1 r.2) = _ ∧ (q t >>= fun r => g r.1 r.2) = _) ∨ _
  rcases hp s t hR with ⟨e, e', hpe, hqe⟩ | ⟨a, s', b, t', hpa, hqb, hV, hR'⟩
  · exact .inl ⟨e, e', by rw [hpe]; rfl, by rw [hqe]; rfl⟩
  · have h := hf a b hV s' t' hR'
    show (∃ e e', (p s >>= fun r => f r.1 r.2) = _ ∧ (q t >>= fun r => g r.1 r.2) = _) ∨
      ∃ c s' d t', (p s >>= fun r => f r.1 r.2) = _ ∧ (q t >>= fun r => g r.1 r.2) = _ ∧ _
    rw [hpa, hqb]
    exact h

/-- The same function of both answers. -/
theorem map {p' : StateT τ (Except δ) α} (f : α → γ) (h : Lockstep R Eq p p') :
    Lockstep R Eq (p >>= fun a => Pure.pure (f a)) (p' >>= fun a => Pure.pure (f a)) :=
  h.bind fun _ _ hab => pure (congrArg f hab)

theorem ite {c d : Prop} [Decidable c] [Decidable d] (hcd : c ↔ d)
    {p' : StateT σ (Except ε) α} {q' : StateT τ (Except δ) β}
    (h : c → Lockstep R V p q) (h' : ¬ c → Lockstep R V p' q') :
    Lockstep R V (if c then p else p') (if d then q else q') := by
  by_cases hc : c
  · rw [if_pos hc, if_pos (hcd.mp hc)]
    exact h hc
  · rw [if_neg hc, if_neg fun hd => hc (hcd.mpr hd)]
    exact h' hc

/-- The second decoder may look at its state first. -/
theorem getRight {g : τ → StateT τ (Except δ) β} (h : ∀ t, Lockstep R V p (g t)) :
    Lockstep R V p (get >>= g) :=
  fun s t hR => h t s t hR

/-- A step both take without touching their states. -/
theorem lift (x : Except ε α) :
    Lockstep R Eq (liftM x : StateT σ (Except ε) α) (liftM x : StateT τ (Except ε) α) := by
  cases x with
  | error e => exact fail e e
  | ok a => exact pure rfl

theorem okOr {o : Option α} (e : ε) (e' : δ) :
    Lockstep R Eq (Oxillama.okOr e o : StateT σ (Except ε) α)
      (Oxillama.okOr e' o : StateT τ (Except δ) α) := by
  cases o with
  | none => exact fail e e'
  | some a => exact pure rfl

theorem iterM {f : α → StateT σ (Except ε) α} {g : β → StateT τ (Except δ) β}
    (hfg : ∀ a b, V a b → Lockstep R V (f a) (g b)) {n : ℕ} {a : α} {b : β} (h : V a b) :
    Lockstep R V (Oxillama.iterM f n a) (Oxillama.iterM g n b) := by
  induction n generalizing a b with
  | zero => exact pure h
  | succ n ih => exact (hfg a b h).bind fun a' b' h' => ih h'

end Lockstep

/-! ### Data that arrive in pieces -/

/-- `Grows mk Retry p`: what `p data` answers in front of position `pos` it also answers when
more data follow, unless it fails with an error that `Retry` takes for a lack of data. -/
def Grows {β σ ε α : Type} (mk : List β → ℕ → σ) (Retry : ε → Prop)
    (p : List β → StateT σ (Except ε) α) : Prop :=
  ∀ data pos,
    (∃ a pos', ∀ more, p (data ++ more) (mk (data ++ more) pos) =
      .ok (a, mk (data ++ more) pos')) ∨
    (∃ e, ∀ more, p (data ++ more) (mk (data ++ more) pos) = .error e) ∨
    ∃ e, p data (mk data pos) = .error e ∧ Retry e

namespace Grows

variable {β σ ε α γ : Type} {mk : List β → ℕ → σ} {Retry : ε → Prop}
  {p : List β → StateT σ (Except ε) α} {data : List β} {pos : ℕ} {a : α} {e : ε}

/-- An answer stays. -/
theorem ok_append {s : σ} (h : Grows mk Retry p) (hok : p data (mk data pos) = .ok (a, s)) :
    ∃ pos', s = mk data pos' ∧ ∀ more, p (data ++ more) (mk (data ++ more) pos) =
      .ok (a, mk (data ++ more) pos') := by
  rcases h data pos with ⟨b, pos', hall⟩ | ⟨e, hall⟩ | ⟨e, herr, -⟩
  · have hnow := hall []
    rw [List.append_nil, hok] at hnow
    obtain ⟨rfl, rfl⟩ := Prod.mk.inj (Except.ok.inj hnow)
    exact ⟨pos', rfl, hall⟩
  · have hnow := hall []
    rw [List.append_nil, hok] at hnow
    cases hnow
  · rw [hok] at herr
    cases herr

/-- So does an error that is not for lack of data. -/
theorem error_append (h : Grows mk Retry p) (herr : p data (mk data pos) = .error e)
    (hretry : ¬ Retry e) (more : List β) :
    p (data ++ more) (mk (data ++ more) pos) = .error e := by
  rcases h data pos with ⟨b, i, hall⟩ | ⟨e', hall⟩ | ⟨e', hnow, hretry'⟩
  · have hnow := hall []
    rw [List.append_nil, herr] at hnow
    cases hnow
  · have hnow := hall []
    rw [List.append_nil, herr] at hnow
    obtain rfl := Except.error.inj hnow
    exact hall more
  · rw [herr] at hnow
    obtain rfl := Except.error.inj hnow
    exact absurd hretry' hretry

theorem pure (a : α) : Grows mk Retry fun _ => (Pure.pure a : StateT σ (Except ε) α) :=
  fun _ pos => .inl ⟨a, pos, fun _ => rfl⟩

theorem fail (e : ε) : Grows mk Retry fun _ => (throw e : StateT σ (Except ε) α) :=
  fun _ _ => .inr (.inl ⟨e, fun _ => rfl⟩)

theorem bind {f : α → List β → StateT σ (Except ε) γ} (hp : Grows mk Retry p)
    (hf : ∀ a, Grows mk Retry (f a)) :
    Grows mk Retry fun data => p data >>= fun a => f a data := by
  intro data pos
  rcases hp data pos with ⟨a, i, hall⟩ | ⟨e, hall⟩ | ⟨e, herr, hretry⟩
  · have hbind : ∀ more, (p (data ++ more) >>= fun a => f a (data ++ more))
        (mk (data ++ more) pos) = f a (data ++ more) (mk (data ++ more) i) :=
      fun more => bind_apply_ok (hall more)
    rcases hf a data i with ⟨c, j, hrest⟩ | ⟨e, hrest⟩ | ⟨e, herr, hretry⟩
    · exact .inl ⟨c, j, fun more => (hbind more).trans (hrest more)⟩
    · exact .inr (.inl ⟨e, fun more => (hbind more).trans (hrest more)⟩)
    · have hnow := hbind []
      rw [List.append_nil] at hnow
      exact .inr (.inr ⟨e, hnow.trans herr, hretry⟩)
  · refine .inr (.inl ⟨e, fun more => ?_⟩)
    show (p (data ++ more) (mk (data ++ more) pos) >>= fun r => f r.1 (data ++ more) r.2) = _
    rw [hall more]
    rfl
  · refine .inr (.inr ⟨e, ?_, hretry⟩)
    show (p data (mk data pos) >>= fun r => f r.1 data r.2) = _
    rw [herr]
    rfl

/-- A function of the answer. -/
theorem map (hp : Grows mk Retry p) (f : α → γ) :
    Grows mk Retry fun data => p data >>= fun a => Pure.pure (f a) :=
  hp.bind fun a => pure (f a)

theorem lift (x : Except ε α) :
    Grows mk Retry fun _ => (liftM x : StateT σ (Except ε) α) := by
  cases x with
  | error e => exact fail e
  | ok a => exact pure a

theorem okOr (e : ε) (o : Option α) :
    Grows mk Retry fun _ => (Oxillama.okOr e o : StateT σ (Except ε) α) := by
  cases o with
  | none => exact fail e
  | some a => exact pure a

theorem ite {c : Prop} [Decidable c] {q : List β → StateT σ (Except ε) α}
    (hp : c → Grows mk Retry p) (hq : ¬ c → Grows mk Retry q) :
    Grows mk Retry fun data => if c then p data else q data := by
  by_cases hc : c
  · simp only [if_pos hc]
    exact hp hc
  · simp only [if_neg hc]
    exact hq hc

/-- A check of what is there, which more data can only pass: it fails for lack of data. -/
theorem guard {q : List β → StateT σ (Except ε) α} {c : List β → ℕ → Prop}
    [∀ data pos, Decidable (c data pos)] {err : List β → ℕ → ε}
    (heq : ∀ data pos, p data (mk data pos) =
      if c data pos then .error (err data pos) else q data (mk data pos))
    (hpass : ∀ data pos more, ¬ c data pos → ¬ c (data ++ more) pos)
    (hretry : ∀ data pos, c data pos → Retry (err data pos)) (hq : Grows mk Retry q) :
    Grows mk Retry p := by
  intro data pos
  by_cases hc : c data pos
  · exact .inr (.inr ⟨err data pos, by rw [heq, if_pos hc], hretry data pos hc⟩)
  · have hthere : ∀ more, p (data ++ more) (mk (data ++ more) pos) =
        q (data ++ more) (mk (data ++ more) pos) := by
      intro more
      rw [heq, if_neg (hpass data pos more hc)]
    have hnow := hthere []
    rw [List.append_nil] at hnow
    simp only [hthere, hnow]
    exact hq data pos

theorem iterM {f : α → List β → StateT σ (Except ε) α} (hf : ∀ a, Grows mk Retry (f a)) (n : ℕ)
    (a : α) : Grows mk Retry fun data => Oxillama.iterM (fun a => f a data) n a := by
  induction n generalizing a with
  | zero => exact pure a
  | succ n ih => exact (hf a).bind ih

end Grows

/-! ### Encoders -/

theorem exceptT_bind_ok {ε σ α β : Type} {p : ExceptT ε (StateM σ) α}
    {f : α → ExceptT ε (StateM σ) β} {s s' : σ} {a : α} (h : p s = (.ok a, s')) :
    (p >>= f) s = f a s' := by
  show (match p s with | (x, s') => (ExceptT.bindCont f x : StateM σ (Except ε β)) s') = _
  rw [h]
  rfl

theorem exceptT_bind_error {ε σ α β : Type} {p : ExceptT ε (StateM σ) α}
    {f : α → ExceptT ε (StateM σ) β} {s s' : σ} {e : ε} (h : p s = (.error e, s')) :
    (p >>= f) s = (.error e, s') := by
  show (match p s with | (x, s') => (ExceptT.bindCont f x : StateM σ (Except ε β)) s') = _
  rw [h]
  rfl

theorem exceptT_get_bind {ε σ α : Type} (f : σ → ExceptT ε (StateM σ) α) (s : σ) :
    (get >>= f) s = f s s := rfl

theorem exceptT_lift {ε σ α : Type} (x : Except ε α) (s : σ) :
    (liftM x : ExceptT ε (StateM σ) α) s = (x, s) := rfl

/-- `f` on every item, the answers added up. -/
def sumM {m : Type → Type} [Monad m] {ι : Type} (f : ι → m ℕ) : List ι → ℕ → m ℕ
  | [], n => pure n
  | x :: xs, n => do sumM f xs (n + (← f x))

/-- `p` appends `bytes` to any sink and answers `a`. -/
def Emits {ε β α : Type} (p : ExceptT ε (StateM (List β)) α) (bytes : List β) (a : α) : Prop :=
  ∀ w, p w = (.ok a, w ++ bytes)

namespace Emits

variable {ε β α γ ι : Type} {p : ExceptT ε (StateM (List β)) α}

theorem pure (a : α) : Emits (Pure.pure a : ExceptT ε (StateM (List β)) α) [] a := by
  intro w
  rw [List.append_nil]
  rfl

theorem bind {f : α → ExceptT ε (StateM (List β)) γ} {u v : List β} {a : α} {c : γ}
    (hp : Emits p u a) (hf : Emits (f a) v c) : Emits (p >>= f) (u ++ v) c := by
  intro w
  rw [exceptT_bind_ok (hp w), hf (w ++ u), List.append_assoc]

/-- A first step whose answer is not used. -/
theorem seq {q : ExceptT ε (StateM (List β)) γ} {u v : List β} {a : α} {c : γ}
    (hp : Emits p u a) (hq : Emits q v c) : Emits (p >>= fun _ => q) (u ++ v) c :=
  hp.bind hq

/-- A last step that writes nothing. -/
theorem map {u : List β} {a : α} (hp : Emits p u a) (f : α → γ) :
    Emits (p >>= fun a => Pure.pure (f a)) u (f a) := by
  have h := hp.bind (f := fun a => Pure.pure (f a)) (pure (f a))
  rwa [List.append_nil] at h

/-- **The loop.**  Where every item emits its encoding and answers the length of
it, the loop emits all encodings and adds up their length. -/
theorem sumM {f : ι → ExceptT ε (StateM (List β)) ℕ} {enc : ι → List β} {items : List ι}
    (h : ∀ x ∈ items, Emits (f x) (enc x) (enc x).length) (n : ℕ) :
    Emits (Oxillama.sumM f items n) (items.flatMap enc) (n + (items.flatMap enc).length) := by
  induction items generalizing n with
  | nil => exact pure n
  | cons x xs ih =>
    have hx := h x List.mem_cons_self
    have hxs := ih (fun y hy => h y (List.mem_cons_of_mem x hy)) (n + (enc x).length)
    rw [List.flatMap_cons, List.length_append, ← Nat.add_assoc]
    exact hx.bind hxs

end Emits

end Oxillama
