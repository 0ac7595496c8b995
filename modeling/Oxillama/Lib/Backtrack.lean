/-
Backtracking readers.

A `Reader` is a nondeterministic machine over an alphabet `α`: a state either
reads one symbol (`eat`) or offers an ordered list of states to go on from
without reading (`branches`).  Two ways of running one are compared:

* `Reader.search` tries every branch and answers whether the whole input can be
  read;
* `Reader.commit` returns the state reached by the first branch that works, and
  forgets the others.

Both may visit states at most `n` deep; past that `search` answers an error.

* `search_eq_true_iff` — a verdict of `search` is right;
* `search_append` — a verdict on `u ++ v` implies one on `u`;
* `commit_eq_some` — `commit` only finds states that are reached by reading;
* `exists_commit_leftmost` — where `search` succeeds, `commit` finds the end of
  the *leftmost* reading, the one that prefers earlier branches.
-/
import Mathlib.Data.List.Basic

namespace Oxillama

/-- A nondeterministic reader with ordered choice.  Branches of a state that
can read the next symbol are not looked at. -/
structure Reader (σ α : Type*) where
  eat : σ → α → Option σ
  branches : σ → List σ

namespace Reader

variable {σ α ε : Type*} (m : Reader σ α)

/-! ### Readings -/

/-- `Residual m c w r`: reading `w` from `c` can stop in `r`, right after the
last symbol. -/
inductive Residual : σ → List α → σ → Prop
  | nil (c : σ) : Residual c [] c
  | eat {c c' r : σ} {b : α} {w : List α} (he : m.eat c b = some c')
      (hr : Residual c' w r) : Residual c (b :: w) r
  | branch {c d r : σ} {b : α} {w : List α} (he : m.eat c b = none)
      (hd : d ∈ m.branches c) (hr : Residual d (b :: w) r) : Residual c (b :: w) r

/-- `w` can be read from `c`. -/
def Reads (c : σ) (w : List α) : Prop := ∃ r, m.Residual c w r

/-- `Leftmost m c w r`: `r` is where the reading of `w` stops that takes, at
every choice, the first branch from which what is left of `w` can be read. -/
inductive Leftmost : σ → List α → σ → Prop
  | nil (c : σ) : Leftmost c [] c
  | eat {c c' r : σ} {b : α} {w : List α} (he : m.eat c b = some c')
      (hr : Leftmost c' w r) : Leftmost c (b :: w) r
  | branch {c d r : σ} {b : α} {w : List α} {earlier later : List σ} (he : m.eat c b = none)
      (hd : m.branches c = earlier ++ d :: later)
      (hfirst : ∀ e ∈ earlier, ¬ m.Reads e (b :: w)) (hr : Leftmost d (b :: w) r) :
      Leftmost c (b :: w) r

variable {m}

theorem reads_nil (c : σ) : m.Reads c [] := ⟨c, .nil c⟩

theorem residual_cons_of_eat {c c' r : σ} {b : α} {w : List α} (he : m.eat c b = some c') :
    m.Residual c (b :: w) r ↔ m.Residual c' w r := by
  constructor
  · intro h
    cases h with
    | eat he' hr =>
      obtain rfl : c' = _ := Option.some.inj (he.symm.trans he')
      exact hr
    | branch he' => exact absurd (he.symm.trans he') (by simp)
  · exact .eat he

theorem residual_cons_of_branch {c r : σ} {b : α} {w : List α} (he : m.eat c b = none) :
    m.Residual c (b :: w) r ↔ ∃ d ∈ m.branches c, m.Residual d (b :: w) r := by
  constructor
  · intro h
    cases h with
    | eat he' => exact absurd (he.symm.trans he') (by simp)
    | branch _ hd hr => exact ⟨_, hd, hr⟩
  · rintro ⟨d, hd, hr⟩
    exact .branch he hd hr

theorem reads_cons_of_eat {c c' : σ} {b : α} {w : List α} (he : m.eat c b = some c') :
    m.Reads c (b :: w) ↔ m.Reads c' w :=
  exists_congr fun _ => residual_cons_of_eat he

theorem reads_cons_of_branch {c : σ} {b : α} {w : List α} (he : m.eat c b = none) :
    m.Reads c (b :: w) ↔ ∃ d ∈ m.branches c, m.Reads d (b :: w) := by
  constructor
  · rintro ⟨r, hr⟩
    obtain ⟨d, hd, hr'⟩ := (residual_cons_of_branch he).mp hr
    exact ⟨d, hd, r, hr'⟩
  · rintro ⟨d, hd, r, hr⟩
    exact ⟨r, .branch he hd hr⟩

theorem Residual.append {c r s : σ} {u v : List α} (hu : m.Residual c u r)
    (hv : m.Residual r v s) : m.Residual c (u ++ v) s := by
  induction hu with
  | nil => exact hv
  | eat he _ ih => exact .eat he (ih hv)
  | branch he hd _ ih => exact .branch he hd (ih hv)

theorem Residual.split {c s : σ} {u v : List α} (h : m.Residual c (u ++ v) s) :
    ∃ r, m.Residual c u r ∧ m.Residual r v s := by
  generalize hw : u ++ v = w at h
  induction h generalizing u with
  | nil c =>
    obtain ⟨rfl, rfl⟩ := List.append_eq_nil_iff.mp hw
    exact ⟨c, .nil c, .nil c⟩
  | @eat c c' s b w he hr ih =>
    cases u with
    | nil =>
      -- nothing is read before the split: it is where the reading starts
      obtain rfl : v = b :: w := hw
      exact ⟨c, .nil c, .eat he hr⟩
    | cons x u =>
      obtain ⟨rfl, hrest⟩ := List.cons.inj hw
      obtain ⟨r, hu, hv⟩ := ih hrest
      exact ⟨r, .eat he hu, hv⟩
  | @branch c d s b w he hd hr ih =>
    cases u with
    | nil =>
      obtain rfl : v = b :: w := hw
      exact ⟨c, .nil c, .branch he hd hr⟩
    | cons x u =>
      obtain ⟨r, hu, hv⟩ := ih hw
      obtain ⟨rfl, -⟩ := List.cons.inj hw
      exact ⟨r, .branch he hd hu, hv⟩

theorem Reads.of_append {c : σ} {u v : List α} (h : m.Reads c (u ++ v)) : m.Reads c u := by
  obtain ⟨s, hs⟩ := h
  obtain ⟨r, hu, -⟩ := hs.split
  exact ⟨r, hu⟩

theorem Leftmost.residual {c r : σ} {w : List α} (h : m.Leftmost c w r) :
    m.Residual c w r := by
  induction h with
  | nil c => exact .nil c
  | eat he _ ih => exact .eat he ih
  | branch he hd _ _ ih => exact .branch he (by simp [hd]) ih

/-- Of two positions in one list, each the first with a property, neither is
before the other. -/
private theorem first_unique {P : σ → Prop} {l₁ l₂ r₁ r₂ : List σ} {x y : σ}
    (h : l₁ ++ x :: r₁ = l₂ ++ y :: r₂) (hx : P x) (hy : P y) (h₁ : ∀ e ∈ l₁, ¬ P e)
    (h₂ : ∀ e ∈ l₂, ¬ P e) : x = y := by
  induction l₁ generalizing l₂ with
  | nil =>
    cases l₂ with
    | nil => exact (List.cons.inj h).1
    | cons a l₂ =>
      obtain rfl : x = a := (List.cons.inj h).1
      exact absurd hx (h₂ x (by simp))
  | cons a l₁ ih =>
    cases l₂ with
    | nil =>
      obtain rfl : a = y := (List.cons.inj h).1
      exact absurd hy (h₁ a (by simp))
    | cons b l₂ =>
      exact ih (List.cons.inj h).2 (fun e he => h₁ e (by simp [he]))
        fun e he => h₂ e (by simp [he])

theorem Leftmost.unique {c r r' : σ} {w : List α} (h : m.Leftmost c w r)
    (h' : m.Leftmost c w r') : r = r' := by
  induction h with
  | nil c =>
    cases h'
    rfl
  | eat he _ ih =>
    cases h' with
    | eat he' hr' =>
      obtain rfl := Option.some.inj (he.symm.trans he')
      exact ih hr'
    | branch he' => exact absurd (he.symm.trans he') (by simp)
  | branch he hd hfirst hr ih =>
    cases h' with
    | eat he' => exact absurd (he'.symm.trans he) (by simp)
    | branch _ hd' hfirst' hr' =>
      obtain rfl := first_unique (hd.symm.trans hd') ⟨_, hr.residual⟩ ⟨_, hr'.residual⟩
        hfirst hfirst'
      exact ih hr'

/-! ### Bounded search -/

variable (m)

/-- Whether `b :: w` can be read from `c`, visiting states `n` deep at most.
The first branch that runs into the limit ends the search with the error
`limit`. -/
def search (limit : ε) : ℕ → σ → α → List α → Except ε Bool
  | 0, _, _, _ => .error limit
  | n + 1, c, b, w =>
    match m.eat c b with
    | some c' =>
      match w with
      | [] => .ok true
      | b' :: w' => search limit n c' b' w'
    | none => (m.branches c).anyM fun d => search limit n d b w

/-- The state after reading `b :: w` along the first branches that succeed.  A
branch that runs into the limit counts as one that does not. -/
def commit : ℕ → σ → α → List α → Option σ
  | 0, _, _, _ => none
  | n + 1, c, b, w =>
    match m.eat c b with
    | some c' =>
      match w with
      | [] => some c'
      | b' :: w' => commit n c' b' w'
    | none => (m.branches c).findSome? fun d => commit n d b w

/-- `search` on an input that may be empty. -/
def searchFrom (limit : ε) (n : ℕ) (c : σ) : List α → Except ε Bool
  | [] => .ok true
  | b :: w => m.search limit n c b w

/-- `commit` on an input that may be empty. -/
def commitFrom (n : ℕ) (c : σ) : List α → Option σ
  | [] => some c
  | b :: w => m.commit n c b w

variable {m} {limit : ε}

theorem search_of_eat {n : ℕ} {c c' : σ} {b : α} {w : List α} (he : m.eat c b = some c') :
    m.search limit (n + 1) c b w = m.searchFrom limit n c' w := by
  rw [search, he]
  cases w <;> rfl

theorem search_of_branch {n : ℕ} {c : σ} {b : α} {w : List α} (he : m.eat c b = none) :
    m.search limit (n + 1) c b w =
      (m.branches c).anyM fun d => m.search limit n d b w := by
  rw [search, he]

theorem commit_of_eat {n : ℕ} {c c' : σ} {b : α} {w : List α} (he : m.eat c b = some c') :
    m.commit (n + 1) c b w = m.commitFrom n c' w := by
  rw [commit, he]
  cases w <;> rfl

theorem commit_of_branch {n : ℕ} {c : σ} {b : α} {w : List α} (he : m.eat c b = none) :
    m.commit (n + 1) c b w = (m.branches c).findSome? fun d => m.commit n d b w := by
  rw [commit, he]

/-- What a verdict of `anyM` over branches says about each of them. -/
private theorem anyM_eq_ok {p : σ → Except ε Bool} {l : List σ} {x : Bool}
    (h : l.anyM p = .ok x) :
    (x = true → ∃ earlier d later, l = earlier ++ d :: later ∧ p d = .ok true ∧
      ∀ e ∈ earlier, p e = .ok false) ∧
    (x = false → ∀ e ∈ l, p e = .ok false) := by
  induction l with
  | nil =>
    obtain rfl : false = x := Except.ok.inj h
    simp
  | cons a l ih =>
    rw [List.anyM] at h
    cases hp : p a with
    | error e =>
      rw [hp] at h
      cases h
    | ok y =>
      rw [hp] at h
      cases y with
      | true =>
        obtain rfl : true = x := Except.ok.inj h
        exact ⟨fun _ => ⟨[], a, l, rfl, hp, by simp⟩, by simp⟩
      | false =>
        obtain ⟨htrue, hfalse⟩ := ih h
        constructor
        · intro hx
          obtain ⟨earlier, d, later, rfl, hd, hearlier⟩ := htrue hx
          exact ⟨a :: earlier, d, later, rfl, hd, by simpa [hp] using hearlier⟩
        · intro hx
          simpa [hp] using hfalse hx

/-- **A verdict of the search is right.** -/
theorem search_eq_true_iff {n : ℕ} {c : σ} {b : α} {w : List α} {x : Bool}
    (h : m.search limit n c b w = .ok x) : x = true ↔ m.Reads c (b :: w) := by
  induction n generalizing c b w x with
  | zero => cases h
  | succ n ih =>
    cases he : m.eat c b with
    | some c' =>
      rw [search_of_eat he] at h
      rw [reads_cons_of_eat he]
      cases w with
      | nil =>
        obtain rfl : true = x := Except.ok.inj h
        exact iff_of_true rfl (reads_nil c')
      | cons b' w' => exact ih h
    | none =>
      rw [search_of_branch he] at h
      rw [reads_cons_of_branch he]
      obtain ⟨htrue, hfalse⟩ := anyM_eq_ok h
      constructor
      · intro hx
        obtain ⟨earlier, d, later, hl, hd, -⟩ := htrue hx
        exact ⟨d, by simp [hl], (ih hd).mp rfl⟩
      · rintro ⟨d, hd, hr⟩
        by_contra hx
        -- the search has tried `d` as well, and reached a verdict on it
        have hd' := hfalse (Bool.eq_false_iff.mpr hx) d hd
        exact absurd ((ih hd').mpr hr) (by simp)

/-- `anyM` reaches a verdict when each branch does as soon as a longer search
of it did. -/
private theorem anyM_ok_of {p q : σ → Except ε Bool} {l : List σ} {x : Bool}
    (h : l.anyM p = .ok x)
    (hpq : ∀ d ∈ l, ∀ y, p d = .ok y → ∃ z, q d = .ok z ∧ (y = true → z = true)) :
    ∃ z, l.anyM q = .ok z := by
  induction l with
  | nil => exact ⟨false, rfl⟩
  | cons a l ih =>
    rw [List.anyM] at h ⊢
    cases hp : p a with
    | error e =>
      rw [hp] at h
      cases h
    | ok y =>
      rw [hp] at h
      obtain ⟨z, hz, hyz⟩ := hpq a (by simp) y hp
      rw [hz]
      cases z with
      | true => exact ⟨true, rfl⟩
      | false =>
        -- this branch reads the shorter input no further either
        cases y with
        | true => exact absurd (hyz rfl) (by simp)
        | false => exact ih h fun d hd => hpq d (by simp [hd])

/-- **A verdict on `u ++ v` implies one on `u`**: the search of the shorter
input visits no state the search of the longer one does not. -/
theorem search_append {n : ℕ} {c : σ} {b : α} {u v : List α} {x : Bool}
    (h : m.search limit n c b (u ++ v) = .ok x) : ∃ y, m.search limit n c b u = .ok y := by
  induction n generalizing c b u x with
  | zero => cases h
  | succ n ih =>
    cases he : m.eat c b with
    | some c' =>
      rw [search_of_eat he] at h ⊢
      cases u with
      | nil => exact ⟨true, rfl⟩
      | cons b' u' => exact ih h
    | none =>
      rw [search_of_branch he] at h ⊢
      -- a branch that reads all of `u ++ v` reads `u`: the search stops no later
      refine anyM_ok_of h fun d _ y hd => ?_
      obtain ⟨z, hz⟩ := ih hd
      refine ⟨z, hz, fun hy => ?_⟩
      have hreads : m.Reads d ((b :: u) ++ v) := (search_eq_true_iff hd).mp hy
      exact (search_eq_true_iff hz).mpr hreads.of_append

theorem commit_eq_some {n : ℕ} {c r : σ} {b : α} {w : List α}
    (h : m.commit n c b w = some r) : m.Residual c (b :: w) r := by
  induction n generalizing c b w with
  | zero => cases h
  | succ n ih =>
    cases he : m.eat c b with
    | some c' =>
      rw [commit_of_eat he] at h
      cases w with
      | nil =>
        obtain rfl : c' = r := Option.some.inj h
        exact .eat he (.nil c')
      | cons b' w' => exact .eat he (ih h)
    | none =>
      rw [commit_of_branch he] at h
      obtain ⟨d, hd, hr⟩ := List.exists_of_findSome?_eq_some h
      exact .branch he hd (ih hr)

theorem commit_eq_none {n : ℕ} {c : σ} {b : α} {w : List α} (h : ¬ m.Reads c (b :: w)) :
    m.commit n c b w = none := by
  cases hr : m.commit n c b w with
  | none => rfl
  | some r => exact absurd ⟨r, commit_eq_some hr⟩ h

/-- **Where the search succeeds, the commitment is the leftmost reading.** -/
theorem exists_commit_leftmost {n : ℕ} {c : σ} {b : α} {w : List α}
    (h : m.search limit n c b w = .ok true) :
    ∃ r, m.commit n c b w = some r ∧ m.Leftmost c (b :: w) r := by
  induction n generalizing c b w with
  | zero => cases h
  | succ n ih =>
    cases he : m.eat c b with
    | some c' =>
      rw [search_of_eat he] at h
      rw [commit_of_eat he]
      cases w with
      | nil => exact ⟨c', rfl, .eat he (.nil c')⟩
      | cons b' w' =>
        obtain ⟨r, hr, hleft⟩ := ih h
        exact ⟨r, hr, .eat he hleft⟩
    | none =>
      rw [search_of_branch he] at h
      rw [commit_of_branch he]
      -- the search failed on every branch in front of the one that works
      obtain ⟨earlier, d, later, hl, hd, hearlier⟩ := (anyM_eq_ok h).1 rfl
      obtain ⟨r, hr, hleft⟩ := ih hd
      have hfirst : ∀ e ∈ earlier, ¬ m.Reads e (b :: w) := fun e hmem hreads =>
        absurd ((search_eq_true_iff (hearlier e hmem)).mpr hreads) (by simp)
      refine ⟨r, ?_, .branch he hl hfirst hleft⟩
      have hnone : earlier.findSome? (fun d => m.commit n d b w) = none :=
        List.findSome?_eq_none_iff.mpr fun e hmem => commit_eq_none (hfirst e hmem)
      simp only [hl, List.findSome?_append, hnone, List.findSome?_cons, hr, Option.none_or]

end Reader

end Oxillama
