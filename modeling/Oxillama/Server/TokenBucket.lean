/-
The token bucket of the rate limiter (`oxillama-server/src/rate_limit.rs`), with exact
arithmetic.

* `ExactBucket.metered` — a run of calls spends no more tokens than come in;
* `ExactBucket.tryAcquire_bounds` — what follows for every run: in any window no more calls are
  accepted than the capacity and the rate allow, the tokens stay within the capacity, and a
  call that was told when to come back is accepted then.
-/
import Mathlib.Algebra.Order.Ring.Unbundled.Rat
import Mathlib.Tactic.FieldSimp
import Oxillama.Lib.Metered
import Oxillama.Lib.Run

namespace Oxillama

namespace Server

/-- `TokenBucket`, over the rationals; times are in seconds. -/
structure ExactBucket where
  tokens : ℚ
  capacity : ℚ
  rate : ℚ
  lastRefill : ℚ

namespace ExactBucket

/-- `TokenBucket::new`, at the time `now`. -/
def new (capacity rate now : ℚ) : ExactBucket where
  tokens := capacity
  capacity
  rate
  lastRefill := now

/-- `refill`; a duration since a later time is 0. -/
def refill (now : ℚ) (bucket : ExactBucket) : ExactBucket :=
  let elapsed := max (now - bucket.lastRefill) 0
  { bucket with
    tokens := min (bucket.tokens + elapsed * bucket.rate) bucket.capacity
    lastRefill := now }

/-- `try_acquire`; a deficit over a rate of 0 is infinite. -/
def tryAcquire (now : ℚ) (bucket : ExactBucket) : ExactBucket × Except (WithTop ℚ) Unit :=
  let bucket := bucket.refill now
  if 1 ≤ bucket.tokens then ({ bucket with tokens := bucket.tokens - 1 }, .ok ())
  else
    let deficit := 1 - bucket.tokens
    (bucket, .error (if bucket.rate = 0 then ⊤ else ↑(deficit / bucket.rate)))

/-- A call at the time `now`. -/
def step (bucket : ExactBucket) (now : ℚ) :
    Option (ExactBucket × Except (WithTop ℚ) Unit) :=
  some (bucket.tryAcquire now)

/-- The calls of a trace, and whether they were accepted. -/
def calls (tr : List (ℚ × Except (WithTop ℚ) Unit)) : List (ℚ × Bool) :=
  tr.map fun (now, out) => (now, out.isOk)

/-- A bucket of a given capacity and rate, with tokens within its capacity. -/
structure Holds (capacity rate : ℚ) (bucket : ExactBucket) : Prop where
  capacity_eq : bucket.capacity = capacity
  rate_eq : bucket.rate = rate
  nonneg : 0 ≤ bucket.tokens
  le : bucket.tokens ≤ capacity

variable {capacity rate now : ℚ} {bucket bucket' : ExactBucket} {out : Except (WithTop ℚ) Unit}
  {tr : List (ℚ × Except (WithTop ℚ) Unit)}

theorem holds_new (hcapacity : 0 ≤ capacity) (created : ℚ) :
    (new capacity rate created).Holds capacity rate :=
  ⟨rfl, rfl, hcapacity, le_rfl⟩

/-- What a refill gives, if the clock has not gone back. -/
theorem tokens_refill (h : bucket.Holds capacity rate) (hclock : bucket.lastRefill ≤ now) :
    (bucket.refill now).tokens =
      min (bucket.tokens + rate * (now - bucket.lastRefill)) capacity := by
  rw [refill]
  dsimp only
  rw [max_eq_left (sub_nonneg.2 hclock), h.rate_eq, h.capacity_eq, mul_comm]

/-- **A refill** keeps the tokens within the capacity. -/
theorem holds_refill (hcapacity : 0 ≤ capacity) (hrate : 0 ≤ rate)
    (h : bucket.Holds capacity rate) (hclock : bucket.lastRefill ≤ now) :
    (bucket.refill now).Holds capacity rate := by
  refine ⟨h.capacity_eq, h.rate_eq, ?_, ?_⟩
  · rw [tokens_refill h hclock]
    have hin := mul_nonneg hrate (sub_nonneg.2 hclock)
    exact le_min (add_nonneg h.nonneg hin) hcapacity
  · rw [tokens_refill h hclock]
    exact min_le_right _ _

/-- **One call** takes a token exactly if it is accepted. -/
theorem tryAcquire_spec (hcapacity : 0 ≤ capacity) (hrate : 0 ≤ rate)
    (h : bucket.Holds capacity rate) (hclock : bucket.lastRefill ≤ now)
    (hcall : bucket.tryAcquire now = (bucket', out)) :
    bucket'.Holds capacity rate ∧ bucket'.lastRefill = now ∧
      bucket'.tokens + (if out.isOk then 1 else 0) =
        min (bucket.tokens + rate * (now - bucket.lastRefill)) capacity := by
  have hrefill := holds_refill hcapacity hrate h hclock
  rw [← tokens_refill h hclock]
  rw [tryAcquire] at hcall
  dsimp only at hcall
  split at hcall
  · rename_i hone
    obtain ⟨rfl, rfl⟩ := Prod.mk.inj hcall
    refine ⟨⟨hrefill.capacity_eq, hrefill.rate_eq, sub_nonneg.2 hone, ?_⟩, rfl, ?_⟩
    · exact le_trans (sub_le_self _ zero_le_one) hrefill.le
    · simp [Except.isOk, Except.toBool]
  · obtain ⟨rfl, rfl⟩ := Prod.mk.inj hcall
    exact ⟨hrefill, rfl, by simp [Except.isOk, Except.toBool]⟩

/-- **A run** under a clock that does not go back keeps the tokens within the capacity, and
spends no more of them than come in. -/
theorem metered (hcapacity : 0 ≤ capacity) (hrate : 0 ≤ rate) (hrun : Run step bucket tr bucket')
    (h : bucket.Holds capacity rate)
    (hclock : (bucket.lastRefill :: tr.map Prod.fst).Pairwise (· ≤ ·)) :
    bucket'.Holds capacity rate ∧
      Metered capacity rate bucket.tokens bucket.lastRefill (calls tr) := by
  induction hrun with
  | nil bucket => exact ⟨h, .nil _ _⟩
  | cons hcall _ ih =>
    rw [List.map_cons] at hclock
    obtain ⟨hfirst, hrest⟩ := List.pairwise_cons.1 hclock
    have hnow := hfirst _ List.mem_cons_self
    obtain ⟨hholds, hlast, hspent⟩ :=
      tryAcquire_spec hcapacity hrate h hnow (Option.some.inj hcall)
    obtain ⟨hend, hmetered⟩ := ih hholds (by rwa [hlast])
    rw [hlast] at hmetered
    exact ⟨hend, .cons hnow hholds.nonneg (le_of_eq hspent) hmetered⟩

/-- **A refused call** is told a delay, and is accepted after it, or later. -/
theorem tryAcquire_again (hcapacity : 1 ≤ capacity) (hrate : 0 < rate)
    (h : bucket.Holds capacity rate) (hclock : bucket.lastRefill ≤ now) {retryAfter : WithTop ℚ}
    (hcall : bucket.tryAcquire now = (bucket', .error retryAfter)) :
    ∃ delay : ℚ, retryAfter = delay ∧ 0 < delay ∧ ∀ later, now + delay ≤ later →
      ∃ bucket'', bucket'.tryAcquire later = (bucket'', .ok ()) := by
  obtain ⟨hholds, hlast, -⟩ :=
    tryAcquire_spec (le_trans zero_le_one hcapacity) hrate.le h hclock hcall
  rw [tryAcquire] at hcall
  dsimp only at hcall
  split at hcall
  · cases hcall
  · rename_i hless
    obtain ⟨rfl, hretry⟩ := Prod.mk.inj hcall
    rw [hholds.rate_eq, if_neg hrate.ne'] at hretry
    have hdeficit : 0 < 1 - (bucket.refill now).tokens := sub_pos.2 (not_le.1 hless)
    refine ⟨_, (Except.error.inj hretry).symm, div_pos hdeficit hrate, fun later hlater => ?_⟩
    have hwait : (1 - (bucket.refill now).tokens) / rate ≤ later - now := by linarith
    rw [div_le_iff₀ hrate] at hwait
    have hlater' : (bucket.refill now).lastRefill ≤ later := by
      have := div_pos hdeficit hrate
      rw [hlast]
      linarith
    rw [tryAcquire]
    dsimp only
    rw [if_pos]
    · exact ⟨_, rfl⟩
    · rw [tokens_refill hholds hlater', hlast]
      exact le_min (by linarith) hcapacity

/-- **The bounds of a token bucket**, after every run under a clock that does not go back, for
a capacity and a rate that are not negative: in any window no more calls are accepted than the
capacity and what comes in while it lasts, the tokens are within the capacity, and a call
that is refused is told a delay after which it is accepted, where there can be a whole token. -/
theorem tryAcquire_bounds (hcapacity : 0 ≤ capacity) (hrate : 0 ≤ rate) {created : ℚ}
    (hrun : Run step (new capacity rate created) tr bucket)
    (hclock : (created :: tr.map Prod.fst).Pairwise (· ≤ ·)) :
    (∀ first last, first ≤ last →
      (inWindow first last (calls tr) : ℚ) ≤ capacity + rate * (last - first)) ∧
    (0 ≤ bucket.tokens ∧ bucket.tokens ≤ capacity) ∧
    (1 ≤ capacity → 0 < rate → ∀ now bucket' retryAfter, bucket.lastRefill ≤ now →
      bucket.tryAcquire now = (bucket', .error retryAfter) →
        ∃ delay : ℚ, retryAfter = delay ∧ 0 < delay ∧ ∀ later, now + delay ≤ later →
          ∃ bucket'', bucket'.tryAcquire later = (bucket'', .ok ())) := by
  obtain ⟨hholds, hmetered⟩ := metered hcapacity hrate hrun (holds_new hcapacity created) hclock
  refine ⟨fun first last hwindow => ?_, ⟨hholds.nonneg, hholds.le⟩, ?_⟩
  · exact hmetered.inWindow_le_capacity hcapacity hrate hwindow
  · intro hone hpos now bucket' retryAfter hnow hcall
    exact tryAcquire_again hone hpos hholds hnow hcall

/-- A bucket with room for one token, of which one comes in every two seconds. -/
theorem tryAcquire_bounds_slow :
    ∃ tr bucket, runInputs step (new 1 (1 / 2) 0) [0, 1, 2] = some (tr, bucket) ∧
      (inWindow 0 1 (calls tr) : ℚ) ≤ 1 + 1 / 2 * (1 - 0) := by
  obtain ⟨⟨tr, bucket⟩, hrun⟩ :
      ∃ reached, runInputs step (new 1 (1 / 2) 0) [0, 1, 2] = some reached := ⟨_, rfl⟩
  have hclock : (0 :: tr.map Prod.fst).Pairwise (· ≤ ·) := by
    rw [map_fst_of_runInputs hrun]
    norm_num
  exact ⟨tr, bucket, hrun,
    (tryAcquire_bounds (by decide) (by norm_num) (run_of_runInputs hrun) hclock).1 0 1
      (by decide)⟩

/-- **With a rate below 0** tokens go away: after a call at once and one two seconds later,
there are fewer than none, and the bound of the window is below the one call accepted. -/
theorem negative_rate :
    ∃ tr bucket, runInputs step (new 1 (-1) 0) [0, 2] = some (tr, bucket) ∧
      bucket.tokens < 0 ∧ ¬ (inWindow 0 2 (calls tr) : ℚ) ≤ 1 + -1 * (2 - 0) :=
  ⟨_, _, rfl, by decide +kernel, by decide +kernel⟩

end ExactBucket

end Server

end Oxillama
