/-
Bounded channels: a queue between senders and a receiver that may go away.

* `Channel.trySend` — sending, or being refused by a full or a closed channel;
* `Channel.recv`, `Channel.close` — the receiver takes an item, or goes away;
* `Channel.Delivers` — what has been accepted, what has been received and what is queued.
  Every operation keeps it, so what is received is a prefix of what was accepted
  (`Delivers.prefix_received`).
-/
import Mathlib.Data.List.Basic

namespace Oxillama

/-- A channel with room for `capacity` items. -/
structure Channel (α : Type*) where
  capacity : ℕ
  queue : List α
  closed : Bool
  deriving DecidableEq, Repr

/-- Why an item is not accepted. -/
inductive TrySendError
  | full
  | closed
  deriving DecidableEq, Repr

namespace Channel

variable {α : Type*}

/-- `mpsc::channel(capacity)`. -/
def new (capacity : ℕ) : Channel α := ⟨capacity, [], false⟩

/-- Whether the next item is accepted. -/
def HasRoom (channel : Channel α) : Prop :=
  channel.closed = false ∧ channel.queue.length < channel.capacity

instance (channel : Channel α) : Decidable channel.HasRoom := inferInstanceAs (Decidable (_ ∧ _))

/-- `Sender::try_send`. -/
def trySend (channel : Channel α) (item : α) : Except TrySendError (Channel α) :=
  if channel.closed then .error .closed
  else if channel.queue.length < channel.capacity then
    .ok { channel with queue := channel.queue ++ [item] }
  else .error .full

/-- `Receiver::recv`, when an item is queued. -/
def recv (channel : Channel α) : Option (α × Channel α) :=
  match channel.queue with
  | [] => none
  | item :: queue => some (item, { channel with queue })

/-- The receiver is dropped, and what is queued with it. -/
def close (channel : Channel α) : Channel α := { channel with queue := [], closed := true }

theorem trySend_of_hasRoom {channel : Channel α} (h : channel.HasRoom) (item : α) :
    channel.trySend item = .ok { channel with queue := channel.queue ++ [item] } := by
  rw [trySend, h.1, if_neg Bool.false_ne_true, if_pos h.2]

theorem trySend_of_not_hasRoom {channel : Channel α} (h : ¬ channel.HasRoom) (item : α) :
    ∃ e, channel.trySend item = .error e := by
  unfold trySend
  split
  · exact ⟨_, rfl⟩
  · split
    · next hopen hroom => exact absurd ⟨Bool.eq_false_iff.2 hopen, hroom⟩ h
    · exact ⟨_, rfl⟩

theorem recv_eq_some {channel channel' : Channel α} {item : α}
    (h : channel.recv = some (item, channel')) :
    ∃ queue, channel.queue = item :: queue ∧ channel' = { channel with queue } := by
  rw [recv] at h
  rcases hqueue : channel.queue with - | ⟨first, queue⟩
  · rw [hqueue] at h
    contradiction
  · rw [hqueue] at h
    cases h
    exact ⟨queue, rfl, rfl⟩

/-! ### Delivery -/

/-- Items are received in the order in which they were accepted, and what is not received is
queued unless the receiver is gone. -/
structure Delivers (channel : Channel α) (accepted received : List α) : Prop where
  queued : received ++ channel.queue <+: accepted
  all : channel.closed = false → received ++ channel.queue = accepted

namespace Delivers

variable {channel channel' : Channel α} {accepted received : List α} {item : α}

theorem new (capacity : ℕ) : (Channel.new capacity : Channel α).Delivers [] [] :=
  ⟨List.prefix_rfl, fun _ => rfl⟩

theorem prefix_received (h : channel.Delivers accepted received) : received <+: accepted :=
  (List.prefix_append _ _).trans h.queued

theorem trySend (h : channel.Delivers accepted received)
    (hsend : channel.trySend item = .ok channel') :
    channel'.Delivers (accepted ++ [item]) received := by
  by_cases hroom : channel.HasRoom
  · rw [trySend_of_hasRoom hroom] at hsend
    cases hsend
    have hall := h.all hroom.1
    constructor
    · simp only [← hall, List.append_assoc, List.prefix_rfl]
    · intro _
      rw [← hall, List.append_assoc]
  · obtain ⟨e, he⟩ := trySend_of_not_hasRoom hroom item
    rw [he] at hsend
    contradiction

theorem recv (h : channel.Delivers accepted received)
    (hrecv : channel.recv = some (item, channel')) :
    channel'.Delivers accepted (received ++ [item]) := by
  obtain ⟨queue, hqueue, rfl⟩ := recv_eq_some hrecv
  have hsplit : received ++ [item] ++ queue = received ++ channel.queue := by
    rw [hqueue, List.append_assoc, List.singleton_append]
  constructor
  · rw [hsplit]
    exact h.queued
  · intro hopen
    rw [hsplit]
    exact h.all hopen

theorem close (h : channel.Delivers accepted received) :
    channel.close.Delivers accepted received := by
  constructor
  · rw [Channel.close, List.append_nil]
    exact h.prefix_received
  · intro hopen
    contradiction

end Delivers

end Channel

end Oxillama
