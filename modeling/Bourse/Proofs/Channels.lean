import Bourse.Service.Channel

/-!
# What channels keep

A channel keeps the newest of all items that were sent on it, as many as its capacity. So what a
subscriber receives follows from how much was sent and how far it is: it is through with
everything, or the next item is kept, or everything up to the oldest item that is kept is gone.
-/

namespace Bourse

namespace Channel

variable {α : Type} {channel : Channel α} {items before : List α}

/-- There is a channel for every capacity but nought and the greatest ones. -/
theorem make_eq_ok_iff {wanted : Nat} :
    make wanted = .ok channel ↔
      0 < wanted ∧ wanted ≤ maxCapacity ∧ channel = ofCapacity wanted := by
  unfold make
  split
  case isTrue none => simp [none]
  case isFalse some =>
    split
    case isTrue large => simp [Nat.not_le.mpr large]
    case isFalse within =>
      rw [Except.ok.injEq, and_iff_right (Nat.pos_of_ne_zero some),
        and_iff_right (Nat.not_lt.mp within), eq_comm]

/-- Every item that is sent is counted. -/
theorem sent_send_all (channel : Channel α) (items : List α) :
    (channel.sendAll items).sent = channel.sent + items.length := by
  induction items generalizing channel with
  | nil => rfl
  | cons item later induction =>
    have after := induction (channel.send item)
    rw [List.length_cons, Nat.add_comm later.length, ← Nat.add_assoc]
    exact after

/-- What a channel keeps are the newest of all items that were sent on it. -/
structure Keeps (channel : Channel α) (items : List α) : Prop where
  sent : channel.sent = items.length
  kept : channel.kept = items.drop (items.length - channel.capacity)

/-- A new channel keeps nothing of nothing. -/
theorem keeps_of_capacity (wanted : Nat) : (ofCapacity wanted : Channel α).Keeps [] where
  sent := rfl
  kept := List.drop_nil.symm

/-- One more item takes the place of the oldest. -/
theorem Keeps.send (keeps : channel.Keeps items) (item : α) :
    (channel.send item).Keeps (items ++ [item]) := by
  constructor
  · rw [List.length_append, ← keeps.sent]
    rfl
  · unfold Channel.send
    simp only [keeps.kept, List.length_append, List.length_drop, List.length_singleton]
    rw [← List.drop_append_of_le_length (Nat.sub_le ..), List.drop_drop]
    congr 1
    omega

/-- No item changes the capacity. -/
@[simp] theorem capacity_send_all (channel : Channel α) (items : List α) :
    (channel.sendAll items).capacity = channel.capacity := by
  induction items generalizing channel with
  | nil => rfl
  | cons item later induction => exact induction (channel.send item)

/-- Several items take the places of the oldest ones. -/
theorem Keeps.send_all (keeps : channel.Keeps before) (items : List α) :
    (channel.sendAll items).Keeps (before ++ items) := by
  induction items generalizing channel before with
  | nil => rwa [List.append_nil]
  | cons item later induction =>
    have after := induction (keeps.send item)
    rwa [List.append_assoc] at after

/-- The oldest item that is kept has as many behind it as the capacity allows. -/
theorem Keeps.oldest (keeps : channel.Keeps items) :
    channel.oldest = items.length - channel.capacity := by
  unfold Channel.oldest
  rw [keeps.sent, keeps.kept, List.length_drop]
  omega

/-- A subscriber that is through with everything receives nothing. -/
theorem Keeps.receive_none (keeps : channel.Keeps items) :
    channel.receive? items.length = none := by
  unfold receive?
  rw [keeps.oldest, if_neg (by omega), keeps.kept,
    List.getElem?_eq_none (Nat.le_of_eq List.length_drop)]
  rfl

/-- What is left for a subscriber is what it receives, and then what is left after that. -/
theorem pending_of_receive {place : Nat} {received : Received α} {next : Nat}
    (receives : channel.receive? place = some (received, next)) :
    channel.pending place = received :: channel.pending next := by
  unfold receive? at receives
  unfold pending
  split at receives
  case isTrue late =>
    obtain ⟨rfl, rfl⟩ : .lagged (channel.oldest - place) = received ∧ channel.oldest = next := by
      simpa using receives
    rw [if_pos late, if_neg (Nat.lt_irrefl _), Nat.sub_self,
      Nat.sub_eq_zero_of_le (Nat.le_of_lt late)]
    rfl
  case isFalse here =>
    obtain ⟨item, first, rfl, rfl⟩ := by simpa using receives
    obtain ⟨inside, rfl⟩ := List.getElem?_eq_some_iff.mp first
    have after : ¬ place + 1 < channel.oldest := by omega
    rw [if_neg here, if_neg after, List.nil_append, List.nil_append,
      List.drop_eq_getElem_cons inside, List.map_cons, Nat.sub_add_comm (Nat.not_lt.mp here)]

/-- Nothing is left for a subscriber that receives nothing. -/
theorem pending_of_none {place : Nat} (nothing : channel.receive? place = none) :
    channel.pending place = [] := by
  unfold receive? at nothing
  unfold pending
  split at nothing
  case isTrue => contradiction
  case isFalse here =>
    have behind := List.getElem?_eq_none_iff.mp (Option.map_eq_none_iff.mp nothing)
    rw [if_neg here, List.nil_append, List.drop_eq_nil_of_le behind]
    rfl

end Channel

end Bourse
