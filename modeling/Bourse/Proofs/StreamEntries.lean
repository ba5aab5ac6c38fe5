import Bourse.Proofs.Channels
import Mathlib.Data.List.Basic

/-!
# What becomes of items on a channel

A subscriber turns to its channel whenever it may. A turn receives the next item, or learns that
the next few are gone, or finds nothing left. An `Entry` says what a turn received or learnt, and
how much had been sent by then: an item had been sent and was still kept, and of a run all had
been overwritten, up to the oldest item that was kept. `Logs` goes from turn to turn, so that
nothing but the items and their turns determines the entries.

What is overwritten after a subscriber has learnt of a run, and before it turns to the channel
again, goes on with that run and is learnt of in a second entry. So a longest run of lost items is
told by several entries, one behind the other, which together are the run.
-/

namespace Bourse

/-- What became of items on their way to a subscriber, and how many items had been sent since its
subscription when it turned to them: one was received, or several were overwritten. -/
inductive Entry (α : Type) where
  | item (value : α) (seen : Nat)
  | run (values : List α) (seen : Nat)
  deriving DecidableEq, Repr

namespace Entry

variable {α : Type}

/-- The items that an entry accounts for. -/
def items : Entry α → List α
  | .item value _ => [value]
  | .run values _ => values

/-- How many items had been sent when the subscriber turned to those of the entry. -/
def seen : Entry α → Nat
  | .item _ seen => seen
  | .run _ seen => seen

/-- Whether the items of an entry were overwritten. -/
def isRun : Entry α → Bool
  | .item .. => false
  | .run .. => true

/-- What the subscriber received. -/
def received : Entry α → Received α
  | .item value _ => .item value
  | .run values _ => .lagged values.length

/-- The items of an entry, each with whether it was received. -/
def fates (entry : Entry α) : List (α × Bool) := entry.items.map (·, !entry.isRun)

/-- Whether an entry is right for a channel of a capacity, its first item being the one at a
position. An item had been sent and no more than the capacity was sent since. Of a run, all had
been overwritten, and what comes next was the oldest item that was kept. -/
inductive Timely (capacity position : Nat) : Entry α → Prop where
  | item (value : α) {seen : Nat} (sent : position < seen) (kept : seen ≤ position + capacity) :
      Timely capacity position (.item value seen)
  | run {values : List α} {seen : Nat} (some : values ≠ [])
      (exact : position + values.length + capacity = seen) :
      Timely capacity position (.run values seen)

/-- What turns make of a channel of a capacity from a position on, each with how much had been
sent by then: the entry that is right for the turn, or nothing if the subscriber was through with
everything. -/
inductive Logs (capacity : Nat) : Nat → List Nat → List (Entry α) → Prop where
  /-- There are no turns. -/
  | start (position : Nat) : Logs capacity position [] []
  /-- A turn finds nothing left. -/
  | idle {position : Nat} {turns : List Nat} {entries : List (Entry α)}
      (later : Logs capacity position turns entries) :
      Logs capacity position (position :: turns) entries
  /-- A turn makes an entry, and the next one goes on behind it. -/
  | turn {position : Nat} {turns : List Nat} {entry : Entry α} {entries : List (Entry α)}
      (timely : entry.Timely capacity position)
      (later : Logs capacity (position + entry.items.length) turns entries) :
      Logs capacity position (entry.seen :: turns) (entry :: entries)

section Logs

variable {capacity position : Nat} {turns : List Nat} {entries : List (Entry α)}

/-- A subscriber that is through with everything may turn to the channel once more. -/
theorem Logs.idled (logs : Logs capacity position turns entries) :
    Logs capacity position (turns ++ [position + (entries.flatMap items).length]) entries := by
  induction logs with
  | start position => exact .idle (.start position)
  | idle later induction => exact .idle induction
  | turn timely later induction =>
    rw [Nat.add_assoc, ← List.length_append, ← List.flatMap_cons] at induction
    exact .turn timely induction

/-- One more turn makes an entry that is right behind the others. -/
theorem Logs.turned (logs : Logs capacity position turns entries) {entry : Entry α}
    (timely : entry.Timely capacity (position + (entries.flatMap items).length)) :
    Logs capacity position (turns ++ [entry.seen]) (entries ++ [entry]) := by
  induction logs with
  | start position => exact .turn timely (.start _)
  | idle later induction => exact .idle (induction timely)
  | turn first later induction =>
    rw [List.flatMap_cons, List.length_append, ← Nat.add_assoc] at timely
    exact .turn first (induction timely)

/-- Behind the first entries, the others go on. -/
theorem Logs.behind {early late : List (Entry α)}
    (logs : Logs capacity position turns (early ++ late)) :
    ∃ behind, Logs capacity (position + (early.flatMap items).length) behind late := by
  generalize whole : early ++ late = entries at logs
  induction logs generalizing early with
  | start position =>
    obtain ⟨rfl, rfl⟩ := List.append_eq_nil_iff.mp whole
    exact ⟨[], .start _⟩
  | idle later induction => exact induction whole
  | turn timely later induction =>
    cases early with
    | nil =>
      rw [List.nil_append] at whole
      subst whole
      exact ⟨_, .turn timely later⟩
    | cons first others =>
      obtain ⟨rfl, rest⟩ := List.cons.inj whole
      rw [List.flatMap_cons, List.length_append, ← Nat.add_assoc]
      exact induction rest

/-- The first entry is right at the position. -/
theorem Logs.timely {entry : Entry α} (logs : Logs capacity position turns (entry :: entries)) :
    entry.Timely capacity position := by
  generalize whole : entry :: entries = all at logs
  induction logs with
  | start position => contradiction
  | idle later induction => exact induction whole
  | turn timely later induction =>
    obtain ⟨rfl, -⟩ := List.cons.inj whole
    exact timely

/-- When two runs follow one another directly, as many items were sent between their turns as the
second is long. -/
theorem Logs.sent_between {early late : List (Entry α)} {first second : List α} {seen next : Nat}
    (logs : Logs capacity position turns (early ++ .run first seen :: .run second next :: late)) :
    next = seen + second.length := by
  obtain ⟨behind, logs⟩ := logs.behind
  have one := logs.timely
  have split : Logs capacity _ behind ([.run first seen] ++ .run second next :: late) := logs
  obtain ⟨rest, logs⟩ := split.behind
  have other := logs.timely
  cases one with
  | run some exact =>
    cases other with
    | run more again =>
      simp only [List.flatMap_singleton, items] at again
      omega

end Logs

/-- Items in a row that were lost begin a run of lost items, which goes on until an item was
received. -/
theorem lost_begin {values lost : List α} {rest back : List (α × Bool)}
    (whole : values.map (·, false) ++ rest = lost.map (·, false) ++ back)
    (behind : ∀ item ∈ back.head?, item.2 = true) :
    ∃ others, lost = values ++ others ∧ rest = others.map (·, false) ++ back := by
  induction values generalizing lost with
  | nil => exact ⟨lost, rfl, whole⟩
  | cons value values induction =>
    cases lost with
    | nil =>
      have first : back.head? = some (value, false) := by
        rw [← List.nil_append back, ← List.map_nil, ← whole]
        rfl
      exact absurd (behind _ first) Bool.false_ne_true
    | cons first others =>
      obtain ⟨same, rest⟩ := List.cons.inj whole
      obtain ⟨more, rfl, front⟩ := induction rest
      exact ⟨more, congrArg (· :: _) (congrArg Prod.fst same).symm, front⟩

/-- Items in a row that were lost begin the items up to one that was received. -/
theorem lost_begin_front {values : List α} {rest front tail : List (α × Bool)}
    (whole : values.map (·, false) ++ rest = front ++ tail) (some : front ≠ [])
    (before : ∀ item ∈ front.getLast?, item.2 = true) :
    ∃ others, front = values.map (·, false) ++ others ∧ rest = others ++ tail ∧
      ∀ item ∈ others.getLast?, item.2 = true := by
  induction values generalizing front with
  | nil => exact ⟨front, rfl, whole, before⟩
  | cons value values induction =>
    obtain ⟨first, others, rfl⟩ := List.exists_cons_of_ne_nil some
    obtain ⟨rfl, rest⟩ := List.cons.inj whole
    cases others with
    | nil => exact absurd (before _ rfl) Bool.false_ne_true
    | cons second others =>
      rw [List.getLast?_cons_cons] at before
      obtain ⟨more, front, rest, last⟩ := induction rest (List.cons_ne_nil _ _) before
      exact ⟨more, congrArg (_ :: ·) front, rest, last⟩

/-- Items that were lost before any was received are those of the first entries, which are
runs. -/
theorem first_run_covered {entries : List (Entry α)} {lost : List α} {back : List (α × Bool)}
    (whole : entries.flatMap fates = lost.map (·, false) ++ back)
    (behind : ∀ item ∈ back.head?, item.2 = true) :
    ∃ notices late, entries = notices ++ late ∧ late.flatMap fates = back ∧
      notices.flatMap items = lost ∧ ∀ notice ∈ notices, notice.isRun = true := by
  induction entries generalizing lost with
  | nil =>
    obtain ⟨none, rfl⟩ := List.append_eq_nil_iff.mp whole.symm
    obtain rfl := List.map_eq_nil_iff.mp none
    exact ⟨[], [], rfl, rfl, rfl, by simp⟩
  | cons entry rest induction =>
    rw [List.flatMap_cons] at whole
    cases entry with
    | item value seen =>
      cases lost with
      | nil => exact ⟨[], _, rfl, whole, rfl, by simp⟩
      | cons first others =>
        have received : (value, true) = (first, false) := (List.cons.inj whole).1
        simp at received
    | run values seen =>
      obtain ⟨others, rfl, rest⟩ := lost_begin whole behind
      obtain ⟨notices, late, rfl, fates, covered, runs⟩ := induction rest
      exact ⟨.run values seen :: notices, late, rfl, fates, congrArg (values ++ ·) covered,
        List.forall_mem_cons.mpr ⟨rfl, runs⟩⟩

/-- A longest run of lost items, wherever it is, is that of entries in a row, which are runs.

Proof: by induction on the entries before the run. An item goes in front; so does another run,
which ends before the item that was received last. -/
theorem run_covered {entries : List (Entry α)} {front back : List (α × Bool)} {lost : List α}
    (whole : entries.flatMap fates = front ++ (lost.map (·, false) ++ back))
    (before : ∀ item ∈ front.getLast?, item.2 = true)
    (behind : ∀ item ∈ back.head?, item.2 = true) :
    ∃ early notices late, entries = early ++ (notices ++ late) ∧
      early.flatMap fates = front ∧ late.flatMap fates = back ∧
      notices.flatMap items = lost ∧ ∀ notice ∈ notices, notice.isRun = true := by
  induction entries generalizing front with
  | nil =>
    obtain ⟨rfl, none⟩ := List.append_eq_nil_iff.mp whole.symm
    have first : List.flatMap fates [] = lost.map (·, false) ++ back := none.symm
    obtain ⟨notices, late, split⟩ := first_run_covered first behind
    exact ⟨[], notices, late, split.1, rfl, split.2⟩
  | cons entry rest induction =>
    cases front with
    | nil =>
      obtain ⟨notices, late, split⟩ := first_run_covered whole behind
      exact ⟨[], notices, late, split.1, rfl, split.2⟩
    | cons first others =>
      rw [List.flatMap_cons] at whole
      cases entry with
      | item value seen =>
        obtain ⟨rfl, rest⟩ := List.cons.inj whole
        have last : ∀ item ∈ others.getLast?, item.2 = true := by
          cases others with
          | nil => simp
          | cons second others => rwa [List.getLast?_cons_cons] at before
        obtain ⟨early, notices, late, rfl, fates, split⟩ := induction rest last
        exact ⟨.item value seen :: early, notices, late, rfl, congrArg ((value, true) :: ·) fates,
          split⟩
      | run values seen =>
        obtain ⟨more, same, rest, last⟩ :=
          lost_begin_front whole (List.cons_ne_nil _ _) before
        obtain ⟨early, notices, late, rfl, fates, split⟩ := induction rest last
        refine ⟨.run values seen :: early, notices, late, rfl, ?_, split⟩
        rw [List.flatMap_cons, fates, same]
        rfl

end Entry

end Bourse
