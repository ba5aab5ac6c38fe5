import Bourse.Proofs.MarketRuns
import Bourse.Service.Basic

/-!
# How pictures are filled

A sweep publishes one record for each book that has changed, the newest book first, in pictures
that are filled one behind the other. Each of them is full but for the last, which holds what is
left and is not published if that is nothing: `Fills`.

The batch is carried from sweep to sweep. A sweep finds it empty and leaves it empty, with the
number of the next picture, and no other operation touches it. So the pictures of a market are
numbered through from zero, however many sweeps there were and however little they had to
publish: `Counts`.

A push onto a full batch would make a picture too large, and the batch does not refuse it. The
checked filling is the same work with a push that fails on a full batch; that it comes to the
same end shows that no such push is made.
-/

namespace Bourse

/-- The batch with a record behind the others, if it was not full before. -/
def Batch.checkedPush (batch : Batch) (record : Record) : Option Batch :=
  if batch.isFull then none else some (batch.push record)

namespace Market

/-- The batch with records behind each other, and what is published on the way, as long as no
record is pushed onto a full batch. -/
def checkedFill : Batch → List Record → Option (Published × Batch)
  | batch, [] =>
    some (if batch.isEmpty then ({}, batch) else (.flushed batch {}, batch.reset))
  | batch, record :: rest => do
    let batch ← batch.checkedPush record
    if batch.isFull then
      let (later, last) ← checkedFill batch.reset rest
      some (.flushed batch later, last)
    else checkedFill batch rest

/-- What a sweep publishes, and the market after it, as long as no record is pushed onto a full
batch. -/
def checkedSweep (market : Market) : Option (Published × Market) := do
  let (published, batch) ← checkedFill market.batch market.changes.reverse
  some (published, { market.sweep.2 with batch })

/-- What filling makes of a batch: pictures of the size that fits, numbered from that of the
batch on, and the batch for the picture behind them. -/
structure Fills (batch : Batch) (pictures : List Picture) (last : Batch) : Prop where
  within : ∀ picture ∈ pictures,
    1 ≤ picture.records.length ∧ picture.records.length ≤ batch.capacity
  full : ∀ picture ∈ pictures.dropLast, picture.records.length = batch.capacity
  numbered : pictures.map (·.sequence) = List.range' batch.picture.sequence pictures.length
  next : last.picture.sequence = batch.picture.sequence + pictures.length
  capacity : last.capacity = batch.capacity

section Fill

variable {batch : Batch} {record : Record}

/-- A batch has room exactly if it is smaller than its capacity. -/
theorem not_full_iff : batch.isFull = false ↔ batch.size < batch.capacity := by
  simp [Batch.isFull]

/-- A record that is added to a batch counts one. -/
theorem size_push (batch : Batch) (record : Record) :
    (batch.push record).size = batch.size + 1 := by
  simp [Batch.size, Batch.push]

/-- A batch that is emptied has room, whatever its capacity. -/
theorem room_reset (batch : Batch) (positive : 0 < batch.capacity) :
    batch.reset.size < batch.reset.capacity := positive

/-- A batch and the same one with another record take the same pictures behind it. -/
theorem Fills.of_push {pictures : List Picture} {last : Batch}
    (fills : Fills (batch.push record) pictures last) : Fills batch pictures last :=
  ⟨fills.within, fills.full, fills.numbered, fills.next, fills.capacity⟩

/-- A full picture goes in front of the others. -/
theorem Fills.cons {pictures : List Picture} {last : Batch} (positive : 0 < batch.capacity)
    (full : batch.size = batch.capacity) (fills : Fills batch.reset pictures last) :
    Fills batch (batch.picture :: pictures) last where
  within := by
    intro picture member
    rcases List.mem_cons.mp member with rfl | member
    · exact ⟨Nat.lt_of_lt_of_eq positive full.symm, Nat.le_of_eq full⟩
    · exact fills.within picture member
  full := by
    intro picture member
    cases pictures with
    | nil => simp at member
    | cons second others =>
      rcases List.mem_cons.mp member with rfl | member
      · exact full
      · exact fills.full picture member
  numbered := by
    rw [List.map_cons, fills.numbered, List.length_cons, List.range'_succ]
    rfl
  next := by
    rw [fills.next, List.length_cons]
    simp only [Batch.reset]
    omega
  capacity := fills.capacity

/-- A batch with room is filled to the last record, and no record is pushed onto a full one.

Proof: by induction on the records. The batch has room before each push. After it, the batch is
exactly full and goes out, and the emptied one has room; or it has room still. -/
theorem fills_pictures (batch : Batch) (records : List Record)
    (room : batch.size < batch.capacity) :
    Fills batch (fillPictures batch records).1.pictures (fillPictures batch records).2 ∧
      checkedFill batch records = some (fillPictures batch records) := by
  induction records generalizing batch with
  | nil =>
    refine ⟨?_, rfl⟩
    by_cases empty : batch.isEmpty = true
    · rw [fillPictures, if_pos empty]
      exact ⟨by simp, by simp, rfl, rfl, rfl⟩
    · have some : batch.picture.records ≠ [] := mt List.isEmpty_iff.mpr empty
      simp only [fillPictures, if_neg empty, Published.flushed]
      refine ⟨?_, by simp, rfl, rfl, rfl⟩
      intro picture member
      obtain rfl := List.mem_singleton.mp member
      exact ⟨List.length_pos_iff.mpr some, Nat.le_of_lt room⟩
  | cons record rest induction =>
    have pushed := size_push batch record
    have same : (batch.push record).capacity = batch.capacity := rfl
    simp only [fillPictures, checkedFill, Batch.checkedPush, not_full_iff.mpr room,
      Bool.false_eq_true, if_false, Option.bind_eq_bind, Option.bind_some]
    by_cases full : (batch.push record).isFull = true
    · have reached : (batch.push record).capacity ≤ (batch.push record).size := by
        simpa [Batch.isFull] using full
      have positive : 0 < (batch.push record).capacity := by omega
      obtain ⟨fills, checked⟩ := induction _ (room_reset (batch.push record) positive)
      simp only [if_pos full, checked, Option.bind_some]
      exact ⟨(fills.cons positive (by omega)).of_push, trivial⟩
    · have open' : (batch.push record).size < (batch.push record).capacity :=
        not_full_iff.mp (by simpa using full)
      simp only [if_neg full]
      obtain ⟨fills, checked⟩ := induction _ open'
      exact ⟨fills.of_push, checked⟩

end Fill

/-- What a run has made of the books and of the batch that it carries. -/
structure Counts (capacity : Nat) (market : Market) (done : List Effects) : Prop where
  books : market.books.map (·.security) = (done.flatMap (·.created)).map (·.security)
  capacity : market.batch.capacity = max 1 (min capacity maxRecords)
  numbered : (done.flatMap (·.pictures)).map (·.sequence) =
    List.range (done.flatMap (·.pictures)).length
  next : market.batch.picture.sequence = (done.flatMap (·.pictures)).length

/-- The batch has room whenever a sweep begins. -/
theorem Counts.room {capacity : Nat} {market : Market} {done : List Effects}
    (counts : market.Counts capacity done) (orderly : market.Orderly) :
    market.batch.size < market.batch.capacity := by
  rw [counts.capacity, Batch.size, orderly.published]
  exact Nat.lt_of_lt_of_le Nat.one_pos (Nat.le_max_left ..)

/-- The numbers of the pictures go on under every operation. -/
theorem Counts.turn {capacity : Nat} {market next : Market} {effects : Effects}
    {done : List Effects} (counts : market.Counts capacity done) (orderly : market.Orderly)
    (turn : market.Turn next effects) : next.Counts capacity (done ++ [effects]) := by
  cases turn with
  | kept carries =>
    refine ⟨?_, ?_, ?_, ?_⟩
    · rw [carries.securities, List.map_append, counts.books]
      simp
    · exact carries.batch ▸ counts.capacity
    · simpa [carries.unpublished] using counts.numbered
    · simpa [carries.unpublished, carries.batch] using counts.next
  | sweep =>
    have fills : Fills market.batch market.sweep.1.pictures market.sweep.2.batch :=
      (fills_pictures market.batch market.changes.reverse (counts.room orderly)).1
    have more : (done ++ [({ pictures := market.sweep.1.pictures } : Effects)]).flatMap
        (·.pictures) = done.flatMap (·.pictures) ++ market.sweep.1.pictures := by simp
    refine ⟨?_, fills.capacity.trans counts.capacity, ?_, ?_⟩
    · rw [swept_securities, counts.books]
      simp
    · rw [more, List.map_append, counts.numbered, List.length_append, List.range_eq_range',
        List.range_eq_range', ← List.range'_append_1, Nat.zero_add, ← counts.next]
      exact congrArg _ fills.numbered
    · rw [more, List.length_append, ← counts.next]
      exact fills.next

/-- A market that has published nothing counts from the first picture. -/
theorem counts_opened (firstId : OrderId) (capacity : Nat) :
    (opened firstId capacity).Counts capacity [] :=
  ⟨rfl, rfl, rfl, rfl⟩

/-- A run leaves the batch empty, with the number of the next picture. -/
theorem run_counts (firstId : OrderId) (capacity : Nat) (operations : List MarketOperation) :
    let run := (opened firstId capacity).performAll operations
    run.1.Orderly ∧ run.1.Counts capacity run.2 :=
  run_keeps (P := fun market done => market.Counts capacity done)
    (fun orderly turn counts => counts.turn orderly turn)
    operations (opened firstId capacity) [] (orderly_opened firstId capacity)
    (counts_opened firstId capacity)

/-- The count of a filling is the number of records in its pictures. -/
theorem count_of_fill (batch : Batch) (records : List Record) :
    (fillPictures batch records).1.count =
      ((fillPictures batch records).1.pictures.flatMap (·.records)).length := by
  induction records generalizing batch with
  | nil =>
    by_cases empty : batch.isEmpty = true
    · simp only [fillPictures, if_pos empty, List.flatMap_nil, List.length_nil]
    · simp only [fillPictures, if_neg empty, Published.flushed, List.flatMap_singleton]
      rfl
  | cons record rest induction =>
    simp only [fillPictures]
    by_cases full : (batch.push record).isFull = true
    · rw [if_pos full]
      simp only [Published.flushed, List.flatMap_cons, List.length_append, induction]
      rfl
    · rw [if_neg full]
      exact induction (batch.push record)

/-- Whatever a market went through, a sweep publishes the pictures of the books that have
changed, of each of them once, and of the newest book first; the books are in the order in which
they were created. Every published picture holds a record, and no more than fit, and all but the
last are full; no record is pushed onto a full batch. The count that is added up as the pictures
go out is the number of the records, and the batch is left empty. All pictures that the market has
published are numbered through from zero.

A service answers with this count, keeps the market after the sweep and sends the pictures to
those who subscribed to pictures. -/
theorem sweeps_fill_pictures (firstId : OrderId) (wanted : Nat)
    (operations : List MarketOperation) :
    let run := (opened firstId wanted).performAll operations
    let capacity := max 1 (min wanted maxRecords)
    let pictures := run.1.sweep.1.pictures
    let records := pictures.flatMap (·.records)
    run.1.books.map (·.security) = (run.2.flatMap (·.created)).map (·.security) ∧
      records = (run.1.books.reverse.filter (·.hasChanged)).map Book.picture ∧
      (∀ picture ∈ pictures,
        1 ≤ picture.records.length ∧ picture.records.length ≤ capacity) ∧
      (∀ picture ∈ pictures.dropLast, picture.records.length = capacity) ∧
      run.1.checkedSweep = some run.1.sweep ∧
      run.1.sweep.1.count = records.length ∧
      (∀ reports shown, (Service.mk run.1 reports shown).sweep =
        (records.length, ⟨run.1.sweep.2, reports, shown.sendAll pictures⟩)) ∧
      run.1.sweep.2.batch.picture.records = [] ∧
      (run.2.flatMap (·.pictures)).map (·.sequence) =
        List.range (run.2.flatMap (·.pictures)).length := by
  intro run capacity pictures records
  obtain ⟨orderly, counts⟩ := run_counts firstId wanted operations
  obtain ⟨published, emptied⟩ := sweep_records orderly
  obtain ⟨fills, checked⟩ :=
    fills_pictures run.1.batch run.1.changes.reverse (counts.room orderly)
  have same : run.1.batch.capacity = capacity := counts.capacity
  have counted : run.1.sweep.1.count = records.length :=
    count_of_fill run.1.batch run.1.changes.reverse
  refine ⟨counts.books, ?_, ?_, ?_, ?_, counted, ?_, emptied, counts.numbered⟩
  · rw [List.filter_reverse, List.map_reverse]
    exact published
  · rw [← same]
    exact fills.within
  · rw [← same]
    exact fills.full
  · rw [checkedSweep, checked]
    rfl
  · intro reports shown
    rw [← counted]
    rfl

end Market

end Bourse
