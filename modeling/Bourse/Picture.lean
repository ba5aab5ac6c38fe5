import Bourse.Record

/-!
# Pictures

A picture is a numbered batch of records, published together. The batch being
filled carries the number of the next picture.
-/

namespace Bourse

/-- A published batch of records. -/
structure Picture where
  sequence : Nat
  records : List Record
  deriving DecidableEq, Repr

/-- The greatest number of records in a picture. -/
def maxRecords : Nat := 10

/-- A picture in the making, and how many records it takes. -/
structure Batch where
  picture : Picture
  capacity : Nat
  deriving DecidableEq, Repr

namespace Batch

/-- The first batch. At least one record fits, and at most `maxRecords`. -/
def ofCapacity (capacity : Nat) : Batch where
  picture := ⟨0, []⟩
  capacity := max 1 (min capacity maxRecords)

/-- How many records the batch holds. -/
def size (batch : Batch) : Nat := batch.picture.records.length

/-- Whether the batch holds no record. -/
def isEmpty (batch : Batch) : Bool := batch.picture.records.isEmpty

/-- Whether no further record fits. -/
def isFull (batch : Batch) : Bool := batch.capacity ≤ batch.size

/-- The batch with a record behind the others. -/
def push (batch : Batch) (record : Record) : Batch :=
  { batch with picture.records := batch.picture.records ++ [record] }

/-- The empty batch for the picture behind this one. -/
def reset (batch : Batch) : Batch :=
  { batch with picture := ⟨batch.picture.sequence + 1, []⟩ }

end Batch

end Bourse
