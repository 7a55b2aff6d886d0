import Krafka.Producer.Identity

/-! A batch of records for one partition, and what each record is owed. -/

namespace Krafka.Producer

abbrev Bytes := List UInt8
abbrev Instant := Nat
abbrev Duration := Nat

/-- The wire content of one record. `tag` numbers the `Append` that brought it: the
source tells records and waiters apart by ownership, the model by this number. -/
structure RecordData where
  key : Option Bytes := none
  value : Option Bytes := none
  headers : List (String × Option Bytes) := []
  timestamp : Int := 0
  tag : Nat := 0
  deriving DecidableEq

structure Waiter where
  tag : Nat
  txn : Bool := false
  deriving DecidableEq

structure Batch where
  records : List RecordData := []
  waiters : Option (List Waiter) := some []
  bytes : Nat := 0
  created : Instant
  deadline : Instant
  generation : Nat := 0
  stamp : Option BatchIdentity := none
  encoded : Option Bytes := none
  written : Bool := false
  maybeAppended : Bool := false
  attempts : Nat := 0
  splitDepth : Nat := 0
  alone : Bool := false
  lastError : Option KrafkaError := none
  deriving DecidableEq

namespace Batch

def new (now deadline : Instant) : Batch := { created := now, deadline }

def len (batch : Batch) : Nat := batch.records.length

def tags (batch : Batch) : List Nat := batch.records.map (·.tag)

def held (batch : Batch) : List Nat := (batch.waiters.getD []).map (·.tag)

def unstamp (batch : Batch) : Batch :=
  { batch with stamp := none, encoded := none, written := false }

def stampCount (batch : Batch) : Nat := if batch.stamp.isSome then 1 else 0

def fits (batch : Batch) (size batchSize : Nat) : Bool :=
  batch.records.isEmpty || batch.bytes + size ≤ batchSize

def push (batch : Batch) (data : RecordData) (size generation : Nat) (waiter : Waiter) : Batch :=
  { batch with
    records := batch.records ++ [data]
    waiters := batch.waiters.map (· ++ [waiter])
    bytes := batch.bytes + size
    generation := max batch.generation generation }

def half (batch : Batch) (records : List RecordData) (waiters : List Waiter) (bytes : Nat) : Batch :=
  { records, waiters := some waiters, bytes
    created := batch.created
    deadline := batch.deadline
    generation := batch.generation
    splitDepth := batch.splitDepth + 1 }

def split (batch : Batch) : Option (Batch × Batch) :=
  let count := batch.len
  if count < 2 then none
  else
    let mid := count / 2
    let waiters := batch.waiters.getD []
    let at_ := min mid waiters.length
    let ratio := fun n => batch.bytes * n / count
    some (batch.half (batch.records.take mid) (waiters.take at_) (ratio mid),
      batch.half (batch.records.drop mid) (waiters.drop at_) (ratio (count - mid)))

theorem split_of_several (batch : Batch) (several : 1 < batch.len) :
    ∃ halves, batch.split = some halves := ⟨_, if_neg (Nat.not_lt.mpr several)⟩

theorem several_of_split {batch : Batch} {halves : Batch × Batch}
    (halved : batch.split = some halves) : 1 < batch.len := by
  unfold split at halved
  dsimp only at halved
  split at halved
  · cases halved
  · omega

theorem split_eq {batch first second : Batch} (halves : batch.split = some (first, second)) :
    first = batch.half (batch.records.take (batch.len / 2))
        ((batch.waiters.getD []).take (min (batch.len / 2) (batch.waiters.getD []).length))
        (batch.bytes * (batch.len / 2) / batch.len) ∧
      second = batch.half (batch.records.drop (batch.len / 2))
        ((batch.waiters.getD []).drop (min (batch.len / 2) (batch.waiters.getD []).length))
        (batch.bytes * (batch.len - batch.len / 2) / batch.len) := by
  unfold split at halves
  dsimp only at halves
  split at halves
  · cases halves
  · cases halves
    exact ⟨rfl, rfl⟩

end Batch

end Krafka.Producer
