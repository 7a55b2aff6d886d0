import Krafka.Consumer.State
import Krafka.Library.Maps

/-! The batch walk: one partition's fetched bytes become records and the offset the next fetch
starts at. -/

namespace Krafka.Consumer

structure AbortedTransaction where
  producerId : Int
  firstOffset : Offset

/-- A control batch with an abort marker: the type in its first record's key is `0`. -/
def controlBatchIsAbort (batch : RecordBatch) : Bool :=
  match batch.records with
  | [] => false
  | record :: _ =>
    match record.key with
    | some key => 4 ≤ key.length && beInt (field key 2 2) = 0
    | none => false

structure PartitionDecodeOutcome where
  lastOffset : Option Offset := none
  lastEpoch : Int := -1
  error : Option KrafkaError := none
  corrupt : Bool := false

namespace PartitionDecodeOutcome

def advanceThroughBatch (outcome : PartitionDecodeOutcome) (fetchOffset batchEnd : Offset)
    (batchEpoch : Int) : PartitionDecodeOutcome :=
  if batchEnd < fetchOffset then outcome
  else if outcome.lastOffset.all (· < batchEnd) then
    { outcome with lastOffset := some batchEnd, lastEpoch := batchEpoch }
  else outcome

end PartitionDecodeOutcome

structure DecodeRequest where
  codec : Codec
  topicName : String := ""
  partition : Int := 0
  fetchOffset : Offset
  maxDecompressedSize : Nat := 0

abbrev DecodeRequest.decode (request : DecodeRequest) (buf : Bytes) : Result (RecordBatch × Bytes) :=
  RecordBatch.decodeWithLimit request.codec request.maxDecompressedSize buf

structure BatchWalk where
  batchBuf : Bytes
  abortedTxns : List AbortedTransaction
  abortedProducers : KeySet Int := .empty
  recordBudget : Option Nat
  records : List ConsumerRecord
  outcome : PartitionDecodeOutcome := {}

def activate (baseOffset : Offset) :
    List AbortedTransaction → KeySet Int → List AbortedTransaction × KeySet Int
  | [], producers => ([], producers)
  | txn :: txns, producers =>
    if txn.firstOffset ≤ baseOffset then activate baseOffset txns (producers.insert txn.producerId)
    else (txn :: txns, producers)

section Walk

variable (request : DecodeRequest)

def consumerRecord (batch : RecordBatch) (record : Record) : ConsumerRecord :=
  .fromWire request.topicName request.partition batch record none

def pushRecords (batch : RecordBatch) (allowed : Option Nat) :
    List Record → (used : Nat) → PartitionDecodeOutcome → List ConsumerRecord →
      Bool × Nat × PartitionDecodeOutcome × List ConsumerRecord
  | [], used, outcome, records => (false, used, outcome, records)
  | record :: rest, used, outcome, records =>
    let pushed := consumerRecord request batch record
    if pushed.offset < request.fetchOffset then pushRecords batch allowed rest used outcome records
    else if allowed = some used then (true, used, outcome, records)
    else
      pushRecords batch allowed rest (used + 1)
        { outcome with
          lastOffset := some pushed.offset
          lastEpoch := batch.partitionLeaderEpoch } (records ++ [pushed])

namespace BatchWalk

def activateAt (w : BatchWalk) (baseOffset : Offset) : BatchWalk :=
  let (abortedTxns, abortedProducers) := activate baseOffset w.abortedTxns w.abortedProducers
  { w with abortedTxns, abortedProducers }

def advance (w : BatchWalk) (batchEnd : Offset) (batchEpoch : Int) : BatchWalk :=
  { w with outcome := w.outcome.advanceThroughBatch request.fetchOffset batchEnd batchEpoch }

/-- Header first: a data batch of an aborted transaction is skipped without decoding it. Says
whether the batch was skipped. -/
def skipAborted (w : BatchWalk) : BatchWalk × Bool :=
  match RecordBatchHeader.peek w.batchBuf with
  | .error _ => (w, false)
  | .ok header =>
    if header.attributes.isTransactional && !header.attributes.isControlBatch &&
        header.totalSize ≤ w.batchBuf.length then
      let w := w.activateAt header.baseOffset
      if header.producerId ∈ w.abortedProducers.keys then
        ({ w.advance request header.lastOffset header.partitionLeaderEpoch with
            batchBuf := w.batchBuf.drop header.totalSize }, true)
      else (w, false)
    else (w, false)

def visit (w : BatchWalk) (batch : RecordBatch) : BatchWalk × Bool :=
  let batchEnd := saturatingAdd batch.baseOffset batch.lastOffsetDelta
  let w := w.activateAt batch.baseOffset
  if batch.attributes.isControlBatch then
    let w :=
      if controlBatchIsAbort batch then
        { w with abortedProducers := w.abortedProducers.retain (· ≠ batch.producerId) }
      else w
    (w.advance request batchEnd batch.partitionLeaderEpoch, true)
  else if batch.attributes.isTransactional && batch.producerId ∈ w.abortedProducers.keys then
    (w.advance request batchEnd batch.partitionLeaderEpoch, true)
  else if batch.records.isEmpty then
    (w.advance request batchEnd batch.partitionLeaderEpoch, true)
  else
    let (exhausted, used, outcome, records) :=
      pushRecords request batch w.recordBudget batch.records 0 w.outcome w.records
    let w := { w with recordBudget := w.recordBudget.map (· - used), outcome, records }
    -- a batch cut short is fetched again from the last record pushed
    if exhausted then (w, false)
    else (w.advance request batchEnd batch.partitionLeaderEpoch, true)

def fail (w : BatchWalk) (error : KrafkaError) : BatchWalk :=
  let truncatedTail := match error with
    | .protocol .truncatedFrame _ => true
    | _ => false
  if w.outcome.lastOffset.isSome then
    if truncatedTail then w else { w with outcome := { w.outcome with corrupt := true } }
  else { w with outcome := { w.outcome with corrupt := true, error := some error } }

theorem length_skipAborted_lt {w w' : BatchWalk} (skipped : w.skipAborted request = (w', true)) :
    w'.batchBuf.length < w.batchBuf.length := by
  unfold skipAborted at skipped
  split at skipped
  · cases skipped
  · rename_i header parsed
    have large := RecordBatchHeader.size_le_totalSize parsed
    simp only [RecordBatchHeader.size] at large
    simp only at skipped
    split_ifs at skipped with data aborted
    · cases skipped
      simp only [Bool.and_eq_true, decide_eq_true_eq] at data
      show (w.batchBuf.drop header.totalSize).length < w.batchBuf.length
      rw [List.length_drop]
      omega
    · cases skipped
    · cases skipped

theorem batchBuf_skipAborted {w w' : BatchWalk} (kept : w.skipAborted request = (w', false)) :
    w'.batchBuf = w.batchBuf := by
  unfold skipAborted at kept
  split at kept
  · cases kept
    rfl
  · simp only at kept
    split_ifs at kept <;> cases kept <;> rfl

theorem batchBuf_visit (w : BatchWalk) (batch : RecordBatch) :
    (w.visit request batch).1.batchBuf = w.batchBuf := by
  simp only [visit]
  split_ifs <;> rfl

def walk (w : BatchWalk) : BatchWalk :=
  if w.batchBuf.length < 12 then w
  else if w.recordBudget = some 0 then w
  else
    match skipped : w.skipAborted request with
    | (w', true) =>
      have _shorter := length_skipAborted_lt request skipped
      walk w'
    | (w', false) =>
      match decoded : request.decode w'.batchBuf with
      | .error error => w'.fail error
      | .ok (batch, rest) =>
        match visited : { w' with batchBuf := rest }.visit request batch with
        | (w'', true) =>
          have _shorter : w''.batchBuf.length < w.batchBuf.length := by
            have same := batchBuf_visit request { w' with batchBuf := rest } batch
            rw [visited] at same
            have less := RecordBatch.length_decodeWithLimit_lt decoded
            rw [batchBuf_skipAborted request skipped] at less
            exact (congrArg List.length same).trans_lt less
          walk w''
        | (w'', false) => w''
termination_by w.batchBuf.length

end BatchWalk

def decodePartitionBatches (batchBuf : Bytes) (abortedTxns : List AbortedTransaction)
    (recordBudget : Option Nat) (records : List ConsumerRecord) : BatchWalk :=
  BatchWalk.walk request
    { batchBuf, recordBudget, records
      abortedTxns := abortedTxns.insertionSort fun a b => a.firstOffset ≤ b.firstOffset }

end Walk

end Krafka.Consumer
