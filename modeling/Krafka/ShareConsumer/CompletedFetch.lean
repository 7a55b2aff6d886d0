import Krafka.Record
import Krafka.ShareConsumer.Acks
import Mathlib.Data.List.TakeWhile

/-! One partition of a `ShareFetch` response becomes records to deliver and acknowledgements of
the acquired offsets that hold none. -/

namespace Krafka.ShareConsumer

open Consumer (ConsumerRecord)
open Metadata (TopicId)

def maxOffset : Int := 2 ^ 63 - 1

def minOffset : Int := -2 ^ 63

structure ShareAcquiredRecords where
  firstOffset : Int
  lastOffset : Int
  deliveryCount : Int := 1
  deriving DecidableEq

structure CompletedFetch where
  topic : String
  topicId : TopicId
  partition : Int
  node : Int
  records : List ConsumerRecord

structure Processed where
  fetch : CompletedFetch
  acks : List AckRange

structure Covered where
  first : Int
  last : Int
  kind : AckType
  deriving DecidableEq

/-- Where the batch that did not decode starts, so far as it can be told. -/
def releaseBase (cursor : Bytes) : Int :=
  if 8 ≤ cursor.length then beInt (cursor.take 8) else minOffset

def decodeBatches (codec : Codec) (maxDecompressedSize : Nat) (cursor : Bytes) :
    List RecordBatch × Option Int :=
  if cursor.isEmpty then ([], none)
  else
    match _decoded : RecordBatch.decodeWithLimit codec maxDecompressedSize cursor with
    | .error _ => ([], some (releaseBase cursor))
    | .ok (batch, rest) =>
      let more := decodeBatches codec maxDecompressedSize rest
      (batch :: more.1, more.2)
termination_by cursor.length
decreasing_by exact RecordBatch.length_decodeWithLimit_lt _decoded

/-- The payload is these batches one after another, and then `tail`, which is empty or does not
decode. -/
inductive Splits (codec : Codec) (maxDecompressedSize : Nat) :
    Bytes → List RecordBatch → (tail : Bytes) → Prop where
  | done : Splits codec maxDecompressedSize [] [] []
  | broken {tail error} (some : tail ≠ [])
      (failed : RecordBatch.decodeWithLimit codec maxDecompressedSize tail = .error error) :
      Splits codec maxDecompressedSize tail [] tail
  | batch {buf rest batch batches tail}
      (decoded : RecordBatch.decodeWithLimit codec maxDecompressedSize buf = .ok (batch, rest))
      (more : Splits codec maxDecompressedSize rest batches tail) :
      Splits codec maxDecompressedSize buf (batch :: batches) tail

theorem Splits.decodeBatches {codec : Codec} {maxDecompressedSize : Nat} {buf tail : Bytes}
    {batches : List RecordBatch} (splits : Splits codec maxDecompressedSize buf batches tail) :
    decodeBatches codec maxDecompressedSize buf =
      (batches, if tail = [] then none else some (releaseBase tail)) := by
  induction splits with
  | done =>
    rw [ShareConsumer.decodeBatches]
    rfl
  | broken some failed =>
    rw [ShareConsumer.decodeBatches, if_neg (by simpa using some), if_neg some]
    split
    · rfl
    · next decoded =>
      rw [failed] at decoded
      cases decoded
  | batch decoded _ ih =>
    have some := List.ne_nil_of_length_pos
      (Nat.zero_lt_of_lt (RecordBatch.length_decodeWithLimit_lt decoded))
    rw [ShareConsumer.decodeBatches, if_neg (by simpa using some)]
    split
    · next failed =>
      rw [decoded] at failed
      cases failed
    · next again =>
      rw [decoded] at again
      cases again
      rw [ih]

/-! Walking the records against the acquired ranges -/

structure RecordWalk where
  ranges : List ShareAcquiredRecords
  delivered : List ConsumerRecord := []
  covered : List Covered := []

def recordOffset (batch : RecordBatch) (record : Record) : Int :=
  saturatingAdd batch.baseOffset record.offsetDelta

namespace RecordWalk

def record (topic : String) (partition : Int) (batch : RecordBatch) (w : RecordWalk)
    (record : Record) : RecordWalk :=
  let offset := recordOffset batch record
  if w.covered.getLast?.any (offset ≤ ·.last) then w
  else
    let ranges := w.ranges.dropWhile (·.lastOffset < offset)
    match ranges.head?.filter (·.firstOffset ≤ offset) with
    | none => { w with ranges }
    | some range =>
      { ranges
        covered := w.covered ++ [⟨offset, offset, .accept⟩]
        delivered := w.delivered ++
          [.fromWire topic partition batch record (some range.deliveryCount)] }

def batch (topic : String) (partition : Int) (w : RecordWalk) (batch : RecordBatch) : RecordWalk :=
  if batch.attributes.isControlBatch then
    let last := saturatingAdd batch.baseOffset batch.lastOffsetDelta
    { w with covered := w.covered ++ [⟨batch.baseOffset, last, .gap⟩] }
  else batch.records.foldl (record topic partition batch) w

end RecordWalk

/-! Acknowledging what is not delivered -/

def pushAck (first last : Int) (kind : AckType) (acks : List AckRange) : List AckRange :=
  if ordered : first ≤ last then Span.push ⟨first, last, kind, ordered⟩ acks else acks

def uncovered (releaseFrom : Option Int) (first last : Int) (acks : List AckRange) :
    List AckRange :=
  match releaseFrom with
  | some start =>
    if start ≤ first then pushAck first last .release acks
    else if start ≤ last then
      pushAck start last .release (pushAck first (start - 1) .gap acks)
    else pushAck first last .gap acks
  | none => pushAck first last .gap acks

structure Filling where
  next : Int
  acks : List AckRange

def fillCovered (releaseFrom : Option Int) (lastOffset : Int) (f : Filling) (c : Covered) :
    Filling :=
  if c.last < f.next then f
  else
    let acks :=
      if f.next < c.first then uncovered releaseFrom f.next (c.first - 1) f.acks else f.acks
    let acks :=
      if c.kind = .gap then pushAck (max c.first f.next) (min c.last lastOffset) .gap acks else acks
    ⟨saturatingAdd c.last 1, acks⟩

def fillRange (releaseFrom : Option Int) (s : List Covered × List AckRange)
    (range : ShareAcquiredRecords) : List Covered × List AckRange :=
  let covered := s.1.dropWhile (·.last < range.firstOffset)
  let filled := (covered.takeWhile (·.first ≤ range.lastOffset)).foldl
    (fillCovered releaseFrom range.lastOffset) ⟨range.firstOffset, s.2⟩
  (covered,
    if filled.next ≤ range.lastOffset then
      uncovered releaseFrom filled.next range.lastOffset filled.acks
    else filled.acks)

def acquiredRanges (acquired : List ShareAcquiredRecords) : List ShareAcquiredRecords :=
  (acquired.filter fun r => r.firstOffset ≤ r.lastOffset).insertionSort fun a b =>
    a.firstOffset ≤ b.firstOffset

def process (codec : Codec) (maxDecompressedSize : Nat) (topic : String) (topicId : TopicId)
    (partition node : Int) (records : Option Bytes) (acquired : List ShareAcquiredRecords) :
    Processed :=
  let ranges := acquiredRanges acquired
  let decoded := decodeBatches codec maxDecompressedSize (records.getD [])
  let w := decoded.1.foldl (RecordWalk.batch topic partition) { ranges }
  let covered := w.covered.insertionSort fun a b => a.first ≤ b.first
  { fetch := { topic, topicId, partition, node, records := w.delivered }
    acks := (ranges.foldl (fillRange decoded.2) (covered, [])).2 }

/-! What comes out of a response -/

def Acquires (acquired : List ShareAcquiredRecords) (offset : Int) : Prop :=
  ∃ r ∈ acquired, r.firstOffset ≤ offset ∧ offset ≤ r.lastOffset

theorem mem_acquiredRanges {acquired : List ShareAcquiredRecords} {r : ShareAcquiredRecords} :
    r ∈ acquiredRanges acquired ↔ r ∈ acquired ∧ r.firstOffset ≤ r.lastOffset := by
  rw [acquiredRanges, (List.perm_insertionSort _ _).mem_iff, List.mem_filter, decide_eq_true_eq]

theorem acquires_acquiredRanges {acquired : List ShareAcquiredRecords} {offset : Int} :
    Acquires (acquiredRanges acquired) offset ↔ Acquires acquired offset := by
  constructor
  · rintro ⟨r, listed, has⟩
    exact ⟨r, (mem_acquiredRanges.mp listed).1, has⟩
  · rintro ⟨r, listed, has⟩
    exact ⟨r, mem_acquiredRanges.mpr ⟨listed, Int.le_trans has.1 has.2⟩, has⟩

end Krafka.ShareConsumer
