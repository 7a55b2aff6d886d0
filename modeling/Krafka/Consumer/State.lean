import Krafka.Library.Texts
import Krafka.Record
import Mathlib.Data.List.AList
import Mathlib.Data.List.Sort

/-! The consumer's subscription state: which partitions it owns and where each of them
stands. Every operation runs under one lock, so each is a single step here. -/

namespace Krafka.Consumer

abbrev PartitionKey := String × Int

/-- A name of its own for what every membership test of a key rests on. -/
instance lawfulBEq_partitionKey : LawfulBEq PartitionKey := inferInstance
abbrev Offset := Int
abbrev Instant := Nat
abbrev Duration := Nat

def PartitionKey.le (a b : PartitionKey) : Prop := a.1 < b.1 ∨ a.1 = b.1 ∧ a.2 ≤ b.2

instance : DecidableRel PartitionKey.le := fun a b =>
  inferInstanceAs (Decidable (a.1 < b.1 ∨ a.1 = b.1 ∧ a.2 ≤ b.2))

def backoffInitial : Duration := 100

def backoffMax : Duration := 30000

/-- `usize` counters wrap here. -/
def usizeSpace : Nat := 2 ^ 64

def after (offset : Offset) : Offset := min (offset + 1) (2 ^ 63 - 1)

inductive OffsetReset where
  | earliest
  | latest
  | byDuration (duration : Duration)
  deriving DecidableEq

structure ConsumerRecord where
  topic : String := ""
  partition : Int := 0
  offset : Offset
  timestamp : Int := 0
  timestampType : TimestampType := .createTime
  key : Option Bytes := none
  value : Option Bytes := none
  headers : List (String × Option Bytes) := []
  leaderEpoch : Option Int := none
  deliveryCount : Option Int := none
  deriving DecidableEq

def headerKey (key : Bytes) : String := String.ofList (Texts.fromUtf8Lossy key (key.length + 1))

def headersFromWire (headers : List RecordHeader) : List (String × Option Bytes) :=
  headers.map fun h => (headerKey h.key, h.value)

/-- A record as a fetch hands it out; `deliveryCount` is a share group's. -/
def ConsumerRecord.fromWire (topic : String) (partition : Int) (batch : RecordBatch)
    (record : Record) (deliveryCount : Option Int) : ConsumerRecord :=
  { topic, partition
    offset := saturatingAdd batch.baseOffset record.offsetDelta
    timestamp := saturatingAdd batch.baseTimestamp record.timestampDelta
    timestampType := batch.attributes.timestampType
    key := record.key
    value := record.value
    headers := headersFromWire record.headers
    leaderEpoch := some batch.partitionLeaderEpoch
    deliveryCount }

structure CompletedFetch where
  records : List ConsumerRecord
  nextOffset : Offset
  nextEpoch : Option Int := none
  deriving DecidableEq

structure PartitionRecord where
  version : Nat := 0
  position : Option Offset := none
  epoch : Option Int := none
  reset : Option OffsetReset := none
  validated : Bool := false
  paused : Bool := false
  delivering : Bool := false
  buffered : Option CompletedFetch := none
  highWatermark : Option Offset := none
  watermarkUpdatedAt : Option Instant := none
  lastStableOffset : Option Offset := none
  logStartOffset : Option Offset := none
  preferredReplica : Option (Int × Instant) := none
  backoff : Option (Instant × Duration) := none
  deriving DecidableEq

structure FetchTarget where
  key : PartitionKey
  version : Nat
  offset : Offset
  lastFetchedEpoch : Int := -1
  preferredReplica : Option Int := none

namespace PartitionRecord

def backoffElapsed (r : PartitionRecord) (now : Instant) : Bool :=
  match r.backoff with
  | none => true
  | some (next, _) => next ≤ now

def deliverable (r : PartitionRecord) : Bool :=
  !r.paused && !r.delivering && r.buffered.any (!·.records.isEmpty)

def expireReplica (r : PartitionRecord) (now : Instant) : PartitionRecord :=
  match r.preferredReplica with
  | some (_, expiry) => if expiry ≤ now then { r with preferredReplica := none } else r
  | none => r

def target (r : PartitionRecord) (now : Instant) (key : PartitionKey) : Option FetchTarget :=
  match r.position with
  | none => none
  | some offset =>
    if r.paused || r.delivering || r.buffered.isSome || r.reset.isSome || !r.backoffElapsed now then
      none
    else
      some
        { key, offset
          version := r.version
          lastFetchedEpoch := r.epoch.getD (-1)
          preferredReplica := r.preferredReplica.map (·.1) }

end PartitionRecord

structure DeliveredPartition where
  key : PartitionKey
  version : Nat
  count : Nat

structure Delivery where
  records : List ConsumerRecord := []
  partitions : List DeliveredPartition := []
  covers : (partitions.map (·.count)).sum = records.length := by rfl

def Delivery.add (delivery : Delivery) (key : PartitionKey) (version : Nat)
    (taken : List ConsumerRecord) : Delivery where
  records := delivery.records ++ taken
  partitions := delivery.partitions ++ [{ key, version, count := taken.length }]
  covers := by simp [delivery.covers]

structure SubscriptionState where
  partitions : AList fun _ : PartitionKey => PartitionRecord := ∅
  nextVersion : Nat := 0
  rotation : Nat := 0
  /-- Every version `bump` has handed out, oldest first; the source keeps only the last. -/
  issued : List Nat := []

namespace SubscriptionState

variable (s : SubscriptionState)

def assignedKeys : List PartitionKey := s.partitions.keys.insertionSort PartitionKey.le

def put (key : PartitionKey) (r : PartitionRecord) : SubscriptionState :=
  { s with partitions := s.partitions.insert key r }

def modify (key : PartitionKey) (f : PartitionRecord → PartitionRecord) : SubscriptionState :=
  match s.partitions.lookup key with
  | some r => s.put key (f r)
  | none => s

def bump : Nat × SubscriptionState :=
  let version := s.nextVersion + 1
  (version, { s with nextVersion := version, issued := s.issued ++ [version] })

def notAssigned (key : PartitionKey) : KrafkaError :=
  let topic := key.1
  let partition := key.2
  .illegalState s!"no current assignment for partition {topic}-{partition}"

/-! Assignment -/

def addPartition (key : PartitionKey) : SubscriptionState :=
  if key ∈ s.partitions then s
  else
    let (version, s) := s.bump
    s.put key { version }

def addPartitions (keys : List PartitionKey) : SubscriptionState := keys.foldl addPartition s

def removePartition (key : PartitionKey) : SubscriptionState :=
  { s with partitions := s.partitions.erase key }

def removePartitions (keys : List PartitionKey) : SubscriptionState := keys.foldl removePartition s

def clearAssignment : SubscriptionState := { s with partitions := ∅ }

/-! Positions -/

/-- What every reposition does: a new version, and nothing buffered or in delivery. -/
def reposition (key : PartitionKey) (f : PartitionRecord → PartitionRecord) : SubscriptionState :=
  let (version, s) := s.bump
  s.modify key fun r =>
    { f r with version, epoch := none, buffered := none, delivering := false }

def seek (key : PartitionKey) (offset : Offset) : Result Unit × SubscriptionState :=
  if key ∈ s.partitions then
    (.ok (), s.reposition key fun r =>
      { r with position := some offset, reset := none, validated := false, backoff := none })
  else (.error (notAssigned key), s)

def requestReset (key : PartitionKey) (reset : OffsetReset) :
    Result Unit × SubscriptionState :=
  if key ∈ s.partitions then
    (.ok (), s.reposition key fun r =>
      { r with position := none, reset := some reset, validated := false, backoff := none })
  else (.error (notAssigned key), s)

def resetIfCurrent (key : PartitionKey) (version : Nat) (reset : OffsetReset) : SubscriptionState :=
  if (s.partitions.lookup key).any (·.version = version) then (s.requestReset key reset).2 else s

def setInitialPosition (key : PartitionKey) (version : Nat) (offset : Offset) (epoch : Option Int) :
    Bool × SubscriptionState :=
  match s.partitions.lookup key with
  | some r =>
    if r.version = version ∧ r.position = none then
      (true, s.put key { r with
        position := some offset, epoch, reset := none, validated := false, backoff := none })
    else (false, s)
  | none => (false, s)

def setPendingReset (key : PartitionKey) (version : Nat) (reset : OffsetReset) :
    SubscriptionState :=
  s.modify key fun r =>
    if r.version = version ∧ r.position = none then { r with reset := some reset } else r

def backOff (key : PartitionKey) (version : Option Nat) (now : Instant) : SubscriptionState :=
  s.modify key fun r =>
    if version.all (· = r.version) then
      let previous := (r.backoff.map (·.2)).getD 0
      let next := min (max (previous * 2) backoffInitial) backoffMax
      { r with backoff := some (now + next, next) }
    else r

def truncate (key : PartitionKey) (version : Option Nat) (endOffset : Offset) :
    Option Offset × SubscriptionState :=
  match s.partitions.lookup key with
  | none => (none, s)
  | some current =>
    if version.any (· ≠ current.version) then (none, s)
    else
      (current.position, s.reposition key fun r =>
        { r with position := some endOffset, reset := none, validated := true })

def markValidated (key : PartitionKey) (version : Nat) : SubscriptionState :=
  s.modify key fun r => if r.version = version then { r with validated := true } else r

def markUnvalidated (key : PartitionKey) : SubscriptionState :=
  s.modify key fun r => { r with validated := false }

def setPaused (topic : String) (partitions : List Int) (paused : Bool) : Nat × SubscriptionState :=
  (partitions.countP fun partition => (topic, partition) ∈ s.partitions,
    partitions.foldl (fun s partition => s.modify (topic, partition) ({ · with paused })) s)

/-! Fetching -/

def visitTarget (now : Instant) (visited : List FetchTarget × SubscriptionState)
    (key : PartitionKey) : List FetchTarget × SubscriptionState :=
  match visited.2.partitions.lookup key with
  | none => visited
  | some r =>
    let r := r.expireReplica now
    (visited.1 ++ (r.target now key).toList, visited.2.put key r)

def fetchTargets (now : Instant) : List FetchTarget × SubscriptionState :=
  let (targets, s) := s.assignedKeys.foldl (visitTarget now) ([], s)
  if targets.isEmpty then (targets, s)
  else
    (targets.rotate (s.rotation % targets.length),
      { s with rotation := (s.rotation + 1) % usizeSpace })

/-- Install a fetch result, if the partition is still where the fetch was issued from. A result
with no records but a later next offset moves the position directly. -/
def installFetch (target : FetchTarget) (fetch : CompletedFetch) : Bool × SubscriptionState :=
  match s.partitions.lookup target.key with
  | none => (false, s)
  | some r =>
    if r.version ≠ target.version ∨ r.position ≠ some target.offset ∨ r.buffered.isSome ∨
        r.delivering then (false, s)
    else
      let r := { r with backoff := none }
      (true, s.put target.key (
        if fetch.records.isEmpty then
          if target.offset < fetch.nextOffset then
            { r with
              position := some fetch.nextOffset
              epoch := if fetch.nextEpoch.isSome then fetch.nextEpoch else r.epoch }
          else r
        else { r with buffered := some fetch }))

def clearBackoff (key : PartitionKey) (version : Nat) : SubscriptionState :=
  s.modify key fun r => if r.version = version then { r with backoff := none } else r

def updateWatermarks (key : PartitionKey)
    (highWatermark lastStableOffset logStartOffset : Option Offset) (now : Instant) :
    SubscriptionState :=
  s.modify key fun r =>
    { r with
      highWatermark := highWatermark.or r.highWatermark
      watermarkUpdatedAt := if highWatermark.isSome then some now else r.watermarkUpdatedAt
      lastStableOffset := lastStableOffset.or r.lastStableOffset
      logStartOffset := logStartOffset.or r.logStartOffset }

def setPreferredReplica (key : PartitionKey) (replica : Option (Int × Instant)) :
    SubscriptionState :=
  s.modify key ({ · with preferredReplica := replica })

/-! Delivery -/

def takeFrom (max : Nat) (taken : Delivery × SubscriptionState) (key : PartitionKey) :
    Delivery × SubscriptionState :=
  let remaining := max - taken.1.records.length
  if remaining = 0 then taken
  else
    match taken.2.partitions.lookup key with
    | none => taken
    | some r =>
      match r.buffered with
      | none => taken
      | some fetch =>
        (taken.1.add key r.version (fetch.records.take remaining),
          taken.2.put key { r with
            buffered := some { fetch with records := fetch.records.drop remaining }
            delivering := true })

def takeDelivery (max : Nat) : Option Delivery × SubscriptionState :=
  if max = 0 then (none, s)
  else
    let ready := s.assignedKeys.filter fun key =>
      (s.partitions.lookup key).any PartitionRecord.deliverable
    if ready.isEmpty then (none, s)
    else
      let start := s.rotation % ready.length
      let s := { s with rotation := (s.rotation + 1) % usizeSpace }
      let (delivery, s) := (ready.rotate start).foldl (takeFrom max) ({}, s)
      (some delivery, s)

end SubscriptionState

namespace PartitionRecord

def advance (r : PartitionRecord) (delivered : List ConsumerRecord) : PartitionRecord :=
  match delivered.getLast? with
  | some last =>
    { r with
      position := some (after last.offset)
      epoch := if last.leaderEpoch.isSome then last.leaderEpoch else r.epoch }
  | none => r

def putBack (r : PartitionRecord) (records : List ConsumerRecord) : PartitionRecord :=
  match r.buffered with
  | none => r
  | some fetch =>
    let records := records ++ fetch.records
    if records.isEmpty then
      if r.position.all (· < fetch.nextOffset) then
        { r with
          buffered := none
          position := some fetch.nextOffset
          epoch := if fetch.nextEpoch.isSome then fetch.nextEpoch else r.epoch }
      else { r with buffered := none }
    else { r with buffered := some { fetch with records } }

def settle (r : PartitionRecord) (delivered rest : List ConsumerRecord) : PartitionRecord :=
  ({ r with delivering := false }.advance delivered).putBack rest

end PartitionRecord

namespace SubscriptionState

/-- The loop of `complete_delivery`: what is left of the records and of the count to hand out,
and for each partition what it handed out. Records of a partition that has moved since are
dropped. -/
def completeParts (s : SubscriptionState) : List DeliveredPartition → List ConsumerRecord → Nat →
    List (DeliveredPartition × List ConsumerRecord) × SubscriptionState
  | [], _, _ => ([], s)
  | part :: parts, records, remainingOut =>
    let chunk := records.take part.count
    let deliver := min remainingOut chunk.length
    let rest := fun s : SubscriptionState =>
      s.completeParts parts (records.drop part.count) (remainingOut - deliver)
    match s.partitions.lookup part.key with
    | none => rest s
    | some r =>
      if r.version ≠ part.version then rest s
      else
        let (out, s) := rest (s.put part.key (r.settle (chunk.take deliver) (chunk.drop deliver)))
        ((part, chunk.take deliver) :: out, s)

def completeDelivery (s : SubscriptionState) (delivery : Delivery) (handedOut : Nat) :
    List ConsumerRecord × SubscriptionState :=
  let (out, s) := s.completeParts delivery.partitions delivery.records handedOut
  (out.flatMap (·.2), s)

def committable (s : SubscriptionState) : List (PartitionKey × Offset × Option Int) :=
  s.assignedKeys.filterMap fun key =>
    (s.partitions.lookup key).bind fun r => r.position.map fun position => (key, position, r.epoch)

end SubscriptionState

/-! Topic ids -/

abbrev Uuid := BitVec 128

structure Catalogue where
  topics : List (String × Uuid)

def Catalogue.name (catalogue : Catalogue) (id : Uuid) : Option String :=
  (catalogue.topics.find? (·.2 = id)).map (·.1)

end Krafka.Consumer
