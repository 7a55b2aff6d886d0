import Krafka.Library.Maps
import Krafka.Producer.Batch
import Mathlib.Data.List.Sort

/-! The send engine: the state one producer task owns and the functions that change it.
`now`, the partition leaders, the jittered backoff delays and the outcomes of requests
come in as arguments. `trace` records what the engine did to the world, oldest first. -/

namespace Krafka.Producer

inductive TransactionState where
  | uninitialized | initializing | ready | «open» | committing | commitUnknown | aborting
  | prepared | fatal
  deriving DecidableEq

def maxInFlightPerBroker : Nat := 5
def maxSplitDepth : Nat := 2
def perBatchOverhead : Nat := 128

def idleTick : Duration := 1000000000

inductive Compression where
  | none | gzip | snappy | lz4 | zstd
  deriving DecidableEq

def Compression.debug : Compression → String
  | .none => "None" | .gzip => "Gzip" | .snappy => "Snappy" | .lz4 => "Lz4" | .zstd => "Zstd"

structure EngineConfig where
  batchSize : Nat
  linger : Duration
  deliveryTimeout : Duration
  maxRequestSize : Nat
  compression : Compression := .none
  topicCompression : List (String × Compression) := []
  mode : Mode
  identity : Option (Int × Int) := none
  gate : Bool := false

structure Append where
  topic : String
  partition : Int
  data : RecordData
  size : Nat
  generation : Nat
  txn : Bool := false

def Append.key (append : Append) : PartitionKey := (append.topic, append.partition)

inductive Command where
  | append (append : Append)
  | flush (generation : Nat)
  | failUnsent (error : KrafkaError)
  | setIdentity (producerId epoch : Int) (tv2 : Bool)
  | terminate (error : KrafkaError)

def Command.isAppend : Command → Bool
  | .append _ => true
  | _ => false

def Command.append? : Command → Option Append
  | .append record => some record
  | _ => none

inductive IdentityState where
  | plain
  | uninit
  | init
  | ready (identity : Identity)
  | fatal (error : KrafkaError)

namespace IdentityState

def identity? : IdentityState → Option Identity
  | .ready identity => some identity
  | _ => none

def isFatal : IdentityState → Bool
  | .fatal _ => true
  | _ => false

end IdentityState

structure PartitionQueue where
  openBatch : Option Batch := none
  sealed : List Batch := []
  inFlight : Option Batch := none
  seq : PartitionSeq := {}
  backoffUntil : Option Instant := none
  lastAckedOffset : Option Int := none

structure WireBatch where
  key : PartitionKey
  records : List RecordData
  stamp : Option BatchIdentity
  encoded : Option Bytes
  estimated : Nat
  deriving DecidableEq

structure Request where
  serial : Nat
  broker : Int
  wire : List WireBatch
  deriving DecidableEq

inductive BatchOutcome where
  | notWritten (error : KrafkaError)
  | tooLarge
  | noAnswer (error : KrafkaError)
  | answer (code : ErrorCode) (baseOffset logAppendTime logStartOffset : Int)
  | unacknowledged

structure BatchResult where
  key : PartitionKey
  encoded : Option Bytes := none
  outcome : BatchOutcome

structure RequestDone where
  broker : Int
  results : List BatchResult

/-- What a batch remembers of an attempt that ended with `outcome`: whether it was written,
and whether it may be in the log. -/
def Batch.marked (batch : Batch) : BatchOutcome → Batch
  | .answer code _ _ _ =>
    { batch with
      written := true
      maybeAppended := batch.maybeAppended || (code ≠ .none && !isDefinitiveNonAppend code) }
  | .noAnswer _ => { batch with written := true, maybeAppended := true }
  | _ => batch

section Marked

variable (batch : Batch) (outcome : BatchOutcome)

@[simp] theorem Batch.marked_records : (batch.marked outcome).records = batch.records := by
  cases outcome <;> rfl

@[simp] theorem Batch.marked_waiters : (batch.marked outcome).waiters = batch.waiters := by
  cases outcome <;> rfl

@[simp] theorem Batch.marked_stamp : (batch.marked outcome).stamp = batch.stamp := by
  cases outcome <;> rfl

@[simp] theorem Batch.marked_bytes : (batch.marked outcome).bytes = batch.bytes := by
  cases outcome <;> rfl

@[simp] theorem Batch.marked_deadline : (batch.marked outcome).deadline = batch.deadline := by
  cases outcome <;> rfl

end Marked

inductive DeliveryConfirmation where
  | offset | deduplicated | unacknowledged
  deriving DecidableEq

structure RecordMetadata where
  topic : String
  partition : Int
  offset : Int
  timestamp : Int
  delivery : DeliveryConfirmation

inductive Event where
  | arrived (key : PartitionKey) (record : RecordData)
  | appended (key : PartitionKey) (record : RecordData)
  | stamped (key : PartitionKey) (stamp : BatchIdentity) (records : List RecordData)
  | handed (broker : Int) (batch : WireBatch)
  | retracted (key : PartitionKey) (stamp : BatchIdentity) (records : List RecordData)
  | ended (key : PartitionKey) (records : List RecordData) (stamp : Option BatchIdentity)
      (outcome : BatchOutcome)
  | acknowledged (key : PartitionKey) (records : List RecordData)
  | failed (key : PartitionKey) (records : List RecordData)
  | answered (key : PartitionKey) (record : RecordData) (waiter : Waiter)
      (result : Result RecordMetadata)
  | identified (identity : Identity)
  | gateSet (state : TransactionState)

structure Engine where
  config : EngineConfig
  mode : Mode
  partitions : AList fun _ : PartitionKey => PartitionQueue := ∅
  active : KeySet PartitionKey := KeySet.empty
  brokers : Int → Nat := fun _ => 0
  requests : List Request := []
  identity : IdentityState
  bumpRequested : Bool := false
  epochRetryUsed : Bool := false
  stampedUnresolved : Nat := 0
  sealedThrough : Option Nat := none
  refresh : Option (List String) := none
  nextRefreshAt : Option Instant := none
  reinit : Bool := false
  generation : Nat := 1
  channelClosed : Bool := false
  sharedFatal : Option KrafkaError := none
  trace : List Event := []
  arrivals : Nat := 0
  started : Nat := 0

namespace PartitionQueue

def isIdle (queue : PartitionQueue) : Bool :=
  queue.openBatch.isNone && queue.sealed.isEmpty && queue.inFlight.isNone

def sealOpen (queue : PartitionQueue) : PartitionQueue :=
  { queue with openBatch := none, sealed := queue.sealed ++ queue.openBatch.toList }

def head (queue : PartitionQueue) : Option Batch := queue.sealed.head?.or queue.openBatch

def popHead (queue : PartitionQueue) : Option (Batch × PartitionQueue) :=
  match queue.sealed with
  | batch :: rest => some (batch, { queue with sealed := rest })
  | [] => queue.openBatch.map fun batch => (batch, { queue with openBatch := none })

/-- The batch `drain` would send now: the oldest sealed one, or the open one once its
linger has passed. -/
def due (queue : PartitionQueue) (linger : Duration) (now : Instant) : Option Batch :=
  match queue.sealed with
  | batch :: _ => some batch
  | [] => queue.openBatch.filter fun batch => linger = 0 ∨ batch.created + linger ≤ now

def unsent (queue : PartitionQueue) : List Batch := queue.sealed ++ queue.openBatch.toList

def clearUnsent (queue : PartitionQueue) : PartitionQueue :=
  { queue with openBatch := none, sealed := [] }

def expired (queue : PartitionQueue) (now : Instant) : List Batch :=
  (queue.openBatch.filter (·.deadline ≤ now)).toList ++ queue.sealed.takeWhile (·.deadline ≤ now)

def clearExpired (queue : PartitionQueue) (now : Instant) : PartitionQueue :=
  { queue with
    openBatch := queue.openBatch.filter (now < ·.deadline)
    sealed := queue.sealed.dropWhile (·.deadline ≤ now) }

def pushFront (queue : PartitionQueue) (batch : Batch) : PartitionQueue :=
  { queue with sealed := batch :: queue.sealed }

def wakes (queue : PartitionQueue) (linger : Duration) (now : Instant) : List Instant :=
  let lingers := queue.openBatch.filter fun batch =>
    queue.inFlight.isNone && queue.sealed.isEmpty && linger ≠ 0 && now < batch.created + linger
  (queue.openBatch.map (·.deadline)).toList ++ (lingers.map (·.created + linger)).toList ++
    (queue.sealed.head?.map (·.deadline)).toList ++
    ((queue.inFlight.filter (·.waiters.isSome)).map (·.deadline)).toList ++
    (queue.backoffUntil.filter fun wait => queue.inFlight.isNone && now < wait).toList

/-- Append one record: seal the open batch when the record does not fit, push, and seal
again when the batch is full or a flush asked for it. -/
def accept (queue : PartitionQueue) (now deadline : Instant) (batchSize : Nat) (sealNow : Bool)
    (record : RecordData) (size generation : Nat) (waiter : Waiter) : PartitionQueue :=
  let queue := if queue.openBatch.any (!·.fits size batchSize) then queue.sealOpen else queue
  let batch := (queue.openBatch.getD (Batch.new now deadline)).push record size generation waiter
  let queue := { queue with openBatch := some batch }
  if batchSize ≤ batch.bytes || sealNow then queue.sealOpen else queue

end PartitionQueue

def answers (key : PartitionKey) (batch : Batch)
    (result : Nat → RecordData → Result RecordMetadata) : List Event :=
  ((batch.waiters.getD []).zip batch.records).zipIdx.map fun ((waiter, data), index) =>
    .answered key data waiter (result index data)

def deliveryTimeout (batch : Batch) (possiblyWritten : Bool) : KrafkaError :=
  let last := (batch.lastError.map fun e => s!"; last error: {e.display}").getD ""
  .deliveryTimeout possiblyWritten
    s!"not acknowledged within delivery_timeout after {batch.attempts} attempt(s){last}"

def retryTimeout (batch : Batch) (error : KrafkaError) : KrafkaError :=
  match deliveryTimeout batch batch.maybeAppended with
  | .deliveryTimeout written message =>
    .deliveryTimeout written (message ++ s!"; last error: {error.display}")
  | timeout => timeout

def produceFailed (key : PartitionKey) (code : ErrorCode) : KrafkaError :=
  .broker code s!"produce to {key.1}-{key.2} failed"

namespace Engine

def queue (s : Engine) (key : PartitionKey) : PartitionQueue := (s.partitions.lookup key).getD {}

def setQueue (s : Engine) (key : PartitionKey) (queue : PartitionQueue) : Engine :=
  { s with partitions := s.partitions.insert key queue }

def modifyQueue (s : Engine) (key : PartitionKey) (f : PartitionQueue → PartitionQueue) : Engine :=
  { s with
    partitions :=
      match s.partitions.lookup key with
      | none => s.partitions
      | some queue => s.partitions.insert key (f queue) }

def emit (s : Engine) (events : List Event) : Engine := { s with trace := s.trace ++ events }

def release (s : Engine) (batch : Batch) : Engine :=
  { s with stampedUnresolved := s.stampedUnresolved - batch.stampCount }

/-- Fail a batch's records. A stamped batch spends its range: the idempotent producer
moves to the next epoch. -/
def fail (s : Engine) (key : PartitionKey) (batch : Batch) (error : KrafkaError) : Engine :=
  let s := s.release batch
  let s :=
    { s with bumpRequested := s.bumpRequested || (batch.stamp.isSome && s.mode = Mode.idempotent) }
  let s := s.modifyQueue key fun queue => { queue with backoffUntil := none }
  s.emit (.failed key batch.records :: answers key batch fun _ _ => .error error)

def failEach (s : Engine) (error : KrafkaError) (key : PartitionKey) (batches : List Batch) : Engine :=
  batches.foldl (fun s batch => s.fail key batch error) s

def failUnsentOf (error : KrafkaError) (s : Engine) (key : PartitionKey) : Engine :=
  match s.partitions.lookup key with
  | none => s
  | some queue => (s.setQueue key queue.clearUnsent).failEach error key queue.unsent

def failUnsent (s : Engine) (error : KrafkaError) : Engine :=
  s.active.keys.foldl (failUnsentOf error) s

def busy (s : Engine) : KeySet PartitionKey :=
  s.active.retain fun key => (s.partitions.lookup key).any fun queue => !queue.isIdle

def trims (s : Engine) : Bool := 4 * s.busy.len + 1024 < s.partitions.entries.length

def prune (s : Engine) : Engine :=
  { s with
    active := s.busy
    partitions :=
      if s.trims then
        s.partitions.retain fun key queue => key ∈ s.busy.keys || queue.lastAckedOffset.isSome
      else s.partitions }

def die (s : Engine) (error : KrafkaError) : Engine :=
  { s with
    sharedFatal := s.sharedFatal.or (some error)
    identity := .fatal error }

def fatal (s : Engine) (error : KrafkaError) : Engine :=
  let s := s.die error
  let s := if s.config.gate then s.emit [.gateSet .fatal] else s
  s.failUnsent error

/-! Commands -/

def append (s : Engine) (now : Instant) (append : Append) : Engine :=
  let record := { append.data with tag := s.arrivals }
  let waiter : Waiter := { tag := s.arrivals, txn := append.txn }
  let s := { s with arrivals := s.arrivals + 1 }.emit [.arrived append.key record]
  match s.identity with
  | .fatal error => s.emit [.answered append.key record waiter (.error error)]
  | _ =>
    let deadline := now + s.config.deliveryTimeout
    let sealNow := s.sealedThrough.any (append.generation ≤ ·)
    let queue := (s.queue append.key).accept now deadline s.config.batchSize sealNow record
      append.size append.generation waiter
    { s.setQueue append.key queue with active := s.active.insert append.key }.emit
      [.appended append.key record]

def sealActive (s : Engine) : Engine :=
  s.active.keys.foldl (fun s key => s.modifyQueue key PartitionQueue.sealOpen) s

def flush (s : Engine) (generation : Nat) : Engine :=
  sealActive { s with
    sealedThrough := some ((s.sealedThrough.map (max · generation)).getD generation) }

def adopt (s : Engine) (producerId epoch : Int) : Engine :=
  let identity := { producerId, epoch, generation := s.generation + 1 }
  { s with generation := s.generation + 1, identity := .ready identity }.emit
    [.identified identity]

def setIdentity (s : Engine) (producerId epoch : Int) (tv2 : Bool) : Engine :=
  let s := { s with mode := .transactional tv2 }
  match s.identity with
  | .ready identity =>
    if identity.producerId = producerId ∧ identity.epoch = epoch then s
    else s.adopt producerId epoch
  | _ => s.adopt producerId epoch

theorem setIdentity_eq (s : Engine) (producerId epoch : Int) (tv2 : Bool) :
    s.setIdentity producerId epoch tv2 = { s with mode := .transactional tv2 } ∨
      s.setIdentity producerId epoch tv2 =
        { s with mode := .transactional tv2 }.adopt producerId epoch := by
  unfold setIdentity
  dsimp only
  split
  · split_ifs
    · exact .inl rfl
    · exact .inr rfl
  · exact .inr rfl

def answerInFlight (s : Engine) (key : PartitionKey) (batch : Batch) (error : KrafkaError) : Engine :=
  (s.modifyQueue key fun queue =>
    { queue with inFlight := some { batch with waiters := none } }).emit
      (answers key batch fun _ _ => .error error)

def terminateOf (error : KrafkaError) (s : Engine) (key : PartitionKey) : Engine :=
  match s.partitions.lookup key with
  | none => s
  | some queue =>
    let s := s.setQueue key queue.clearUnsent
    let s := match queue.inFlight with
      | some batch => s.answerInFlight key batch error
      | none => s
    s.failEach error key queue.unsent

def terminateAll (s : Engine) (error : KrafkaError) : Engine :=
  s.active.keys.foldl (terminateOf error) (s.die error)

def terminate (s : Engine) (error : KrafkaError) : Engine := (s.terminateAll error).prune

def handle (s : Engine) (now : Instant) : Command → Engine
  | .append append => s.append now append
  | .flush generation => s.flush generation
  | .failUnsent error => (s.failUnsent error).prune
  | .setIdentity producerId epoch tv2 => s.setIdentity producerId epoch tv2
  | .terminate error => s.terminate error

/-! Time -/

/-- One partition's turn of `expire`: take its expired batches out, and answer the batch
on the wire when its deadline has passed. -/
def expireOf (now : Instant) (acc : Engine × List (PartitionKey × Batch)) (key : PartitionKey) :
    Engine × List (PartitionKey × Batch) :=
  let (s, taken) := acc
  match s.partitions.lookup key with
  | none => acc
  | some queue =>
    let taken := taken ++ (queue.expired now).map fun batch => (key, batch)
    let s := s.setQueue key (queue.clearExpired now)
    match queue.inFlight with
    | some batch =>
      if batch.waiters.isSome ∧ batch.deadline ≤ now then
        (s.answerInFlight key batch (deliveryTimeout batch true), taken)
      else (s, taken)
    | none => (s, taken)

def failTaken (s : Engine) (taken : List (PartitionKey × Batch)) : Engine :=
  taken.foldl (fun s (key, batch) =>
    s.fail key batch (deliveryTimeout batch batch.maybeAppended)) s

def expire (s : Engine) (now : Instant) : Engine :=
  let (s, taken) := s.active.keys.foldl (expireOf now) (s, [])
  s.failTaken taken

def nextWake (s : Engine) (now : Instant) : Instant :=
  let asked := s.active.keys.flatMap fun key =>
    ((s.partitions.lookup key).map fun queue => queue.wakes s.config.linger now).getD []
  max ((asked ++ s.nextRefreshAt.toList).foldl min (now + idleTick)) now

/-! Drain -/

def startReinit (s : Engine) : Engine :=
  if s.reinit then s else { s with identity := .init, reinit := true }

def applyBump (s : Engine) : Engine :=
  match s.identity with
  | .init => s.startReinit
  | .ready identity =>
    if !s.bumpRequested || 0 < s.stampedUnresolved then s
    else
      match identity.bumped (s.generation + 1) with
      | some next =>
        { s with
          generation := s.generation + 1
          identity := .ready next
          bumpRequested := false }.emit [.identified next]
      | none => s.startReinit
  | _ => s

def canStamp (s : Engine) : Bool :=
  match s.identity with
  | .plain => true
  | .ready _ => !s.bumpRequested
  | _ => false

def sendable (s : Engine) (now : Instant) (key : PartitionKey) : Bool :=
  (s.partitions.lookup key).any fun queue =>
    queue.inFlight.isNone && !queue.backoffUntil.any (now < ·) &&
      (queue.due s.config.linger now).any fun head =>
        !(s.mode.hasIdentity && head.stamp.isNone && !s.canStamp)

def requestRefresh (s : Engine) (topics : List String) (now : Instant) (delay : Nat → Duration) :
    Engine :=
  if topics.isEmpty || s.refresh.isSome || s.nextRefreshAt.any (now < ·) then s
  else
    { s with
      nextRefreshAt := some (now + delay 1)
      refresh := some (topics.insertionSort (· ≤ ·)).dedup }

/-- Stamp a batch under `identity`, advancing the partition's sequence past it. The count
is the record count as an `i32`. -/
def stampHead (s : Engine) (key : PartitionKey) (identity : Identity) (batch : Batch)
    (queue : PartitionQueue) : Engine × Batch × PartitionQueue :=
  let (stamp, seq) := queue.seq.stamp identity (min batch.len (sequenceSpace - 1))
  ({ s with stampedUnresolved := s.stampedUnresolved + 1 }.emit [.stamped key stamp batch.records],
   { batch with stamp := some stamp, encoded := none },
   { queue with seq })

def handOut (s : Engine) (broker : Int) (key : PartitionKey) (batch : Batch)
    (queue : PartitionQueue) : Engine × WireBatch :=
  let batch := { batch with attempts := batch.attempts + 1 }
  let wire : WireBatch :=
    { key, records := batch.records, stamp := batch.stamp, encoded := batch.encoded
      estimated := batch.bytes }
  ((s.setQueue key { queue with inFlight := some batch, backoffUntil := none }).emit
    [.handed broker wire], wire)

def stampOut (s : Engine) (broker : Int) (key : PartitionKey) (identity : Identity) (batch : Batch)
    (queue : PartitionQueue) : Engine × WireBatch :=
  let (s, batch, queue) := s.stampHead key identity batch queue
  s.handOut broker key batch queue

def fillRequest (identity : Option Identity) (broker : Int) :
    List PartitionKey → Engine → List WireBatch → Nat → Engine × List WireBatch
  | [], s, wire, _ => (s, wire)
  | key :: keys, s, wire, size =>
    match s.partitions.lookup key with
    | none => fillRequest identity broker keys s wire size
    | some queue =>
      let headBytes := (queue.head.map fun b =>
        b.bytes + perBatchOverhead + key.1.utf8ByteSize).getD 0
      let headAlone := queue.sealed.head?.any (·.alone)
      if !wire.isEmpty && (headAlone || s.config.maxRequestSize < size + headBytes) then
        fillRequest identity broker keys s wire size
      else
        match queue.popHead with
        | none => fillRequest identity broker keys s wire size
        | some (batch, queue) =>
          if s.mode.hasIdentity && batch.stamp.isNone then
            match identity with
            | none => fillRequest identity broker keys (s.setQueue key (queue.pushFront batch)) wire size
            | some id =>
              let out := s.stampOut broker key id batch queue
              if batch.alone then (out.1, wire ++ [out.2])
              else fillRequest identity broker keys out.1 (wire ++ [out.2]) (size + headBytes)
          else
            let out := s.handOut broker key batch queue
            if batch.alone then (out.1, wire ++ [out.2])
            else fillRequest identity broker keys out.1 (wire ++ [out.2]) (size + headBytes)

def startRequest (s : Engine) (broker : Int) (wire : List WireBatch) : Engine :=
  { s with
    brokers := Function.update s.brokers broker (s.brokers broker + 1)
    requests := s.requests ++ [{ serial := s.started, broker, wire }]
    started := s.started + 1 }

def drainBroker (identity : Option Identity) (ready : List (Int × PartitionKey)) (s : Engine)
    (broker : Int) : Engine :=
  let keys := (ready.filter (·.1 = broker)).map (·.2)
  let (s, wire) := fillRequest identity broker
    (keys.insertionSort fun a b => a.1 < b.1 ∨ a.1 = b.1 ∧ a.2 ≤ b.2) s [] perBatchOverhead
  if wire.isEmpty then s else s.startRequest broker wire

def target (s : Engine) (leader : PartitionKey → Option Int) (key : PartitionKey) :
    Option (Int × PartitionKey) :=
  ((leader key).filter fun broker => 0 ≤ broker ∧ s.brokers broker < maxInFlightPerBroker).map
    fun broker => (broker, key)

def readyKeys (s : Engine) (now : Instant) (leader : PartitionKey → Option Int) :
    List (Int × PartitionKey) :=
  (s.active.keys.filter (s.sendable now)).filterMap (s.target leader)

def leaderless (s : Engine) (now : Instant) (leader : PartitionKey → Option Int) : List String :=
  ((s.active.keys.filter (s.sendable now)).filter fun key =>
    ((leader key).filter (0 ≤ ·)).isNone).map (·.1)

def drain (s : Engine) (now : Instant) (leader : PartitionKey → Option Int)
    (delay : Nat → Duration) : Engine :=
  let s := s.applyBump
  let identity := s.identity.identity?
  let ready := s.readyKeys now leader
  let s := s.requestRefresh (s.leaderless now leader) now delay
  ((ready.map (·.1)).dedup.insertionSort (· ≤ ·)).foldl (drainBroker identity ready) s

/-! Completion -/

def retryOrFail (s : Engine) (now : Instant) (delay : Nat → Duration) (key : PartitionKey)
    (batch : Batch) (error : KrafkaError) (expired : Bool) : Engine :=
  if expired || batch.deadline ≤ now then s.fail key batch (retryTimeout batch error)
  else
    s.modifyQueue key fun queue =>
      { queue with backoffUntil := some (min (now + delay batch.attempts) batch.deadline) }.pushFront
        { batch with lastError := some error }

def ackMetadata (key : PartitionKey) (baseOffset logAppendTime : Int)
    (delivery : DeliveryConfirmation) (index : Nat) (data : RecordData) : RecordMetadata where
  topic := key.1
  partition := key.2
  offset := if 0 ≤ baseOffset then baseOffset + index else -1
  timestamp := if 0 ≤ logAppendTime then logAppendTime else data.timestamp
  delivery

def acknowledge (s : Engine) (key : PartitionKey) (batch : Batch) (baseOffset logAppendTime : Int)
    (delivery : DeliveryConfirmation) : Engine :=
  let s := s.release batch
  let s := s.modifyQueue key fun queue =>
    { queue with
      backoffUntil := none
      lastAckedOffset :=
        if 0 ≤ baseOffset then some (baseOffset + batch.len - 1) else queue.lastAckedOffset }
  s.emit (.acknowledged key batch.records :: answers key batch fun index data =>
    .ok (ackMetadata key baseOffset logAppendTime delivery index data))

def compressionUnsupported (s : Engine) (key : PartitionKey) : KrafkaError :=
  let codec := ((s.config.topicCompression.lookup key.1).getD s.config.compression).debug
  .broker .unsupportedCompressionType <|
    s!"the broker rejected {codec} compression for {key.1}-{key.2}. Choose a codec " ++
    "the cluster accepts with `.compression(..)` or `.topic_compression(..)`, or " ++
    "`Compression::None`"

def failureError (s : Engine) (key : PartitionKey) (code : ErrorCode) : Failure → KrafkaError
  | .broker =>
    if code = .unsupportedCompressionType then s.compressionUnsupported key
    else produceFailed key code
  | .outOfOrder =>
    .outOfOrderSequence key.1 key.2 <|
      s!"{code.debug}: an earlier batch of this producer is missing from the " ++
      "log; this batch was not written and the producer moved to a new epoch"
  | .abortable => .transactionAbortable
      s!"produce to {key.1}-{key.2} failed with {code.debug}"

def fatalError (key : PartitionKey) (code : ErrorCode) : KrafkaError :=
  if code = .producerFenced ∨ code = .invalidProducerEpoch then
    .fenced s!"{code.debug}: another producer with this identity took over"
  else produceFailed key code

def retract (s : Engine) (key : PartitionKey) (batch : Batch) : Engine :=
  (s.release batch).emit (batch.stamp.toList.map fun stamp => .retracted key stamp batch.records)

def restamp (s : Engine) (key : PartitionKey) (batch : Batch) (code : ErrorCode) : Engine :=
  let s := { s with epochRetryUsed := s.epochRetryUsed || code = ErrorCode.invalidProducerEpoch }
  { s.retract key batch with bumpRequested := true }.modifyQueue key (·.pushFront batch.unstamp)

/-- Send the two halves in the batch's place. A batch of one record is dropped here; the
callers never ask for that. -/
def splitBatch (s : Engine) (key : PartitionKey) (batch : Batch) (bump : Bool) : Engine :=
  let s := { s.retract key batch with bumpRequested := s.bumpRequested || bump }
  match batch.unstamp.split with
  | some (head, tail) => s.modifyQueue key fun queue => (queue.pushFront tail).pushFront head
  | none => s

def act (s : Engine) (now : Instant) (delay : Nat → Duration) (key : PartitionKey) (batch : Batch)
    (action : Action) (code : ErrorCode) (baseOffset logAppendTime : Int) (expired : Bool) : Engine :=
  match action with
  | .ack duplicate =>
    s.acknowledge key batch baseOffset logAppendTime
      (if duplicate && baseOffset < 0 then .deduplicated else .offset)
  | .retry => s.retryOrFail now delay key batch (produceFailed key code) expired
  | .restamp =>
    if !expired && now < batch.deadline then s.restamp key batch code
    else s.fail key batch (deliveryTimeout batch batch.maybeAppended)
  | .split bump =>
    if !expired && now < batch.deadline && batch.splitDepth < maxSplitDepth then
      s.splitBatch key batch bump
    else s.fail key batch (.broker code s!"batch for {key.1}-{key.2} is too large")
  | .fail failure _ => s.fail key batch (s.failureError key code failure)
  | .fatal => (s.fail key batch (fatalError key code)).fatal (fatalError key code)

def answerAction (s : Engine) (key : PartitionKey) (batch : Batch) (code : ErrorCode)
    (logStartOffset : Int) : Action :=
  classify
    { mode := s.mode, recordCount := batch.len
      lastAckedOffset := (s.queue key).lastAckedOffset, epochRetryUsed := s.epochRetryUsed }
    { code, logStartOffset }

def tooLargeAction (s : Engine) (batch : Batch) : Action :=
  if 1 < batch.len && !s.mode.isTransactional then .split batch.stamp.isSome
  else .fail (if s.mode.isTransactional then .abortable else .broker) (s.mode = .idempotent)

def resolve (s : Engine) (now : Instant) (delay : Nat → Duration) (key : PartitionKey)
    (batch : Batch) (outcome : BatchOutcome) : Engine :=
  let expired := batch.waiters.isNone
  let batch := batch.marked outcome
  match outcome with
  | .unacknowledged => s.acknowledge key batch (-1) (-1) .unacknowledged
  | .answer code baseOffset logAppendTime logStartOffset =>
    s.act now delay key batch (s.answerAction key batch code logStartOffset) code baseOffset
      logAppendTime expired
  | .noAnswer error => s.retryOrFail now delay key batch error expired
  | .notWritten error =>
    if error.isRetriable then s.retryOrFail now delay key batch error expired
    else s.fail key batch error
  | .tooLarge =>
    s.act now delay key batch (s.tooLargeAction batch) .messageTooLarge (-1) (-1) expired

def endAttempt (s : Engine) (key : PartitionKey) (queue : PartitionQueue) (batch : Batch)
    (outcome : BatchOutcome) : Engine :=
  (s.setQueue key { queue with inFlight := none }).emit
    [.ended key batch.records batch.stamp outcome]

def completeResult (now : Instant) (delay : Nat → Duration) (s : Engine) (result : BatchResult) :
    Engine :=
  match s.partitions.lookup result.key with
  | none => s
  | some queue =>
    match queue.inFlight with
    | none => s
    | some batch =>
      (s.endAttempt result.key queue batch result.outcome).resolve now delay result.key
        { batch with encoded := result.encoded.or batch.encoded } result.outcome

def completeAll (s : Engine) (now : Instant) (delay : Nat → Duration) (done : RequestDone) : Engine :=
  let s := { s with brokers := Function.update s.brokers done.broker (s.brokers done.broker - 1) }
  done.results.foldl (completeResult now delay) s

def complete (s : Engine) (now : Instant) (delay : Nat → Duration) (done : RequestDone) : Engine :=
  (s.completeAll now delay done).prune

def reinitialised (s : Engine) (result : Result (Int × Int)) : Engine :=
  let s := { s with reinit := false }
  match result with
  | .ok (producerId, epoch) => { s.adopt producerId epoch with bumpRequested := false }
  | .error error => if error.isRetriable then s else s.fatal error

def close (s : Engine) : Engine :=
  sealActive { s with channelClosed := true, sealedThrough := some (2 ^ 64 - 1) }

end Engine

end Krafka.Producer
