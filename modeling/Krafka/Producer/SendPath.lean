import Krafka.Producer.Flush
import Krafka.Producer.Sizes
import Krafka.Producer.Stamping

/-! The send path in front of the engine: `on_send`, validation, routing, registration, the wait
for buffer memory and the hand-off. Any number of calls run at once, each of which may be dropped
wherever it waits; behind them are the channel and the engine. What is followed is the context that
`on_send` fills and `on_acknowledgement` is owed, and the memory that a record reserves. -/

namespace Krafka.Producer

/-! ## Records -/

structure ProducerRecord where
  topic : String
  partition : Option Int := none
  key : Option Bytes := none
  value : Option Bytes := none
  timestamp : Option Int := none
  headers : List (String × Option Bytes) := []

def unknownPartition : Int := -1

def maxTopicNameLen : Nat := 249
def maxRecordHeaders : Nat := 10000

def topicByte (byte : UInt8) : Bool :=
  let char := Char.ofNat byte.toNat
  byte < 128 && (char.isAlphanum || char = '.' || char = '_' || char = '-')

def hexByte (byte : UInt8) : String :=
  let digits := String.ofList ((Nat.toDigits 16 byte.toNat).map Char.toUpper)
  if byte < 16 then "0" ++ digits else digits

def validateTopicName (name : String) : Result Unit :=
  if name.isEmpty then .error (.protocol .invalidValue "topic name cannot be empty")
  else if maxTopicNameLen < name.utf8ByteSize then
    .error (.protocol .invalidLength
      s!"topic name length {name.utf8ByteSize} exceeds maximum of {maxTopicNameLen}")
  else
    match name.toUTF8.data.toList.find? (!topicByte ·) with
    | some bad =>
      let digits := hexByte bad
      .error (.protocol .invalidValue
        s!"topic name contains illegal character 0x{digits}; only [a-zA-Z0-9._-] is allowed")
    | none => .ok ()

def checkLength (what : String) (length : Nat) : Result Unit :=
  if 2 ^ 31 - 1 < length then
    .error (.protocol .invalidLength
      s!"{what} length {length} exceeds protocol limit of {2 ^ 31 - 1}")
  else .ok ()

def checkNullable (what : String) : Option Bytes → Result Unit
  | some bytes => checkLength what bytes.length
  | none => .ok ()

namespace ProducerRecord

variable (record : ProducerRecord)

def validate : Result Unit := do
  validateTopicName record.topic
  checkNullable "record key" record.key
  checkNullable "record value" record.value
  if maxRecordHeaders < record.headers.length then
    throw (.protocol .invalidLength
      s!"record has {record.headers.length} headers, exceeding limit of {maxRecordHeaders}")
  record.headers.zipIdx.forM fun (header, index) => do
    checkLength s!"header[{index}] key" header.1.utf8ByteSize
    checkNullable s!"header[{index}] value" header.2

def estimatedSize : Nat :=
  RecordData.estimatedSize record.topic
    { key := record.key, value := record.value, headers := record.headers }

end ProducerRecord

structure RoutedRecord where
  key : Option Bytes := none
  value : Option Bytes := none
  timestamp : Option Int := none
  headers : List (String × Option Bytes) := []

def RoutedRecord.data (record : RoutedRecord) (now : Int) : RecordData where
  key := record.key
  value := record.value
  headers := record.headers
  timestamp := record.timestamp.getD now

/-! ## The obligation -/

/-- What the two hooks share about a record. The source tells contexts apart by ownership, the
model by the call whose `on_send` filled them. -/
structure RecordContext where
  filledBy : Option Nat := none
  deriving DecidableEq

structure Acknowledgement where
  topic : String
  partition : Int
  result : Result RecordMetadata
  headers : List (String × Option Bytes)
  context : RecordContext

inductive Fate where
  | acknowledged (ack : Acknowledgement)
  | abandoned (context : RecordContext)

structure SendObligation where
  topic : String
  /-- `none` once discharged. -/
  context : Option RecordContext
  suspended : Bool := false

namespace SendObligation

variable (obligation : SendObligation)

def fail (partition : Int) (headers : List (String × Option Bytes)) (error : KrafkaError) :
    List Fate :=
  (obligation.context.map fun context =>
    .acknowledged { topic := obligation.topic, partition, result := .error error, headers, context }).toList

def takeContext : RecordContext × SendObligation :=
  (obligation.context.getD {}, { obligation with context := none })

def dropError : KrafkaError :=
  if obligation.suspended then
    .closed "the send was cancelled before the record was queued"
  else
    .illegalState "krafka bug: a record ran on_send but no on_acknowledgement was reported"

def drop (panicking : Bool) : List Fate :=
  if panicking then (obligation.context.map Fate.abandoned).toList
  else obligation.fail unknownPartition [] obligation.dropError

end SendObligation

/-- `SendObligation::on_send` for the record as the hook left it; `panicked` is the place in the
chain of an interceptor that did. Any other failure of a hook is only logged. -/
def onSend (call : Nat) (record : ProducerRecord) (panicked : Option Nat) :
    Except (KrafkaError × List Fate) SendObligation :=
  let obligation := { topic := record.topic, context := some { filledBy := some call } }
  match panicked with
  | none => .ok obligation
  | some index =>
    let error :=
      .illegalState s!"producer interceptor {index} panicked in on_send; the record was not sent"
    .error (error, obligation.fail unknownPartition record.headers error)

/-! ## One call -/

structure Send where
  txn : Bool
  obligation : SendObligation
  record : RoutedRecord
  size : Nat

structure Parcel where
  context : RecordContext
  bytes : Nat

structure EnqueueRejected where
  error : KrafkaError
  context : RecordContext
  record : RoutedRecord

inductive SendStage where
  | check (record : ProducerRecord)
  | reinit (record : ProducerRecord)
  | refuse (record : ProducerRecord) (error : KrafkaError)
  | enqueue (txn : Bool) (record : ProducerRecord)
  | route (send : Send) (requested : Option Int)
  | register (send : Send) (partition : Int)
  | memory (send : Send) (partition : Int)
  | reserved (send : Send) (partition : Int) (bytes : Nat)
  | hand (send : Send) (waiter : Parcel) (append : Append)
  | rejected (send : Send) (partition : Int) (rejection : EnqueueRejected)
  | returned (result : Result Int)
  | dropped

inductive MemoryOutcome where
  | granted | closed | elapsed

inductive SendAnswer where
  | go
  | done (result : Result Unit)
  | hook (record : ProducerRecord) (panicked : Option Nat)
  | partitions (count : Result Nat) (chosen : Int)
  | memory (outcome : MemoryOutcome)
  | admission (generation : Result Nat) (ticket : Result Unit) (now : Int)
  | sent (accepted : Bool)

structure Polled where
  stage : SendStage
  told : List Fate := []
  posted : Option (Parcel × Append) := none
  taken : Nat := 0
  freed : Nat := 0
  opened : Bool := false

structure Limits where
  fatal : Option KrafkaError
  memoryCapacity : Nat
  maxRequestSize : Nat
  free : Nat

def maxPermits : Nat := 2 ^ 61 - 1

def semaphoreLimit : Nat := min maxPermits (2 ^ 32 - 1)

def effectiveMemoryCapacity (bufferMemory : Nat) : Nat := min bufferMemory maxPermits

def checkRecordAdmission (recordSize memoryCapacity maxRequestSize : Nat) :
    Result Unit :=
  if semaphoreLimit < recordSize then
    .error (.config (s!"record size {recordSize} B exceeds the largest reservation the producer " ++
      s!"can make ({semaphoreLimit} B)"))
  else if maxRequestSize < recordSize then
    .error (.config (s!"record size {recordSize} B exceeds max_request_size ({maxRequestSize} B); " ++
      "the broker would reject it with MESSAGE_TOO_LARGE — raise max_request_size or shrink the " ++
      "record"))
  else if memoryCapacity < recordSize then
    .error (.config (s!"record size {recordSize} B exceeds buffer_memory ({memoryCapacity} B); " ++
      "raise buffer_memory or shrink the record"))
  else .ok ()

def resolvePartition (topic : String) (requested : Option Int) (count : Result Nat)
    (chosen : Int) : Result Int := do
  let count ← count
  let (partition, source) :=
    match requested with
    | some partition => (partition, "invalid partition given with record")
    | none => (chosen, "the partitioner returned partition")
  if partition < 0 ∨ (count : Int) ≤ partition then
    throw (.config (s!"{source} {partition}, which is not in the range [0, {count}) for topic " ++
      topic))
  return partition

namespace Send

variable (send : Send)

def suspend : Send := { send with obligation := { send.obligation with suspended := true } }

def resume : Send := { send with obligation := { send.obligation with suspended := false } }

def fail (partition : Int) (error : KrafkaError) : Polled where
  stage := .returned (.error error)
  told := send.obligation.fail partition send.record.headers error

def reject (partition : Int) (error : KrafkaError) : Polled :=
  let (context, obligation) := send.obligation.takeContext
  { stage := .rejected { send with obligation } partition { error, context, record := send.record } }

def accumulate (limits : Limits) (partition : Int) : Polled :=
  match limits.fatal with
  | some error => send.reject partition error
  | none =>
    match checkRecordAdmission send.size limits.memoryCapacity limits.maxRequestSize with
    | .error error => send.reject partition error
    | .ok () => { stage := .memory send.suspend partition }

def engineStopped : KrafkaError := .closed "the producer's send engine stopped"

def permits : Nat := if send.size < 2 ^ 32 then send.size else 2 ^ 32 - 1

def reserve (limits : Limits) (partition : Int) : MemoryOutcome → Polled
  | .granted =>
    if send.permits ≤ limits.free then
      { stage := .reserved send.resume partition send.size, taken := send.permits }
    else { stage := .memory send partition }
  | .closed => send.resume.reject partition engineStopped
  | .elapsed =>
    send.resume.reject partition (.timeout "max_block elapsed while waiting for buffer memory")

def proceed (partition : Int) (bytes : Nat) (generation : Result Nat)
    (ticket : Result Unit) (now : Int) : Polled :=
  match generation with
  | .error error => { send.reject partition error with freed := bytes }
  | .ok generation =>
    -- the plain producer has no gate to pass
    match if send.txn then ticket else .ok () with
    | .error error => { send.reject partition error with freed := bytes }
    | .ok () =>
      let (context, obligation) := send.obligation.takeContext
      { stage := .hand { send with obligation } { context, bytes }
          { topic := send.obligation.topic, partition, data := send.record.data now
            size := send.size, generation, txn := send.txn } }

end Send

def RecordData.routed (data : RecordData) : RoutedRecord where
  key := data.key
  value := data.value
  timestamp := some data.timestamp
  headers := data.headers

def refuseSend (call : Nat) (record : ProducerRecord) (panicked : Option Nat) (error : KrafkaError) :
    Polled where
  stage := .returned (.error error)
  opened := true
  told :=
    match onSend call record panicked with
    | .ok obligation => obligation.fail unknownPartition record.headers error
    | .error (_, told) => told

def enqueueRecord (call : Nat) (txn : Bool) (record : ProducerRecord) (panicked : Option Nat) :
    Polled :=
  match onSend call record panicked with
  | .error (error, told) => { stage := .returned (.error error), told, opened := true }
  | .ok obligation =>
    let send : Send :=
      { txn, obligation, size := record.estimatedSize
        record := { key := record.key, value := record.value, timestamp := record.timestamp
                    headers := record.headers } }
    match record.validate with
    | .error error => { send.fail unknownPartition error with opened := true }
    | .ok () => { stage := .route send.suspend record.partition, opened := true }

namespace SendStage

def poll (limits : Limits) (call : Nat) : SendStage → SendAnswer → Polled
  | .check record, .done (.ok ()) => { stage := .reinit record }
  | .check record, .done (.error error) => { stage := .refuse record error }
  | .reinit record, .done (.ok ()) => { stage := .enqueue true record }
  | .reinit record, .done (.error error) => { stage := .refuse record error }
  | .refuse _ error, .hook record panicked => refuseSend call record panicked error
  | .enqueue txn _, .hook record panicked => enqueueRecord call txn record panicked
  | .route send requested, .partitions count chosen =>
    match resolvePartition send.obligation.topic requested count chosen with
    | .error error => send.resume.fail unknownPartition error
    | .ok partition => { stage := .register send partition }
  | .register send partition, .done result =>
    -- the plain producer registers nothing
    match if send.txn then result else .ok () with
    | .error error => send.resume.fail partition error
    | .ok () => send.resume.accumulate limits partition
  | .memory send partition, .memory outcome => send.reserve limits partition outcome
  | .reserved send partition bytes, .admission generation ticket now =>
    send.proceed partition bytes generation ticket now
  | .hand _ waiter append, .sent true =>
    { stage := .returned (.ok append.partition), posted := some (waiter, append) }
  | .hand send waiter append, .sent false =>
    { stage := .rejected send append.partition
        { error := Send.engineStopped, context := waiter.context, record := append.data.routed }
      freed := waiter.bytes }
  | .rejected send partition rejection, .go =>
    -- the obligation is opened again
    { stage := .returned (.error rejection.error)
      told := { send.obligation with context := some rejection.context }.fail partition
        rejection.record.headers rejection.error }
  | stage, _ => { stage }

def awaits : SendStage → Bool
  | .check _ | .reinit _ | .route _ _ | .register _ _ | .memory _ _ => true
  | .enqueue txn _ => !txn
  | _ => false

def finished : SendStage → Bool
  | .returned _ | .dropped => true
  | _ => false

def fates (panicking : Bool) : SendStage → List Fate
  | .route send _ | .register send _ | .memory send _ => send.obligation.drop panicking
  | _ => []

end SendStage

/-! ## The calls and the engine -/

def answeredTags (history : List Event) : List Nat := (settledIn history).map (·.2)

structure Sends where
  engine : Engine
  memoryCapacity : Nat
  free : Nat
  calls : List SendStage := []
  channel : List Command := []
  /-- The call of each record that was sent to the engine, with its waiter. The engine takes them
  in order: the place is the record's tag. -/
  handed : List (Nat × Parcel) := []
  told : List (Nat × Fate) := []
  opened : List Nat := []

inductive SendInput where
  | call (txn : Bool) (record : ProducerRecord)
  | poll (call : Nat) (answer : SendAnswer)
  | drop (call : Nat) (panicking : Bool)
  | post (command : Command)
  | receive (now : Instant)
  | engine (input : Input)

def SendInput.unwinds : SendInput → Bool
  | .drop _ panicking => panicking
  | _ => false

namespace Sends

def spawn (config : EngineConfig) (bufferMemory : Nat) : Sends where
  engine := .spawn config
  memoryCapacity := effectiveMemoryCapacity bufferMemory
  free := effectiveMemoryCapacity bufferMemory

variable (s : Sends)

def limits : Limits where
  fatal := s.engine.sharedFatal
  memoryCapacity := s.memoryCapacity
  maxRequestSize := s.engine.config.maxRequestSize
  free := s.free

def settle (call : Nat) (polled : Polled) : Sends :=
  { s with
    calls := s.calls.set call polled.stage
    channel := s.channel ++ polled.posted.toList.map fun posted => .append posted.2
    handed := s.handed ++ polled.posted.toList.map fun posted => (call, posted.1)
    told := s.told ++ polled.told.map (call, ·)
    free := s.free - polled.taken + polled.freed
    opened := if polled.opened then s.opened ++ [call] else s.opened }

def advance (input : Input) : Sends :=
  let engine := s.engine.step input
  { s with
    engine
    free := s.free + ((answeredTags (engine.trace.drop s.engine.trace.length)).filterMap
      fun tag => s.handed[tag]?.map (·.2.bytes)).sum }

def released : Bool := s.channel.isEmpty && s.calls.all SendStage.finished

def step : SendInput → Sends
  | .call txn record =>
    if s.engine.channelClosed then s
    else { s with calls := s.calls ++ [if txn then .check record else .enqueue false record] }
  | .poll call answer =>
    match s.calls[call]? with
    | some stage => s.settle call (stage.poll s.limits call answer)
    | none => s
  | .drop call panicking =>
    match s.calls[call]? with
    | some stage =>
      if stage.awaits then s.settle call { stage := .dropped, told := stage.fates panicking } else s
    | none => s
  | .post command =>
    if s.engine.channelClosed || command.isAppend then s
    else { s with channel := s.channel ++ [command] }
  | .receive now =>
    match s.channel with
    | [] => s
    | command :: channel => { s with channel }.advance (.command now command)
  | .engine input =>
    match input with
    | .command _ _ => s
    | .closed => if s.released then s.advance .closed else s
    | _ => s.advance input

def run (config : EngineConfig) (bufferMemory : Nat) (inputs : List SendInput) : Sends :=
  inputs.foldl step (spawn config bufferMemory)

end Sends

end Krafka.Producer
