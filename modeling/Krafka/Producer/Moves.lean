import Krafka.Producer.Run

/-! Every step of the engine, cut into moves. Between two moves a batch may be outside the
queues: just off the wire, or taken out to be failed. `Custody` keeps those beside the
engine, so each invariant is proved once per move and holds in the middle of a step too. -/

namespace Krafka.Producer

structure Custody where
  engine : Engine
  wire : List WireBatch := []
  /-- The batch whose attempt has just ended. -/
  inHand : Option (PartitionKey × Batch × BatchOutcome) := none
  doomed : List (PartitionKey × Batch) := []

def Custody.rest (s : Engine) : Custody := { engine := s }

structure Policy where
  append : Engine → Instant → Append → Prop := fun _ _ _ => True
  error : KrafkaError → Prop := fun _ => True
  setIdentity : Engine → Prop := fun _ => True
  bump : Engine → Prop := fun _ => True
  adopt : Engine → Int → Int → Prop := fun _ _ _ => True
  outcome : WireBatch → BatchOutcome → Prop := fun _ _ => True
  retry : Engine → PartitionKey → Batch → BatchOutcome → Prop := fun _ _ _ _ => True
  restamp : Engine → PartitionKey → Batch → BatchOutcome → Prop := fun _ _ _ _ => True
  split : Engine → PartitionKey → Batch → BatchOutcome → Prop := fun _ _ _ _ => True
  prune : Engine → Prop := fun _ => True

def Policy.Credible (p : Policy) (error : KrafkaError) : Prop :=
  p.error error ∨ ∀ message, error ≠ .deliveryTimeout false message

def BatchOutcome.Settles : BatchOutcome → Prop
  | .unacknowledged => True
  | .answer code _ _ _ => code = .none
  | _ => False

def BatchOutcome.Acknowledges (mode : Mode) : BatchOutcome → Prop
  | .unacknowledged => True
  | .answer code _ _ _ => code = .none ∨ code = .duplicateSequenceNumber ∧ mode.hasIdentity
  | _ => False

def Batch.HonestError (batch : Batch) (error : KrafkaError) : Prop :=
  ∀ message, error = .deliveryTimeout false message → batch.maybeAppended = false

open Engine

inductive Move (p : Policy) : Custody → Custody → Prop
  | append {s : Engine} (now : Instant) (append : Append) (allowed : p.append s now append) :
      Move p (.rest s) (.rest (s.append now append))
  | sealOpen {s : Engine} (key : PartitionKey) :
      Move p (.rest s) (.rest (s.modifyQueue key PartitionQueue.sealOpen))
  | takeUnsent {s : Engine} {wire doomed} (key : PartitionKey) {queue : PartitionQueue}
      (present : s.partitions.lookup key = some queue) :
      Move p ⟨s, wire, none, doomed⟩
        ⟨s.setQueue key queue.clearUnsent, wire, none, doomed ++ queue.unsent.map (key, ·)⟩
  | takeExpired {s : Engine} {wire doomed} (now : Instant) (key : PartitionKey)
      {queue : PartitionQueue} (present : s.partitions.lookup key = some queue) :
      Move p ⟨s, wire, none, doomed⟩
        ⟨s.setQueue key (queue.clearExpired now), wire, none,
          doomed ++ (queue.expired now).map (key, ·)⟩
  | fail {s : Engine} {wire doomed} (key : PartitionKey) (batch : Batch) (error : KrafkaError)
      (honest : p.error error ∨ batch.HonestError error) :
      Move p ⟨s, wire, none, (key, batch) :: doomed⟩ ⟨s.fail key batch error, wire, none, doomed⟩
  | answerInFlight {s : Engine} {wire doomed} (key : PartitionKey) {queue : PartitionQueue}
      {batch : Batch} (error : KrafkaError) (present : s.partitions.lookup key = some queue)
      (slot : queue.inFlight = some batch) (credible : p.Credible error) :
      Move p ⟨s, wire, none, doomed⟩ ⟨s.answerInFlight key batch error, wire, none, doomed⟩
  | bump {s : Engine} {identity next : Identity} (ready : s.identity = .ready identity)
      (requested : s.bumpRequested) (clear : s.stampedUnresolved = 0)
      (bumped : identity.bumped (s.generation + 1) = some next) (allowed : p.bump s) :
      Move p (.rest s) (.rest ({ s with
        generation := s.generation + 1
        identity := .ready next
        bumpRequested := false }.emit [.identified next]))
  | reinit {s : Engine} (idle : s.reinit = false)
      (due : s.identity = .init ∨
        ∃ identity, s.identity = .ready identity ∧ s.stampedUnresolved = 0) (allowed : p.bump s) :
      Move p (.rest s) (.rest { s with identity := .init, reinit := true })
  | reinitDone {s : Engine} : Move p (.rest s) (.rest { s with reinit := false })
  | adopt {s : Engine} (producerId epoch : Int) (running : s.reinit)
      (allowed : p.adopt s producerId epoch) :
      Move p (.rest s) (.rest (s.reinitialised (.ok (producerId, epoch))))
  | setIdentity {s : Engine} (producerId epoch : Int) (tv2 : Bool) (allowed : p.setIdentity s) :
      Move p (.rest s) (.rest (s.setIdentity producerId epoch tv2))
  | die {s : Engine} {wire} (error : KrafkaError) :
      Move p ⟨s, wire, none, []⟩ ⟨s.die error, wire, none, []⟩
  | gate {s : Engine} {wire} (configured : s.config.gate) :
      Move p ⟨s, wire, none, []⟩ ⟨s.emit [.gateSet .fatal], wire, none, []⟩
  | putBack {s : Engine} {wire} (key : PartitionKey) {queue left : PartitionQueue} {batch : Batch}
      (present : s.partitions.lookup key = some queue)
      (head : queue.popHead = some (batch, left)) :
      Move p ⟨s, wire, none, []⟩ ⟨s.setQueue key (left.pushFront batch), wire, none, []⟩
  | handOut {s : Engine} {wire} (broker : Int) (key : PartitionKey) {queue left : PartitionQueue}
      {batch : Batch} (present : s.partitions.lookup key = some queue)
      (free : queue.inFlight = none) (head : queue.popHead = some (batch, left))
      (ready : s.mode.hasIdentity → batch.stamp.isSome) :
      Move p ⟨s, wire, none, []⟩
        ⟨(s.handOut broker key batch left).1, wire ++ [(s.handOut broker key batch left).2],
          none, []⟩
  | stampOut {s : Engine} {wire} (broker : Int) (key : PartitionKey) {queue left : PartitionQueue}
      {batch : Batch} {identity : Identity} (present : s.partitions.lookup key = some queue)
      (free : queue.inFlight = none) (head : queue.popHead = some (batch, left))
      (fresh : batch.stamp = none) (mode : s.mode.hasIdentity)
      (ready : s.identity = .ready identity) (still : s.bumpRequested = false) :
      Move p ⟨s, wire, none, []⟩
        ⟨(s.stampOut broker key identity batch left).1,
          wire ++ [(s.stampOut broker key identity batch left).2], none, []⟩
  | startRequest {s : Engine} {wire} (broker : Int) (filled : wire ≠ []) :
      Move p ⟨s, wire, none, []⟩ (.rest (s.startRequest broker wire))
  | finishRequest {s : Engine} (request : Request) (known : request ∈ s.requests) :
      Move p (.rest s)
        ⟨{ s with
            requests := s.requests.erase request
            brokers := Function.update s.brokers request.broker (s.brokers request.broker - 1) },
          request.wire, none, []⟩
  | skipResult {s : Engine} {wire} (sent : WireBatch) (carried : sent ∈ wire)
      (free : (s.queue sent.key).inFlight = none) :
      Move p ⟨s, wire, none, []⟩ ⟨s, wire.erase sent, none, []⟩
  | endAttempt {s : Engine} {wire} (sent : WireBatch) {queue : PartitionQueue} {batch : Batch}
      (encoded : Option Bytes) (outcome : BatchOutcome) (carried : sent ∈ wire)
      (present : s.partitions.lookup sent.key = some queue) (slot : queue.inFlight = some batch)
      (allowed : p.outcome sent outcome) :
      Move p ⟨s, wire, none, []⟩
        ⟨s.endAttempt sent.key queue batch outcome, wire.erase sent,
          some (sent.key, { batch with encoded := encoded.or batch.encoded }.marked outcome, outcome),
          []⟩
  | acknowledge {s : Engine} {wire} {key : PartitionKey} {batch : Batch} {outcome : BatchOutcome}
      (baseOffset logAppendTime : Int) (delivery : DeliveryConfirmation)
      (present : key ∈ s.partitions) (acknowledges : outcome.Acknowledges s.mode) :
      Move p ⟨s, wire, some (key, batch, outcome), []⟩
        ⟨s.acknowledge key batch baseOffset logAppendTime delivery, wire, none, []⟩
  | condemn {s : Engine} {wire} {key : PartitionKey} {batch : Batch} {outcome : BatchOutcome}
      (unsettled : ¬outcome.Settles) :
      Move p ⟨s, wire, some (key, batch, outcome), []⟩ ⟨s, wire, none, [(key, batch)]⟩
  | retry {s : Engine} {wire} {key : PartitionKey} {queue : PartitionQueue} {batch : Batch}
      {outcome : BatchOutcome} (wait : Instant) (error : KrafkaError)
      (present : s.partitions.lookup key = some queue) (live : batch.waiters.isSome)
      (unsettled : ¬outcome.Settles) (allowed : p.retry s key batch outcome) :
      Move p ⟨s, wire, some (key, batch, outcome), []⟩
        ⟨s.setQueue key ({ queue with backoffUntil := some wait }.pushFront
            { batch with lastError := some error }), wire, none, []⟩
  | restamp {s : Engine} {wire} {key : PartitionKey} {batch : Batch} {outcome : BatchOutcome}
      (code : ErrorCode) (present : key ∈ s.partitions) (live : batch.waiters.isSome)
      (mode : s.mode = .idempotent) (unsettled : ¬outcome.Settles)
      (allowed : p.restamp s key batch outcome) :
      Move p ⟨s, wire, some (key, batch, outcome), []⟩ ⟨s.restamp key batch code, wire, none, []⟩
  | split {s : Engine} {wire} {key : PartitionKey} {batch : Batch} {outcome : BatchOutcome}
      (bump : Bool) (present : key ∈ s.partitions) (live : batch.waiters.isSome)
      (several : 1 < batch.len) (mode : s.mode.isTransactional = false)
      (bumps : s.mode = .idempotent → batch.stamp.isSome → bump)
      (unsettled : ¬outcome.Settles) (allowed : p.split s key batch outcome) :
      Move p ⟨s, wire, some (key, batch, outcome), []⟩
        ⟨s.splitBatch key batch bump, wire, none, []⟩
  | prune {s : Engine} (allowed : p.prune s) : Move p (.rest s) (.rest s.prune)
  | reorder {s : Engine} (order : List PartitionKey) : Move p (.rest s) (.rest (s.reorder order))
  | book {s : Engine} (sealedThrough : Option Nat) (refresh : Option (List String))
      (nextRefreshAt : Option Instant) (channelClosed : Bool) :
      Move p (.rest s) (.rest { s with sealedThrough, refresh, nextRefreshAt, channelClosed })

abbrev Moves (p : Policy) : Custody → Custody → Prop := Relation.ReflTransGen (Move p)

def Engine.verdict (s : Engine) (key : PartitionKey) (batch : Batch) : BatchOutcome → Action
  | .unacknowledged => .ack false
  | .answer code _ _ logStartOffset => s.answerAction key batch code logStartOffset
  | .noAnswer _ => .retry
  | .notWritten error => if error.isRetriable then .retry else .fail .broker false
  | .tooLarge => s.tooLargeAction batch

def Batch.Live (batch : Batch) (now : Instant) : Prop :=
  batch.waiters.isSome ∧ now < batch.deadline

namespace Policy

variable (p : Policy)

def AllowsError : BatchOutcome → Prop
  | .notWritten error | .noAnswer error => p.error error
  | _ => True

def AllowsVerdict (s : Engine) (now : Instant) (key : PartitionKey) (batch : Batch)
    (outcome : BatchOutcome) : Prop :=
  match s.verdict key batch outcome with
  | .retry => batch.Live now → p.retry s key batch outcome
  | .restamp => batch.Live now → p.restamp s key batch outcome
  | .split _ =>
    batch.Live now → batch.splitDepth < maxSplitDepth → p.split s key batch outcome
  | _ => True

def AllowsResult (s : Engine) (now : Instant) (result : BatchResult) : Prop :=
  match s.partitions.lookup result.key with
  | none => True
  | some queue =>
    match queue.inFlight with
    | none => True
    | some batch =>
      p.AllowsVerdict (s.endAttempt result.key queue batch result.outcome) now result.key
        ({ batch with encoded := result.encoded.or batch.encoded }.marked result.outcome)
        result.outcome

def AllowsResults (now : Instant) (delay : Nat → Duration) : Engine → List BatchResult → Prop
  | _, [] => True
  | s, result :: results =>
    p.AllowsResult s now result ∧ AllowsResults now delay (completeResult now delay s result) results

def AllowsCompletion (s : Engine) (now : Instant) (delay : Nat → Duration) (request : Request)
    (results : List BatchResult) : Prop :=
  let done : RequestDone := { broker := request.broker, results }
  let s := { s with requests := s.requests.erase request }
  (∀ result ∈ results, p.AllowsError result.outcome ∧
    ∀ sent ∈ request.wire, sent.key = result.key → p.outcome sent result.outcome) ∧
  p.AllowsResults now delay
    { s with
      brokers := Function.update s.brokers request.broker (s.brokers request.broker - 1) } results ∧
  p.prune (s.completeAll now delay done)

def Allows (s : Engine) : Input → Prop
  | .command now (.append append) => p.append s now append
  | .command _ (.failUnsent error) => p.error error ∧ p.prune (s.failUnsent error)
  | .command _ (.terminate error) => p.error error ∧ p.prune (s.terminateAll error)
  | .command _ (.setIdentity _ _ _) => p.setIdentity s
  | .drain _ _ _ => p.bump s
  | .complete now delay serial results =>
    match s.requests.find? (·.serial = serial) with
    | none => True
    | some request => request.AnsweredBy results → p.AllowsCompletion s now delay request results
  | .reinitialised (.ok (producerId, epoch)) => s.reinit → p.adopt s producerId epoch
  | .reinitialised (.error error) => p.error error
  | _ => True

end Policy

end Krafka.Producer
