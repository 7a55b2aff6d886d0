import Krafka.Error
import Mathlib.Logic.Basic

/-! Producer identity, batch stamps, and what a produce outcome means for them. -/

namespace Krafka.Producer

structure Identity where
  producerId : Int
  epoch : Int
  generation : Nat

def maxEpoch : Int := 32767

def Identity.bumped (identity : Identity) (generation : Nat) : Option Identity :=
  if identity.epoch < maxEpoch - 1 then
    some { identity with epoch := identity.epoch + 1, generation }
  else none

structure BatchIdentity where
  producerId : Int
  epoch : Int
  baseSequence : Nat
  generation : Nat
  deriving DecidableEq

structure PartitionSeq where
  generation : Nat := 0
  next : Nat := 0

/-- Sequences are `i32` values that wrap to 0 after `i32::MAX`. -/
def sequenceSpace : Nat := 2 ^ 31

def nextSequence (base count : Nat) : Nat := (base + count) % sequenceSpace

namespace PartitionSeq

def start (seq : PartitionSeq) (identity : Identity) : Nat :=
  if seq.generation = identity.generation then seq.next else 0

def stamp (seq : PartitionSeq) (identity : Identity) (count : Nat) :
    BatchIdentity × PartitionSeq :=
  let baseSequence := seq.start identity
  ({ producerId := identity.producerId, epoch := identity.epoch, baseSequence,
     generation := identity.generation },
   { generation := identity.generation, next := nextSequence baseSequence count })

end PartitionSeq

inductive Mode where
  | plain
  | idempotent
  | transactional (tv2 : Bool)
  deriving DecidableEq

namespace Mode

def hasIdentity : Mode → Bool
  | .plain => false
  | _ => true

def isTransactional : Mode → Bool
  | .transactional _ => true
  | _ => false

end Mode

structure PartitionAnswer where
  code : ErrorCode
  logStartOffset : Int

inductive Failure where
  | broker | outOfOrder | abortable
  deriving DecidableEq

inductive Action where
  | ack (duplicate : Bool)
  | retry
  | restamp
  | split (bump : Bool)
  | fail (failure : Failure) (bump : Bool)
  | fatal
  deriving DecidableEq

structure Context where
  mode : Mode
  recordCount : Nat
  lastAckedOffset : Option Int
  epochRetryUsed : Bool

/-- The arms stand in the order of the source's `match`; a guard that fails falls
through to the later arms. -/
def classify (ctx : Context) (answer : PartitionAnswer) : Action :=
  let identity := ctx.mode.hasIdentity
  let transactional := ctx.mode.isTransactional
  let bump := ctx.mode = .idempotent
  let fail := fun failure => Action.fail (if transactional then .abortable else failure) bump
  let code := answer.code
  if code = .none then .ack false
  else if code = .duplicateSequenceNumber ∧ identity then .ack true
  else if (code = .messageTooLarge ∨ code = .recordListTooLarge) ∧ 1 < ctx.recordCount then
    if transactional then fail .broker else .split bump
  else if code = .outOfOrderSequenceNumber ∧ identity then fail .outOfOrder
  else if code = .unknownProducerId ∧ identity then
    let retentionRemovedIt := ctx.lastAckedOffset.all fun acked => acked < answer.logStartOffset
    if transactional then fail .abortable
    else if retentionRemovedIt then .restamp
    else fail .outOfOrder
  else if code = .invalidProducerEpoch ∧ identity then
    match ctx.mode with
    | .transactional false => .fatal
    | .transactional true => fail .abortable
    | _ => if ctx.epochRetryUsed then .fatal else .restamp
  else if code = .invalidProducerIdMapping ∧ ctx.mode = .transactional false then fail .abortable
  else if (code = .producerFenced ∨ code = .transactionalIdAuthorizationFailed ∨
      code = .clusterAuthorizationFailed ∨ code = .invalidProducerIdMapping ∨
      code = .unsupportedVersion) ∧ identity then .fatal
  else if code = .transactionAbortable ∧ transactional then fail .abortable
  else if code.isRetriable then .retry
  else fail .broker

inductive Arm (ctx : Context) (answer : PartitionAnswer) : Action → Prop
  | success (code : answer.code = .none) : Arm ctx answer (.ack false)
  | duplicate (code : answer.code = .duplicateSequenceNumber)
      (identity : ctx.mode.hasIdentity) : Arm ctx answer (.ack true)
  | tooLarge (code : answer.code = .messageTooLarge ∨ answer.code = .recordListTooLarge)
      (several : 1 < ctx.recordCount) (mode : ctx.mode.isTransactional = false) :
      Arm ctx answer (.split (ctx.mode = .idempotent))
  | unknownProducer (code : answer.code = .unknownProducerId) (mode : ctx.mode = .idempotent) :
      Arm ctx answer .restamp
  | firstEpochRetry (code : answer.code = .invalidProducerEpoch) (mode : ctx.mode = .idempotent)
      (unused : ctx.epochRetryUsed = false) : Arm ctx answer .restamp
  | staleEpoch (code : answer.code = .invalidProducerEpoch)
      (mode : ctx.mode = .transactional false ∨ ctx.mode = .idempotent ∧ ctx.epochRetryUsed) :
      Arm ctx answer .fatal
  | fatal (code : answer.code = .producerFenced ∨
        answer.code = .transactionalIdAuthorizationFailed ∨
        answer.code = .clusterAuthorizationFailed ∨
        answer.code = .invalidProducerIdMapping ∧ ctx.mode ≠ .transactional false ∨
        answer.code = .unsupportedVersion)
      (identity : ctx.mode.hasIdentity) : Arm ctx answer .fatal
  | retriable (code : answer.code.isRetriable) (failed : answer.code ≠ .none) :
      Arm ctx answer .retry
  | fail (failure : Failure) (failed : answer.code ≠ .none) :
      Arm ctx answer (.fail failure (ctx.mode = .idempotent))

theorem classify_arm (ctx : Context) (answer : PartitionAnswer) :
    Arm ctx answer (classify ctx answer) := by
  unfold classify
  dsimp only
  refine iteInduction .success fun failed => ?_
  refine iteInduction (fun ⟨code, identity⟩ => .duplicate code identity) fun _ => ?_
  refine iteInduction (fun ⟨code, several⟩ => ?_) fun _ => ?_
  · exact iteInduction (fun _ => .fail _ failed) fun mode =>
      .tooLarge code several (Bool.eq_false_iff.mpr mode)
  refine iteInduction (fun _ => .fail _ failed) fun _ => ?_
  refine iteInduction (fun ⟨code, identity⟩ => ?_) fun _ => ?_
  · refine iteInduction (fun _ => .fail _ failed) fun other => ?_
    refine iteInduction (fun _ => .unknownProducer code ?_) fun _ => .fail _ failed
    cases mode : ctx.mode <;> simp_all [Mode.hasIdentity, Mode.isTransactional]
  refine iteInduction (fun ⟨code, identity⟩ => ?_) fun _ => ?_
  · split
    next mode => exact .staleEpoch code (.inl mode)
    next => exact .fail _ failed
    next older newer =>
      have mode : ctx.mode = .idempotent := by
        rcases mode : ctx.mode with _ | _ | (_ | _) <;> simp_all [Mode.hasIdentity]
      exact iteInduction (fun used => .staleEpoch code (.inr ⟨mode, used⟩)) fun unused =>
        .firstEpochRetry code mode (Bool.eq_false_iff.mpr unused)
  refine iteInduction (fun _ => .fail _ failed) fun mapping => ?_
  refine iteInduction (fun ⟨code, identity⟩ => .fatal ?_ identity) fun _ => ?_
  · have mapped : answer.code = .invalidProducerIdMapping → ctx.mode ≠ .transactional false :=
      fun code mode => mapping ⟨code, mode⟩
    rcases code with code | code | code | code | code
    · exact .inl code
    · exact .inr (.inl code)
    · exact .inr (.inr (.inl code))
    · exact .inr (.inr (.inr (.inl ⟨code, mapped code⟩)))
    · exact .inr (.inr (.inr (.inr code)))
  refine iteInduction (fun _ => .fail _ failed) fun _ => ?_
  exact iteInduction (fun code => .retriable code failed) fun _ => .fail _ failed

variable {ctx : Context} {answer : PartitionAnswer}

theorem classify_of_none (success : answer.code = .none) :
    classify ctx answer = .ack false := if_pos success

theorem classify_ack {duplicate : Bool} (acked : classify ctx answer = .ack duplicate) :
    answer.code = .none ∨ answer.code = .duplicateSequenceNumber ∧ ctx.mode.hasIdentity := by
  have arm := classify_arm ctx answer
  rw [acked] at arm
  cases arm with
  | success code => exact .inl code
  | duplicate code identity => exact .inr ⟨code, identity⟩

theorem classify_restamp
    (restamped : classify ctx answer = .restamp) :
    ctx.mode = .idempotent ∧
      (answer.code = .unknownProducerId ∨ answer.code = .invalidProducerEpoch) := by
  have arm := classify_arm ctx answer
  rw [restamped] at arm
  cases arm with
  | unknownProducer code mode => exact ⟨mode, .inl code⟩
  | firstEpochRetry code mode => exact ⟨mode, .inr code⟩

theorem classify_split {bump : Bool} (halved : classify ctx answer = .split bump) :
    ctx.mode.isTransactional = false ∧ 1 < ctx.recordCount ∧
      (answer.code = .messageTooLarge ∨ answer.code = .recordListTooLarge) ∧
      bump = decide (ctx.mode = .idempotent) := by
  have arm := classify_arm ctx answer
  rw [halved] at arm
  cases arm with
  | tooLarge code several mode => exact ⟨mode, several, code, rfl⟩

theorem classify_fatal
    (fatal : classify ctx answer = .fatal) : ctx.mode.hasIdentity := by
  have arm := classify_arm ctx answer
  rw [fatal] at arm
  cases arm with
  | staleEpoch code mode =>
    rcases mode with mode | ⟨mode, _⟩ <;> exact congrArg Mode.hasIdentity mode
  | fatal code identity => exact identity

def isDefinitiveNonAppend : ErrorCode → Bool
  | .messageTooLarge | .recordListTooLarge | .invalidRecord | .corruptMessage
  | .notLeaderForPartition | .unknownTopicOrPartition | .topicAuthorizationFailed
  | .invalidRequiredAcks | .unsupportedCompressionType | .invalidTimestamp => true
  | _ => false

abbrev PartitionKey := String × Int

end Krafka.Producer
