import Krafka.Consumer.State
import Krafka.Library.Maps

/-! How a partition without a position gets one: the group's committed offset, else a configured
initial offset, else a reset to be resolved, as `auto_offset_reset` asks. -/

namespace Krafka.Consumer

/-! The `OffsetFetch` exchange -/

structure OffsetFetchResponsePartition where
  partitionIndex : Int
  committedOffset : Offset
  committedLeaderEpoch : Int := -1
  errorCode : ErrorCode := .none

structure OffsetFetchResponseTopic where
  name : String := ""
  topicId : Option Uuid := none
  partitions : List OffsetFetchResponsePartition

structure OffsetFetchResponse where
  topics : List OffsetFetchResponseTopic
  errorCode : ErrorCode := .none

structure CommittedPosition where
  offset : Offset
  leaderEpoch : Int

structure OffsetFetchAttempt where
  negotiated : Result (Option Nat)
  topicIdForName : String → Option Uuid := fun _ => none
  response : (version : Nat) → Result OffsetFetchResponse
  topicNameForId : Uuid → Option String := fun _ => none

inductive FetchReaction where
  | none | dropCoordinator | requestRejoin
  deriving DecidableEq

structure OffsetFetchGroup where
  groupId : String := ""
  isConsumerProtocol : Bool := false

def unstableOffsetMaxAttempts : Nat := 5

namespace OffsetFetchAttempt

variable (attempt : OffsetFetchAttempt)

def version (topics : List String) (negotiated : Nat) : Nat :=
  if 10 ≤ negotiated then
    if topics.all fun topic => (attempt.topicIdForName topic).isSome then negotiated else 9
  else negotiated

def named (version : Nat) (topic : OffsetFetchResponseTopic) : OffsetFetchResponseTopic :=
  if 10 ≤ version ∧ topic.name = "" then
    match topic.topicId.bind attempt.topicNameForId with
    | some name => { topic with name }
    | none => topic
  else topic

end OffsetFetchAttempt

def firstUnstableOffset (response : OffsetFetchResponse) : Option (String × Int) :=
  response.topics.findSome? fun topic =>
    (topic.partitions.find? (·.errorCode = .unstableOffsetCommit)).map fun p =>
      (topic.name, p.partitionIndex)

def committedPositions (response : OffsetFetchResponse) :
    AList fun _ : PartitionKey => CommittedPosition :=
  AList.insertAll ∅ <| response.topics.flatMap fun topic =>
    topic.partitions.filterMap fun p =>
      if p.errorCode = .none ∧ 0 ≤ p.committedOffset then
        some ((topic.name, p.partitionIndex), ⟨p.committedOffset, p.committedLeaderEpoch⟩)
      else none

section Fetch

variable (group : OffsetFetchGroup)

def acceptedResponse (attempt : OffsetFetchAttempt) (topics : List String) :
    Result OffsetFetchResponse × FetchReaction :=
  match attempt.negotiated with
  | .error error => (.error error, .none)
  | .ok none =>
    (.error (.protocol .unknownApiVersion "broker does not support OffsetFetch v1-v10"), .none)
  | .ok (some negotiated) =>
    let version := attempt.version topics negotiated
    match attempt.response version with
    | .error error => (.error error, .none)
    | .ok response =>
      let response := { response with topics := response.topics.map (attempt.named version) }
      let groupId := group.groupId
      if response.errorCode ≠ .none then
        (.error (.broker response.errorCode s!"OffsetFetch failed for group '{groupId}'"),
          if response.errorCode = .notCoordinator ∨
              response.errorCode = .coordinatorNotAvailable then .dropCoordinator
          else if (response.errorCode = .staleMemberEpoch ∨
              response.errorCode = .unknownMemberId ∨
              response.errorCode = .fencedMemberEpoch) ∧ !group.isConsumerProtocol then
            .requestRejoin
          else .none)
      else
        match firstUnstableOffset response with
        | some (topic, partition) =>
          (.error (.broker .unstableOffsetCommit
            (s!"committed offset for {topic}-{partition} is staged inside an " ++
              "in-flight transaction; retry once it commits or aborts")), .none)
        | none => (.ok response, .none)

def fetchCommittedOffsetsOnce (attempt : OffsetFetchAttempt) (topics : List String) :
    Result (AList fun _ : PartitionKey => CommittedPosition) × FetchReaction :=
  if topics.isEmpty then (.ok ∅, .none)
  else
    match acceptedResponse group attempt topics with
    | (.error error, reaction) => (.error error, reaction)
    | (.ok response, reaction) => (.ok (committedPositions response), reaction)

def isUnstable : KrafkaError → Bool
  | .broker .unstableOffsetCommit _ => true
  | _ => false

def fetchAttempts (attempts : Nat → OffsetFetchAttempt) (topics : List String) :
    (left : Nat) → (attempt : Nat) → (lastError : Option KrafkaError) →
      Result (AList fun _ : PartitionKey => CommittedPosition) × FetchReaction
  | 0, _, lastError =>
    (.error (lastError.getD
      (.broker .unstableOffsetCommit "committed offsets did not stabilise")), .none)
  | left + 1, attempt, _ =>
    match fetchCommittedOffsetsOnce group (attempts attempt) topics with
    | (.error error, reaction) =>
      if isUnstable error then fetchAttempts attempts topics left (attempt + 1) (some error)
      else (.error error, reaction)
    | (.ok committed, reaction) => (.ok committed, reaction)

def fetchCommittedOffsets (attempts : Nat → OffsetFetchAttempt) (topics : List String) :
    Result (AList fun _ : PartitionKey => CommittedPosition) × FetchReaction :=
  fetchAttempts group attempts topics unstableOffsetMaxAttempts 0 none

end Fetch

/-! The positions -/

structure PendingPosition where
  key : PartitionKey
  version : Nat
  deriving DecidableEq

inductive AutoOffsetReset where
  | earliest
  | latest
  | byDuration (duration : Duration)
  | none

def OffsetReset.fromAuto : AutoOffsetReset → Option OffsetReset
  | .earliest => some .earliest
  | .latest => some .latest
  | .byDuration duration => some (.byDuration duration)
  | .none => Option.none

structure PositionConfig where
  initialOffsets : AList fun _ : PartitionKey => Offset := ∅
  autoOffsetReset : AutoOffsetReset := .latest

namespace SubscriptionState

variable (s : SubscriptionState)

def partitionsNeedingPosition (now : Instant) : List PendingPosition :=
  s.assignedKeys.filterMap fun key =>
    (s.partitions.lookup key).bind fun r =>
      if r.position = none ∧ r.reset = none ∧ r.backoffElapsed now then some ⟨key, r.version⟩
      else none

def installCommitted (committed : AList fun _ : PartitionKey => CommittedPosition)
    (s : SubscriptionState) (p : PendingPosition) : SubscriptionState :=
  match committed.lookup p.key with
  | some position =>
    if 0 ≤ position.offset then
      (s.setInitialPosition p.key p.version position.offset
        (if 0 ≤ position.leaderEpoch then some position.leaderEpoch else none)).2
    else s
  | none => s

/-- Install the group's committed offsets; the partitions without one are returned. There is no
result without a group. -/
def applyCommittedPositions (needing : List PendingPosition)
    (fetched : Option (Result (AList fun _ : PartitionKey => CommittedPosition)))
    (now : Instant) : List PendingPosition × SubscriptionState :=
  match fetched with
  | none => (needing, s)
  | some (.ok committed) =>
    (needing.filter fun p => !(committed.lookup p.key).any (0 ≤ ·.offset),
      needing.foldl (installCommitted committed) s)
  | some (.error _) => ([], needing.foldl (fun s p => s.backOff p.key (some p.version) now) s)

def installDefault (config : PositionConfig) (s : SubscriptionState) (p : PendingPosition) :
    SubscriptionState :=
  match config.initialOffsets.lookup p.key with
  | some initial => (s.setInitialPosition p.key p.version initial none).2
  | none =>
    match OffsetReset.fromAuto config.autoOffsetReset with
    | some reset => s.setPendingReset p.key p.version reset
    | none => s

def applyDefaults (config : PositionConfig) (withoutCommitted : List PendingPosition) :
    List PartitionKey × SubscriptionState :=
  ((withoutCommitted.filter fun p =>
      (config.initialOffsets.lookup p.key).isNone &&
        (OffsetReset.fromAuto config.autoOffsetReset).isNone).map (·.key),
    withoutCommitted.foldl (installDefault config) s)

end SubscriptionState

end Krafka.Consumer
