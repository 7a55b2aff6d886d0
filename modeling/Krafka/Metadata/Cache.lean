import Krafka.Error
import Krafka.Library.Maps

/-! The cluster metadata a client keeps: one snapshot, replaced by every metadata response, by
every leader a broker names in passing, and by a rebootstrap. Each replacement runs under one
lock, so each is a single step here. -/

namespace Krafka.Metadata

abbrev Instant := Nat
abbrev Duration := Nat
abbrev TopicId := BitVec 128

def noTopicId : TopicId := 0

def millis (duration : Duration) : Nat := duration / 1000000

def brokerAddress (host : String) (port : Int) : String :=
  if host.contains ':' && !host.startsWith "[" then s!"[{host}]:{port}" else s!"{host}:{port}"

structure BrokerInfo where
  id : Int
  host : String
  port : Int
  rack : Option String := none

def BrokerInfo.address (broker : BrokerInfo) : String := brokerAddress broker.host broker.port

/-- A partition in an error state is kept, with an unknown leader and an unknown epoch. -/
structure PartitionInfo where
  topic : String
  partition : Int
  leader : Int
  leaderEpoch : Int
  replicas : List Int := []
  isr : List Int := []
  offlineReplicas : List Int := []
  errorCode : ErrorCode := .none

structure TopicInfo where
  name : String
  topicId : TopicId := noTopicId
  isInternal : Bool := false
  partitions : AList fun _ : Int => PartitionInfo := ∅

namespace TopicInfo

def leaderEpoch (t : TopicInfo) (partition : Int) : Option Int :=
  ((t.partitions.lookup partition).map (·.leaderEpoch)).filter (0 ≤ ·)

end TopicInfo

structure MetadataBroker where
  nodeId : Int
  host : String
  port : Int
  rack : Option String := none

structure MetadataPartitionResponse where
  errorCode : ErrorCode := .none
  partitionIndex : Int
  leaderId : Int := 0
  leaderEpoch : Int := -1
  replicaNodes : List Int := []
  isrNodes : List Int := []
  offlineReplicas : List Int := []

structure MetadataTopicResponse where
  errorCode : ErrorCode := .none
  name : Option String
  topicId : Option TopicId := none
  isInternal : Bool := false
  partitions : List MetadataPartitionResponse := []

structure MetadataResponse where
  brokers : List MetadataBroker := []
  clusterId : Option String := none
  controllerId : Int := -1
  topics : List MetadataTopicResponse := []
  errorCode : ErrorCode := .none

structure TopicStamp where
  refreshed : Instant
  lastUsedMs : Nat

def TopicStamp.isLive (stamp : TopicStamp) (now : Instant) (nowMs : Nat) (ttl : Duration) : Bool :=
  now - stamp.refreshed ≤ ttl || (stamp.lastUsedMs ≠ 0 && nowMs - stamp.lastUsedMs ≤ millis ttl)

structure MetadataCache where
  clusterId : Option String := none
  controllerId : Int := -1
  brokers : AList fun _ : Int => BrokerInfo := ∅
  topics : AList fun _ : String => TopicInfo := ∅
  topicIds : AList fun _ : TopicId => String := ∅
  nameToTopicId : AList fun _ : String => TopicId := ∅
  topicStamps : AList fun _ : String => TopicStamp := ∅
  topicErrors : AList fun _ : String => ErrorCode := ∅
  lastUpdated : Instant := 0
  generation : Nat := 0
  resetEpoch : Nat := 0

structure Merging where
  topics : AList fun _ : String => TopicInfo
  topicErrors : AList fun _ : String => ErrorCode
  fetched : List String := []

def MetadataPartitionResponse.incoming (p : MetadataPartitionResponse) (name : String) :
    PartitionInfo where
  topic := name
  partition := p.partitionIndex
  leader := if p.errorCode = .none then p.leaderId else -1
  leaderEpoch := if p.errorCode = .none then p.leaderEpoch else -1
  replicas := p.replicaNodes
  isr := p.isrNodes
  offlineReplicas := p.offlineReplicas
  errorCode := p.errorCode

/-- KIP-320: of two known epochs the newer one stays; an unknown epoch is never compared. -/
def mergePartition (previous : Option PartitionInfo) (incoming : PartitionInfo) : PartitionInfo :=
  match previous with
  | some previous =>
    if 0 ≤ previous.leaderEpoch ∧ 0 ≤ incoming.leaderEpoch ∧
        incoming.leaderEpoch < previous.leaderEpoch then previous
    else incoming
  | none => incoming

structure LeaderHint where
  topic : String
  partition : Int
  leaderId : Int
  leaderEpoch : Int
  endpoint : Option BrokerInfo := none

def TopicInfo.lead (t : TopicInfo) (hint : LeaderHint) : TopicInfo :=
  match t.partitions.lookup hint.partition with
  | none => t
  | some p =>
    { t with
      partitions := t.partitions.insert hint.partition
        { p with
          leader := hint.leaderId, leaderEpoch := hint.leaderEpoch, errorCode := .none } }

namespace MetadataCache

variable (c : MetadataCache)

def topicIsFresh (topic : String) (now : Instant) (maxAge : Duration) : Bool :=
  (c.topics.lookup topic).isSome &&
    (c.topicStamps.lookup topic).any fun stamp => now - stamp.refreshed ≤ maxAge

/-- The cached entry a response is compared with: one of another topic id is of a topic that was
deleted, and its epochs mean nothing. -/
def comparable (name : String) (topicId : TopicId) : Option TopicInfo :=
  (c.topics.lookup name).filter fun cached =>
    !(topicId ≠ noTopicId && cached.topicId ≠ noTopicId && cached.topicId ≠ topicId)

def describe (name : String) (topic : MetadataTopicResponse) : TopicInfo where
  name
  topicId := topic.topicId.getD noTopicId
  isInternal := topic.isInternal
  partitions :=
    let cached := c.comparable name (topic.topicId.getD noTopicId)
    AList.insertAll ∅ (topic.partitions.map fun p =>
      (p.partitionIndex,
        mergePartition (cached.bind fun t => t.partitions.lookup p.partitionIndex) (p.incoming name)))

def mergeTopic (m : Merging) (topic : MetadataTopicResponse) : Merging :=
  match topic.name with
  | none => m
  | some name =>
    if topic.errorCode = .none then
      { topics := m.topics.insert name (c.describe name topic)
        topicErrors := m.topicErrors.erase name
        fetched := m.fetched ++ [name] }
    else
      let errors := m.topicErrors.insert name topic.errorCode
      let gone := topic.errorCode = .unknownTopicOrPartition || topic.errorCode = .unknownTopicId
      if topic.errorCode.isRetriable && !gone then
        -- The broker cannot describe the topic now: the previous entry stays, and comes back if
        -- it was just evicted.
        let topics :=
          match m.topics.lookup name, c.topics.lookup name with
          | none, some previous => m.topics.insert name previous
          | _, _ => m.topics
        { topics, topicErrors := errors
          fetched := if (topics.lookup name).isSome then m.fetched ++ [name] else m.fetched }
      else { m with topics := m.topics.erase name, topicErrors := errors }

/-- What a merge starts from: nothing on a full refresh, and otherwise all but the idle topics. -/
def merging (fullRefresh : Bool) (topicTtl : Option Duration) (now : Instant) (nowMs : Nat) :
    Merging :=
  if fullRefresh then { topics := ∅, topicErrors := ∅ }
  else
    let retained (name : String) : Bool :=
      match topicTtl with
      | none => true
      | some ttl => (c.topicStamps.lookup name).any fun stamp => stamp.isLive now nowMs ttl
    let topics := c.topics.retain fun name _ => retained name
    { topics
      topicErrors := c.topicErrors.retain fun name _ =>
        match topicTtl with
        | none => true
        | some _ => (topics.lookup name).isSome }

def merge (response : MetadataResponse) (fullRefresh : Bool) (topicTtl : Option Duration)
    (now : Instant) (nowMs : Nat) : MetadataCache :=
  let m := response.topics.foldl c.mergeTopic (c.merging fullRefresh topicTtl now nowMs)
  let stamps := c.topicStamps.retain fun name _ => (m.topics.lookup name).isSome
  let identified := m.topics.entries.filterMap fun e =>
    if e.2.topicId = noTopicId then none else some (e.1, e.2.topicId)
  { clusterId := response.clusterId
    controllerId := response.controllerId
    brokers := AList.insertAll ∅ (response.brokers.map fun b =>
      (b.nodeId, ⟨b.nodeId, b.host, b.port, b.rack⟩))
    topics := m.topics
    topicIds := AList.insertAll ∅ (identified.map Prod.swap)
    nameToTopicId := AList.insertAll ∅ identified
    topicStamps := m.fetched.foldl (fun stamps name =>
      stamps.insert name ⟨now, ((stamps.lookup name).map (·.lastUsedMs)).getD 0⟩) stamps
    topicErrors := m.topicErrors
    lastUpdated := now
    generation := c.generation + 1
    resetEpoch := c.resetEpoch }

def endpointIsNew (hint : LeaderHint) : Bool :=
  hint.endpoint.any fun info =>
    (c.brokers.lookup info.id).all fun known => known.address ≠ info.address

def partitionIsNew (hint : LeaderHint) : Bool :=
  (hint.endpoint.isSome || (c.brokers.lookup hint.leaderId).isSome) && 0 ≤ hint.leaderEpoch &&
    ((c.topics.lookup hint.topic).bind fun t => t.partitions.lookup hint.partition).any fun p =>
      p.leaderEpoch < 0 || p.leaderEpoch < hint.leaderEpoch

def applyLeaderHint (hint : LeaderHint) : Option MetadataCache :=
  if hint.leaderId < 0 then none
  else if !c.endpointIsNew hint && !c.partitionIsNew hint then none
  else
    some { c with
      generation := c.generation + 1
      brokers :=
        match hint.endpoint with
        | some info => if c.endpointIsNew hint then c.brokers.insert info.id info else c.brokers
        | none => c.brokers
      topics :=
        match c.topics.lookup hint.topic with
        | some cached =>
          if c.partitionIsNew hint then c.topics.insert hint.topic (cached.lead hint)
          else c.topics
        | none => c.topics }

def leaderEpoch (topic : String) (partition : Int) : Option Int :=
  (c.topics.lookup topic).bind fun t => t.leaderEpoch partition

def touchTopics (topicTtl : Option Duration) (topics : List String) (nowMs : Nat) : MetadataCache :=
  match topicTtl with
  | none => c
  | some _ =>
    { c with
      topicStamps := topics.foldl (fun stamps name =>
        match stamps.lookup name with
        | some stamp => stamps.insert name { stamp with lastUsedMs := nowMs }
        | none => stamps) c.topicStamps }

def resetToSeeds (now : Instant) : MetadataCache where
  lastUpdated := now
  generation := c.generation + 1
  resetEpoch := c.resetEpoch + 1

end MetadataCache

end Krafka.Metadata
