import Krafka.Consumer.Assigned
import Krafka.Consumer.Assignor
import Krafka.Consumer.Group

/-! Group membership under the classic protocol. Join rounds run on tasks of their own, beside
the poll path, the heartbeat tasks, `unsubscribe` and commits; all share the coordinator's
fields. Each stage below is one access to them, or one that no other task can come between. -/

namespace Krafka.Consumer.Classic

open Function

inductive GroupState where
  | unjoined
  | joining
  | awaitingSync
  | stable
  | preparingRebalance
  | leaving
  | dead
  deriving DecidableEq

structure Identity where
  memberId : String := ""
  generationId : Int := -1
  deriving DecidableEq

abbrev Outcome := Result MemberAssignment

def Outcome.partitions : Outcome → Option (List PartitionKey)
  | .ok assignment => some assignment.allPartitions
  | .error _ => none

structure GroupCoordinator where
  groupId : String := ""
  isStatic : Bool := false
  identity : Identity := {}
  state : GroupState := .unjoined
  assignment : MemberAssignment := ∅
  subscribedTopics : List String := []
  negotiatedStrategy : PartitionAssignmentStrategy := .range
  owned : List PartitionKey := []
  pendingRebalance : Option Outcome := none
  rejoinInFlight : Bool := false
  /-- A round started before this last changed discards its outcome. -/
  membershipEpoch : Nat := 0
  hasCoordinator : Bool := false
  coordinatorId : Option Int := none
  running : Bool := false
  rebalanceNeeded : Bool := false
  memberInvalidated : Bool := false
  exceeded : Bool := false
  fatalError : Option KrafkaError := none
  heartbeatEpoch : Nat := 0

inductive JoinAnswer where
  | lost
  | undecodable
  | memberIdRequired (memberId : String)
  | refused (code : ErrorCode)
  | joined (memberId : String) (generationId : Int) (strategy : Option PartitionAssignmentStrategy)

inductive SyncAnswer where
  | lost
  | undecodable
  | refused (code : ErrorCode)
  | synced (assignment : MemberAssignment)

inductive CommitAnswer where
  | lost
  | committed
  | refused (topic : String) (partition : Int) (code : ErrorCode)

structure Reply where
  found : Option Int := none
  connected : Bool := true
  error : KrafkaError := .network ""
  join : JoinAnswer := .lost
  sync : SyncAnswer := .lost
  beat : Option ErrorCode := none
  commit : CommitAnswer := .lost
  expired : Bool := false

def coordinatorRediscoveryMaxAttempts : Nat := 5

def isCoordinatorError (code : ErrorCode) : Bool :=
  code = .notCoordinator || code = .coordinatorNotAvailable || code = .coordinatorLoadInProgress

def isCoordinatorRetriable : KrafkaError → Bool
  | .broker code _ => isCoordinatorError code
  | _ => false

namespace GroupCoordinator

variable (c : GroupCoordinator)

def isCooperative : Bool := c.negotiatedStrategy.isCooperative

def resetMemberIdentity : GroupCoordinator := { c with identity := {} }

def requestRejoin : GroupCoordinator := { c with state := .preparingRebalance }

def dropCoordinator : GroupCoordinator := { c with hasCoordinator := false }

def stopHeartbeatTask : GroupCoordinator := { c with running := false }

def foundCoordinator (node : Int) : GroupCoordinator :=
  let c' := { c with hasCoordinator := true, coordinatorId := some node }
  if c.coordinatorId.any (· ≠ node) then c'.resetMemberIdentity.requestRejoin else c'

def connect (reply : Reply) : GroupCoordinator × Bool :=
  if c.hasCoordinator then (if reply.connected then c else c.dropCoordinator, reply.connected)
  else
    match reply.found with
    | none => (c, false)
    | some node =>
      let c := c.foundCoordinator node
      (if reply.connected then c else c.dropCoordinator, reply.connected)

def refuse (code : ErrorCode) : GroupCoordinator :=
  let c := if code = .unknownMemberId ∨ code = .illegalGeneration then c.resetMemberIdentity else c
  let c := if isCoordinatorError code then c.dropCoordinator else c
  { c with state := .unjoined }

def reset : GroupCoordinator :=
  { c.resetMemberIdentity with
    pendingRebalance := none, state := .unjoined, assignment := ∅, owned := []
    hasCoordinator := false, coordinatorId := none }

def resetForStaticLeave : GroupCoordinator :=
  { c with
    identity := { c.identity with generationId := -1 }
    pendingRebalance := none, state := .unjoined, assignment := ∅, owned := []
    hasCoordinator := false, coordinatorId := none }

def setSubscription (topics : List String) : GroupCoordinator :=
  let sorted := topics.insertionSort (· ≤ ·)
  let c' := { c with subscribedTopics := sorted }
  if sorted ≠ c.subscribedTopics ∧ c.state = .stable then c'.requestRejoin else c'

def needsRejoin : Bool × GroupCoordinator :=
  let c := if c.rebalanceNeeded then { c.requestRejoin with rebalanceNeeded := false } else c
  (c.state = .unjoined || c.state = .preparingRebalance, c)

def startHeartbeatTask : GroupCoordinator :=
  { c with
    rebalanceNeeded := false, memberInvalidated := false, running := true
    heartbeatEpoch := c.heartbeatEpoch + 1 }

def signalMemberInvalidated : GroupCoordinator :=
  { c with memberInvalidated := true, rebalanceNeeded := true }

end GroupCoordinator

/-! Leaving -/

inductive LeaveStage where
  | bumping
  | clearing
  | checking
  | connecting
  | leaving
  deriving DecidableEq

def GroupCoordinator.leaveTurn (c : GroupCoordinator) (reply : Reply) :
    LeaveStage → GroupCoordinator × Option LeaveStage
  | .bumping => ({ c with membershipEpoch := c.membershipEpoch + 1 }, some .clearing)
  | .clearing => ({ c with pendingRebalance := none }, some .checking)
  | .checking =>
    if c.state = .unjoined ∨ c.state = .dead then (c.stopHeartbeatTask, none)
    else if c.isStatic then (c.stopHeartbeatTask.resetForStaticLeave, none)
    else (c, some .connecting)
  | .connecting =>
    let (c, connected) := c.connect reply
    if connected then ({ c with state := .leaving }, some .leaving)
    else (c.stopHeartbeatTask.reset, none)
  | .leaving => (c.stopHeartbeatTask.reset, none)

/-! Rounds -/

inductive RoundStage where
  | starting
  | discovering
  | connecting
  | readingTopics
  | readingOwned
  | announcing
  | joining (retried : Bool)
  | connectingSync
  | assigning
  | syncing
  | checking (outcome : Outcome)
  | beating (assignment : MemberAssignment)
  | parking (outcome : Outcome)
  | clearing

structure Round where
  number : Nat
  restartHeartbeat : Bool
  epoch : Nat := 0
  attempt : Nat := 0
  topics : List String := []
  owned : List PartitionKey := []
  sentOwned : Option (List PartitionKey) := none
  stage : RoundStage := .starting

def Round.fail (round : Round) (error : KrafkaError) : Round :=
  if isCoordinatorRetriable error ∧ round.attempt + 1 < coordinatorRediscoveryMaxAttempts then
    { round with attempt := round.attempt + 1, stage := .discovering }
  else { round with stage := .checking (.error error) }

/-! Heartbeats -/

inductive HeartbeatTask where
  | ticking
  | connecting
  | waiting (membership : Nat)
  | leaving (stage : LeaveStage)
  | ended
  deriving DecidableEq

/-! Commits -/

structure Commit where
  offsets : List (PartitionKey × Offset × Option Int)
  readUnder : Identity
  attempt : Nat := 0
  deriving DecidableEq

inductive CommitStage where
  | idle
  | attempting (commit : Commit)
  | connecting (commit : Commit) (identity : Identity)
  | waiting (commit : Commit) (identity : Identity)
  | sleeping (commit : Commit)

structure SentCommit where
  identity : Identity
  commit : Commit
  deriving DecidableEq

def Commit.retry (commit : Commit) (error : KrafkaError) : CommitStage :=
  if error.isRetriable ∧ commit.attempt < 2 then
    .sleeping { commit with attempt := commit.attempt + 1 }
  else .idle

/-! The poll path and `unsubscribe` -/

structure Apply where
  new : List PartitionKey
  revoked : List PartitionKey := []
  added : List PartitionKey := []
  cooperative : Bool
  again : Bool
  deriving DecidableEq

inductive PollStage where
  | idle
  | dropping (expired : Bool)
  | disowning (expired : Bool)
  | losing (expired : Bool)
  | checkingLost
  | resetting
  | checkingFatal
  | committing
  | taking
  | comparing (apply : Apply)
  | revoking (apply : Apply)
  | adding (apply : Apply)
  | owning (apply : Apply) (current : List PartitionKey)
  | assigning (apply : Apply)
  | checkingFlight
  | checkingNeed
  | revokingAll (assigned : List PartitionKey)
  | disowningAll
  | spawning
  | checkingRound
  | awaiting
  | takingAgain
  deriving DecidableEq

def PollStage.awaits : PollStage → Bool
  | .losing _ | .committing | .revoking _ | .assigning _ | .revokingAll _ | .awaiting => true
  | _ => false

inductive UnsubscribeStage where
  | idle
  | revoking (assigned : List PartitionKey)
  | disowning
  | unsubscribing
  | leaving (stage : LeaveStage)
  | clearing
  deriving DecidableEq

def UnsubscribeStage.awaits : UnsubscribeStage → Bool
  | .revoking _ | .leaving .connecting | .leaving .leaving => true
  | _ => false

inductive Fate where
  | unfinished
  | parked
  | taken
  | discarded
  deriving DecidableEq

structure GroupMember where
  coordinator : GroupCoordinator := {}
  state : SubscriptionState := {}
  outstanding : List Delivery := []
  subscription : List String := []
  round : Option Round := none
  rounds : Nat := 0
  tasks : Nat → HeartbeatTask := fun _ => .ended
  poll : PollStage := .idle
  unsubscribe : UnsubscribeStage := .idle
  commit : CommitStage := .idle
  sentCommits : List SentCommit := []
  joinedTopics : List String := []
  stableRound : Option Nat := none
  fate : Fate := .unfinished
  membership : Nat := 0
  lostUnder : Option Nat := none
  delivered : Option (List PartitionKey) := none
  /-- How many polls have begun, and had when an outcome was parked last. -/
  polls : Nat := 0
  parkedIn : Nat := 0

inductive GroupInput where
  | poll
  | dropPoll
  | round (reply : Reply)
  | task (index : Nat) (reply : Reply)
  | unsubscribe (reply : Reply)
  | dropUnsubscribe
  | commit (reply : Reply)
  | dropCommit
  | subscribe (topics : List String)
  | setSubscription (topics : List String)
  | joinNow
  | fetchOffsets (reply : Reply)
  | refuseOffsets (code : ErrorCode)
  | operation (operation : Operation)

namespace GroupMember

variable (g : GroupMember)

def spawnRejoin (restartHeartbeat : Bool) : GroupMember :=
  if g.coordinator.rejoinInFlight then g
  else
    { g with
      coordinator := { g.coordinator with rejoinInFlight := true }
      round := some { number := g.rounds, restartHeartbeat }
      rounds := g.rounds + 1 }

def untaken : Option (List PartitionKey) := g.coordinator.pendingRebalance.bind Outcome.partitions

def withdraw : GroupMember :=
  match g.coordinator.pendingRebalance with
  | none => g
  | some _ =>
    { g with
      fate := if g.fate = .parked then .discarded else g.fate
      delivered := if g.untaken.isSome then none else g.delivered }

def setTask (index : Nat) (task : HeartbeatTask) : GroupMember :=
  { g with tasks := update g.tasks index task }

def leaveTurn (reply : Reply) (stage : LeaveStage) : GroupMember × Option LeaveStage :=
  let (coordinator, next) := g.coordinator.leaveTurn reply stage
  ({ if coordinator.pendingRebalance.isNone then g.withdraw else g with coordinator }, next)

def roundTurn (reply : Reply) : GroupMember :=
  let c := g.coordinator
  match g.round with
  | none => g
  | some round =>
    let goesOn (c : GroupCoordinator) (stage : RoundStage) : GroupMember :=
      { g with coordinator := c, round := some { round with stage } }
    let fails (c : GroupCoordinator) (error : KrafkaError) : GroupMember :=
      { g with coordinator := c, round := some (round.fail error) }
    match round.stage with
    | .starting =>
      { g with round := some { round with epoch := c.membershipEpoch, stage := .discovering } }
    | .discovering =>
      if c.hasCoordinator then goesOn c .connecting
      else
        match reply.found with
        | none => fails c reply.error
        | some node => goesOn (c.foundCoordinator node) .connecting
    | .connecting =>
      let (c, connected) := c.connect reply
      if connected then goesOn c .readingTopics else fails c reply.error
    | .readingTopics =>
      { g with round := some { round with topics := c.subscribedTopics, stage := .readingOwned } }
    | .readingOwned =>
      { g with
        round := some
          { round with owned := if c.isCooperative then c.owned else [], stage := .announcing } }
    | .announcing =>
      let c := { c with state := .joining }
      if reply.connected then
        { g with
          coordinator := c
          round := some { round with sentOwned := some round.owned, stage := .joining false } }
      else fails c reply.error
    | .joining retried =>
      match reply.join with
      | .lost => fails { c with state := .unjoined } reply.error
      | .undecodable => fails c reply.error
      | .memberIdRequired memberId =>
        if retried then
          fails (c.refuse .memberIdRequired) (.broker .memberIdRequired "Failed to join group")
        else goesOn { c with identity := { c.identity with memberId } } (.joining true)
      | .refused code => fails (c.refuse code) (.broker code "Failed to join group")
      | .joined memberId generationId strategy =>
        { goesOn
            { c with
              identity := { memberId, generationId }
              state := .awaitingSync
              negotiatedStrategy := strategy.getD c.negotiatedStrategy } .connectingSync with
          membership := g.membership + 1 }
    | .connectingSync =>
      let (c, connected) := c.connect reply
      if connected then goesOn c .assigning else fails c reply.error
    | .assigning => if reply.connected then goesOn c .syncing else fails c reply.error
    | .syncing =>
      match reply.sync with
      | .lost => fails { c with state := .unjoined } reply.error
      | .undecodable => fails c reply.error
      | .refused code => fails (c.refuse code) (.broker code "Failed to sync group")
      | .synced assignment =>
        { goesOn { c with assignment, state := .stable } (.checking (.ok assignment)) with
          joinedTopics := round.topics
          stableRound := some round.number
          fate := .unfinished }
    | .checking outcome =>
      if c.membershipEpoch = round.epoch then
        match outcome with
        | .ok assignment =>
          goesOn c (if round.restartHeartbeat then .beating assignment else .parking outcome)
        | .error _ => goesOn c (.parking outcome)
      else
        { goesOn c .clearing with
          fate := if g.stableRound = some round.number then .discarded else g.fate }
    | .beating assignment =>
      let c := c.startHeartbeatTask
      { goesOn c (.parking (.ok assignment)) with tasks := update g.tasks c.heartbeatEpoch .ticking }
    | .parking outcome =>
      { goesOn { c with pendingRebalance := some outcome } .clearing with
        fate := if g.stableRound = some round.number then .parked else g.fate
        delivered := (Outcome.partitions outcome).or g.delivered
        parkedIn := g.polls }
    | .clearing => { g with coordinator := { c with rejoinInFlight := false }, round := none }

def taskTurn (reply : Reply) (index : Nat) : GroupMember :=
  let c := g.coordinator
  let groupId := c.groupId
  match g.tasks index with
  | .ended => g
  | .ticking =>
    if !c.running || index ≠ c.heartbeatEpoch then g.setTask index .ended
    else if reply.expired then
      { g.setTask index (.leaving .bumping) with
        coordinator := { c with exceeded := true, running := false } }
    -- no heartbeat while a round is in flight
    else if c.rejoinInFlight then g
    else g.setTask index .connecting
  | .connecting =>
    let (c, connected) := c.connect reply
    if connected then { g.setTask index (.waiting g.membership) with coordinator := c }
    else { g.setTask index .ticking with coordinator := c.dropCoordinator }
  | .waiting membership =>
    match reply.beat with
    | none => { g.setTask index .ticking with coordinator := c.dropCoordinator }
    | some .none => g.setTask index .ticking
    | some .rebalanceInProgress =>
      if c.isCooperative then (g.setTask index .ticking).spawnRejoin false
      else { g.setTask index .ticking with coordinator := { c with rebalanceNeeded := true } }
    | some code =>
      if code = .unknownMemberId ∨ code = .illegalGeneration then
        { g.setTask index .ended with
          coordinator := c.signalMemberInvalidated.stopHeartbeatTask
          lostUnder := some membership }
      else if isCoordinatorError code then
        { g.setTask index .ticking with coordinator := c.dropCoordinator }
      else
        { g.setTask index .ended with
          coordinator :=
            { c.signalMemberInvalidated.stopHeartbeatTask with
              fatalError := some (.broker code s!"consumer group '{groupId}' heartbeat failed") }
          lostUnder := some membership }
  | .leaving stage =>
    let (g, next) := g.leaveTurn reply stage
    match next with
    | some stage => g.setTask index (.leaving stage)
    | none => g.setTask index .ended

def retriesJoin (error : KrafkaError) : Bool :=
  error.isRetriable || isCoordinatorRetriable error ||
    match error with
    | .broker .unknownMemberId _ | .broker .illegalGeneration _ | .broker .rebalanceInProgress _
    | .broker .memberIdRequired _ => true
    | _ => false

def takePending : GroupMember :=
  { g with
    coordinator := { g.coordinator with pendingRebalance := none }
    fate :=
      if g.coordinator.pendingRebalance.isSome ∧ g.fate = .parked then .taken else g.fate }

def applyJoin (outcome : Outcome) (again : Bool) : GroupMember :=
  match outcome with
  | .ok assignment =>
    { g with
      poll := .comparing
        { new := assignment.allPartitions.dedup
          cooperative := g.coordinator.isCooperative, again } }
  | .error error =>
    { g with
      coordinator := g.coordinator.requestRejoin
      poll := if again || !retriesJoin error then .idle else .checkingFlight }

def pollTurn : GroupMember :=
  let c := g.coordinator
  match g.poll with
  | .idle =>
    { g with
      polls := g.polls + 1
      poll := if c.exceeded then .dropping true else .checkingLost }
  | .dropping expired =>
    { g with state := g.state.clearAssignment, delivered := g.untaken, poll := .disowning expired }
  | .disowning expired => { g with coordinator := { c with owned := [] }, poll := .losing expired }
  | .losing true =>
    { g with
      coordinator := { c with exceeded := false, state := .unjoined }
      poll := .checkingLost }
  | .losing false => { g with poll := .checkingFatal }
  | .checkingLost =>
    { g with
      coordinator := { c with memberInvalidated := false }
      poll := if c.memberInvalidated then .resetting else .checkingFatal }
  | .resetting =>
    { g with
      coordinator := { c.resetMemberIdentity with state := .unjoined }, poll := .dropping false }
  | .checkingFatal =>
    { g with
      coordinator := { c with fatalError := none }
      poll := if c.fatalError.isSome then .idle else .committing }
  | .committing => { g with poll := if g.subscription.isEmpty then .idle else .taking }
  | .taking =>
    match c.pendingRebalance with
    | some outcome => g.takePending.applyJoin outcome false
    | none => { g with poll := .checkingFlight }
  | .comparing apply =>
    let revoked := g.state.assignedKeys.filter (· ∉ apply.new)
    let added := (apply.new.filter (· ∉ g.state.partitions)).insertionSort PartitionKey.le
    let apply := { apply with revoked, added }
    { g with poll := if revoked.isEmpty then .adding apply else .revoking apply }
  | .revoking apply =>
    { g with state := g.state.removePartitions apply.revoked, poll := .adding apply }
  | .adding apply =>
    let state := g.state.addPartitions apply.added
    { g with state, poll := .owning apply state.assignedKeys }
  | .owning apply current =>
    { g with coordinator := { c with owned := current }, poll := .assigning apply }
  | .assigning apply =>
    { g with
      coordinator := if apply.cooperative && !apply.revoked.isEmpty then c.requestRejoin else c
      poll := if apply.again then .idle else .checkingFlight }
  | .checkingFlight => { g with poll := if c.rejoinInFlight then .checkingRound else .checkingNeed }
  | .checkingNeed =>
    let (needs, c) := c.needsRejoin
    { g with
      coordinator := c
      poll :=
        if !needs then .checkingRound
        else if c.isCooperative || g.state.assignedKeys.isEmpty then .spawning
        else .revokingAll g.state.assignedKeys }
  | .revokingAll assigned =>
    { g with
      state := g.state.removePartitions assigned, delivered := g.untaken, poll := .disowningAll }
  | .disowningAll => { g with coordinator := { c with owned := [] }, poll := .spawning }
  | .spawning => { g.spawnRejoin true with poll := .checkingRound }
  | .checkingRound => { g with poll := if c.rejoinInFlight then .awaiting else .idle }
  | .awaiting => { g with poll := .takingAgain }
  | .takingAgain =>
    match c.pendingRebalance with
    | some outcome => g.takePending.applyJoin outcome true
    | none => { g with poll := .idle }

def unsubscribeTurn (reply : Reply) : GroupMember :=
  let c := g.coordinator
  match g.unsubscribe with
  | .idle =>
    { g with
      unsubscribe :=
        if g.state.assignedKeys.isEmpty then .unsubscribing else .revoking g.state.assignedKeys }
  | .revoking assigned =>
    { g with
      state := g.state.removePartitions assigned, delivered := g.untaken
      unsubscribe := .disowning }
  | .disowning => { g with coordinator := { c with owned := [] }, unsubscribe := .unsubscribing }
  | .unsubscribing =>
    { g with coordinator := c.setSubscription [], unsubscribe := .leaving .bumping }
  | .leaving stage =>
    let (g, next) := g.leaveTurn reply stage
    { g with
      unsubscribe :=
        match next with
        | some stage => .leaving stage
        | none => .clearing }
  | .clearing =>
    { g with
      state := g.state.clearAssignment, subscription := [], delivered := g.untaken
      unsubscribe := .idle }

def commitTurn (reply : Reply) : GroupMember :=
  let c := g.coordinator
  let groupId := c.groupId
  match g.commit with
  | .idle =>
    let offsets := g.state.committable
    { g with
      commit := if offsets.isEmpty then .idle else .attempting { offsets, readUnder := c.identity } }
  | .attempting commit =>
    { g with
      commit :=
        if c.state = .dead ∨ c.identity.generationId < 0 then .idle
        else if c.rejoinInFlight then
          commit.retry (.broker .rebalanceInProgress
            s!"cannot commit offsets for group '{groupId}': a rebalance is in progress")
        else .connecting commit c.identity }
  | .connecting commit identity =>
    let (c, connected) := c.connect reply
    if connected then
      { g with
        coordinator := c, commit := .waiting commit identity
        sentCommits := g.sentCommits ++ [⟨identity, commit⟩] }
    else { g with coordinator := c, commit := commit.retry reply.error }
  | .waiting commit _ =>
    match reply.commit with
    | .lost => { g with commit := commit.retry reply.error }
    | .committed => { g with commit := .idle }
    | .refused topic partition code =>
      if code = .rebalanceInProgress ∨ code = .illegalGeneration ∨ code = .unknownMemberId ∨
          code = .fencedMemberEpoch ∨ code = .staleMemberEpoch then
        { g with
          coordinator := c.requestRejoin
          commit := commit.retry
            (.broker code s!"Offset commit failed for {topic}-{partition}: rebalance needed") }
      else
        { g with
          coordinator :=
            if code = .notCoordinator ∨ code = .coordinatorNotAvailable then c.dropCoordinator
            else c
          commit := commit.retry (.broker code s!"Offset commit failed for {topic}-{partition}") }
  | .sleeping commit => { g with commit := .attempting commit }

def step : GroupInput → GroupMember
  | .poll => g.pollTurn
  | .dropPoll => if g.poll.awaits then { g with poll := .idle } else g
  | .round reply => g.roundTurn reply
  | .task index reply => g.taskTurn reply index
  | .unsubscribe reply => g.unsubscribeTurn reply
  | .dropUnsubscribe => if g.unsubscribe.awaits then { g with unsubscribe := .idle } else g
  | .commit reply => g.commitTurn reply
  | .dropCommit => { g with commit := .idle }
  | .subscribe topics => { g with subscription := topics }
  | .setSubscription topics => { g with coordinator := g.coordinator.setSubscription topics }
  | .joinNow =>
    if g.state.assignedKeys.isEmpty then
      let (needs, c) := g.coordinator.needsRejoin
      let g := { g with coordinator := c }
      if needs then g.spawnRejoin true else g
    else g
  | .fetchOffsets reply => { g with coordinator := (g.coordinator.connect reply).1 }
  | .refuseOffsets code =>
    { g with
      coordinator :=
        if code = .notCoordinator ∨ code = .coordinatorNotAvailable then
          g.coordinator.dropCoordinator
        else if code = .staleMemberEpoch ∨ code = .unknownMemberId ∨ code = .fencedMemberEpoch then
          g.coordinator.requestRejoin
        else g.coordinator }
  | .operation operation =>
    -- only the tasks above assign and revoke
    if operation.assigns then g
    else
      let client := ({ state := g.state, outstanding := g.outstanding } : Client).step operation
      { g with state := client.state, outstanding := client.outstanding }

def run (start : GroupMember) (inputs : List GroupInput) : GroupMember := inputs.foldl step start

end GroupMember

end Krafka.Consumer.Classic
