import Krafka.Consumer.State
import Krafka.Library.Maps
import Krafka.Library.Runs
import Mathlib.Logic.Function.Basic

/-! Group membership under KIP-848. The poll path and the heartbeat tasks run side by side and
share the coordinator's fields; each stage below is one access to them. Only a reset, a member that
leaves, and the test for an empty target before the state is set are one stage each although they
take more than one lock. -/

namespace Krafka.Consumer

open Function

structure TopicPartitions where
  topicId : Uuid
  partitions : List Int
  deriving DecidableEq

inductive GroupState where
  | unjoined
  | preparingRebalance
  | stable
  | leaving
  | dead
  deriving DecidableEq

abbrev MemberAssignment := AList fun _ : String => List Int

namespace MemberAssignment

def allPartitions (assignment : MemberAssignment) : List PartitionKey :=
  assignment.entries.flatMap fun e => e.2.map fun partition => (e.1, partition)

def same (a b : MemberAssignment) : Bool :=
  a.entries.all (fun e => b.lookup e.1 = some e.2) && b.entries.all fun e => a.lookup e.1 = some e.2

end MemberAssignment

inductive Beat where
  | connecting (owned : Option (List TopicPartitions))
  | waiting (owned : Option (List TopicPartitions))
  | storing (epoch : Int) (assignment : Option (List TopicPartitions))
  /-- The topic ids of the target are to be resolved; once more after a metadata refresh. -/
  | resolving (last : Bool)
  | naming (last : Bool) (target : List TopicPartitions)
  | installing (last unresolved : Bool) (assignment : MemberAssignment)
  deriving DecidableEq

inductive BeatEnd where
  | ok
  | fenced
  | fatal
  | refused
  | lost
  deriving DecidableEq

inductive HeartbeatTask where
  | task (sendFull : Bool) (commands : Nat) (beat : Option Beat)
  | leaving
  | left
  | ended

structure GroupCoordinator where
  memberEpoch : Int := 0
  state : GroupState := .unjoined
  assignment : MemberAssignment := ∅
  assignmentChanged : Bool := false
  targetAssignment : List TopicPartitions := []
  ownedAssignment : List TopicPartitions := []
  topicNamesCache : AList fun _ : Uuid => String := ∅
  membershipLost : Bool := false
  memberInvalidated : Bool := false
  exceeded : Bool := false
  fatalError : Bool := false
  running : Bool := false
  heartbeatEpoch : Nat := 0
  tasks : Nat → HeartbeatTask := fun _ => .ended

structure Reply where
  connected : Bool := true
  answer : BeatEnd := .ok
  epoch : Int := 0
  assignment : Option (List TopicPartitions) := none
  known : List Uuid := []
  retries : Bool := false
  subscribed : Bool := true
  expired : Bool := false
  unreleased : Bool := false
  /-- `select!` takes the tick although an acknowledgement waits. -/
  ticks : Bool := false

namespace GroupCoordinator

variable (c : GroupCoordinator)

def resetForKip848Fencing : GroupCoordinator :=
  { c with
    memberEpoch := 0, state := .unjoined, assignment := ∅
    targetAssignment := [], ownedAssignment := [], topicNamesCache := ∅ }

def reset : GroupCoordinator := c.resetForKip848Fencing

def resolveTopic (catalogue : Catalogue) (known : List Uuid)
    (resolved : MemberAssignment × (AList fun _ : Uuid => String) × Bool) (tp : TopicPartitions) :
    MemberAssignment × (AList fun _ : Uuid => String) × Bool :=
  let (assignment, cache, unresolved) := resolved
  match if tp.topicId ∈ known then catalogue.name tp.topicId else none with
  | some name => (assignment.insert name tp.partitions, cache.insert tp.topicId name, unresolved)
  | none =>
    match cache.lookup tp.topicId with
    | some name => (assignment.insert name tp.partitions, cache, unresolved)
    | none => (assignment, cache, true)

def install (assignment : MemberAssignment) : GroupCoordinator :=
  if !c.assignment.same assignment || c.state ≠ .stable then
    { c with assignment, state := .stable, assignmentChanged := true }
  else c

def beat (catalogue : Catalogue) (reply : Reply) : Beat → GroupCoordinator × (Beat ⊕ BeatEnd)
  | .connecting owned => (c, if reply.connected then .inl (.waiting owned) else .inr .lost)
  | .waiting _ =>
    match reply.answer with
    | .ok => ({ c with memberEpoch := reply.epoch }, .inl (.storing reply.epoch reply.assignment))
    | .fenced => ({ c.resetForKip848Fencing with membershipLost := true }, .inr .fenced)
    | .fatal => (if reply.unreleased then { c with state := .dead } else c, .inr .fatal)
    | .refused => (c, .inr .refused)
    | .lost => (c, .inr .lost)
  | .storing epoch none =>
    if c.targetAssignment.isEmpty then
      (if 0 < epoch ∧ c.state ≠ .stable then
          { c with state := .stable, assignmentChanged := true }
        else c, .inr .ok)
    else (c, .inl (.resolving true))
  | .storing _ (some target) => ({ c with targetAssignment := target }, .inl (.resolving false))
  -- `resolve_target_assignment` lets go of each lock before it takes the next
  | .resolving last => (c, .inl (.naming last c.targetAssignment))
  | .naming last target =>
    let resolved := target.foldl (resolveTopic catalogue reply.known) (∅, c.topicNamesCache, false)
    ({ c with topicNamesCache := resolved.2.1 }, .inl (.installing last resolved.2.2 resolved.1))
  | .installing last unresolved assignment =>
    (c.install assignment, if unresolved && !last then .inl (.resolving true) else .inr .ok)

def setTask (index : Nat) (task : HeartbeatTask) : GroupCoordinator :=
  { c with tasks := update c.tasks index task }

def startConsumerHeartbeatTask : GroupCoordinator :=
  { c with
    memberInvalidated := false, running := true
    heartbeatEpoch := c.heartbeatEpoch + 1
    tasks := update c.tasks (c.heartbeatEpoch + 1) (.task true 0 none) }

def endBeat (index commands : Nat) : BeatEnd → GroupCoordinator
  | .ok => c.setTask index (.task false commands none)
  | .refused | .lost => c.setTask index (.task true commands none)
  | .fenced => { c.setTask index .ended with memberInvalidated := true, running := false }
  | .fatal =>
    { c.setTask index .ended with fatalError := true, memberInvalidated := true, running := false }

def taskTurn (catalogue : Catalogue) (reply : Reply) (index : Nat) : GroupCoordinator :=
  match c.tasks index with
  | .ended => c
  | .leaving =>
    if !reply.connected then (c.setTask index .ended).reset
    else { c.setTask index .left with state := .leaving, memberEpoch := -1 }
  | .left => (c.setTask index .ended).reset
  | .task sendFull commands (some beat) =>
    match c.beat catalogue reply beat with
    | (c, .inl beat) => c.setTask index (.task sendFull commands (some beat))
    | (c, .inr ended) => c.endBeat index commands ended
  | .task sendFull commands none =>
    if 0 < commands ∧ !reply.ticks then c.setTask index (.task true (commands - 1) none)
    else if !c.running || index ≠ c.heartbeatEpoch then c.setTask index .ended
    else if reply.expired then
      { c.setTask index (if c.state = .unjoined ∨ c.state = .dead then .ended else .leaving) with
        exceeded := true, running := false }
    else
      c.setTask index (.task sendFull commands (some (.connecting
        (if sendFull then some c.ownedAssignment else none))))

def acknowledge (target : List TopicPartitions) : GroupCoordinator :=
  let c := { c with ownedAssignment := target }
  match c.tasks c.heartbeatEpoch with
  | .task sendFull commands beat =>
    -- the channel holds ten commands
    if c.running ∧ commands < 10 then
      c.setTask c.heartbeatEpoch (.task sendFull (commands + 1) beat)
    else c
  | _ => c

def setSubscription : GroupCoordinator :=
  if c.state = .stable then { c with running := false, state := .preparingRebalance } else c

end GroupCoordinator

inductive PollStage where
  | idle
  | dropping (expired : Bool)
  | losing (expired : Bool)
  | checkingInvalidated
  | checkingMembership (invalidated : Bool)
  | checkingFatal
  | committing
  | entering
  | readingOwned
  | joining (owned : List TopicPartitions) (beat : Beat)
  | changing
  | applying
  | comparing (new : List PartitionKey)
  | revoking (new revoked added : List PartitionKey)
  | adding (new added : List PartitionKey)
  | assigning (new added : List PartitionKey)
  | acknowledging (new added : List PartitionKey) (target : List TopicPartitions)
  deriving DecidableEq

structure SentBeat where
  epoch : Int
  owned : Option (List TopicPartitions)
  assigned : List PartitionKey
  deriving DecidableEq

structure GroupMember where
  coordinator : GroupCoordinator := {}
  state : SubscriptionState := {}
  poll : PollStage := .idle
  sent : List SentBeat := []

inductive GroupInput where
  | poll (reply : Reply)
  | dropPoll
  | task (index : Nat) (reply : Reply)
  | setSubscription

namespace GroupMember

variable (catalogue : Catalogue) (g : GroupMember)

def sends (reply : Reply) : Beat → List SentBeat
  | .connecting owned =>
    if reply.connected then [⟨g.coordinator.memberEpoch, owned, g.state.assignedKeys⟩] else []
  | _ => []

def pollTurn (reply : Reply) : GroupMember :=
  let c := g.coordinator
  match g.poll with
  | .idle => { g with poll := if c.exceeded then .dropping true else .checkingInvalidated }
  | .dropping expired =>
    { g with state := g.state.clearAssignment, poll := .losing expired }
  | .losing true =>
    { g with
      coordinator := { c with exceeded := false, memberEpoch := 0, state := .unjoined }
      poll := .checkingInvalidated }
  | .losing false => { g with poll := .checkingFatal }
  | .checkingInvalidated =>
    { g with
      coordinator :=
        if c.memberInvalidated then { c.resetForKip848Fencing with memberInvalidated := false }
        else c
      poll := .checkingMembership c.memberInvalidated }
  | .checkingMembership invalidated =>
    { g with
      coordinator := { c with membershipLost := false }
      poll := if invalidated || c.membershipLost then .dropping false else .checkingFatal }
  | .checkingFatal =>
    { g with
      coordinator := { c with fatalError := false }
      poll := if c.fatalError then .idle else .committing }
  | .committing =>
    { g with
      poll :=
        if !reply.subscribed then .idle
        else if c.state = .unjoined ∨ c.state = .preparingRebalance then .entering
        else .changing }
  | .entering =>
    { g with
      poll :=
        if c.state = .stable ∧ c.running then .changing
        else if c.state = .leaving ∨ c.state = .dead then .idle
        else if c.memberEpoch = 0 then .joining [] (.connecting (some []))
        else .readingOwned }
  | .readingOwned =>
    { g with poll := .joining c.ownedAssignment (.connecting (some c.ownedAssignment)) }
  | .joining owned beat =>
    let sent := g.sent ++ g.sends reply beat
    match c.beat catalogue reply beat with
    | (c, .inl beat) => { g with coordinator := c, poll := .joining owned beat, sent }
    | (c, .inr .ok) =>
      { g with coordinator := c.startConsumerHeartbeatTask, poll := .changing, sent }
    | (c, .inr ended) =>
      { g with
        coordinator := c
        poll :=
          if reply.retries ∧ (ended = .refused ∨ ended = .lost) then
            .joining owned (.connecting (some owned))
          else .idle
        sent }
  | .changing =>
    { g with
      coordinator := { c with assignmentChanged := false }
      poll := if c.assignmentChanged then .applying else .idle }
  | .applying => { g with poll := .comparing c.assignment.allPartitions.dedup }
  | .comparing new =>
    let revoked := g.state.assignedKeys.filter (· ∉ new)
    let added := (new.filter (· ∉ g.state.partitions)).insertionSort PartitionKey.le
    { g with poll := if revoked.isEmpty then .adding new added else .revoking new revoked added }
  | .revoking new revoked added =>
    { g with state := g.state.removePartitions revoked, poll := .adding new added }
  | .adding new added =>
    { g with state := g.state.addPartitions added, poll := .assigning new added }
  | .assigning new added => { g with poll := .acknowledging new added c.targetAssignment }
  | .acknowledging _ _ target => { g with coordinator := c.acknowledge target, poll := .idle }

def step : GroupInput → GroupMember
  | .poll reply => g.pollTurn catalogue reply
  | .dropPoll => { g with poll := .idle }
  | .task index reply =>
    let sent :=
      match g.coordinator.tasks index with
      | .task _ _ (some beat) => g.sends reply beat
      | _ => []
    { g with coordinator := g.coordinator.taskTurn catalogue reply index, sent := g.sent ++ sent }
  | .setSubscription => { g with coordinator := g.coordinator.setSubscription }

def run (inputs : List GroupInput) : GroupMember := inputs.foldl (step catalogue) {}

end GroupMember

end Krafka.Consumer
