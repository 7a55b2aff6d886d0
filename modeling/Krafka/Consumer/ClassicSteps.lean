import Krafka.Consumer.Classic

/-! What a step of a classic group member can do, said once: to the coordinator's fields, to the
round in flight, and to the slot its outcome is parked in. -/

namespace Krafka.Consumer.Classic

open Function Krafka.Consumer.Classic.GroupMember

/-! The coordinator's own operations -/

structure Calm (c c' : GroupCoordinator) : Prop where
  topics : c'.subscribedTopics = c.subscribedTopics
  owned : c'.owned = c.owned
  pending : c'.pendingRebalance = c.pendingRebalance
  flight : c'.rejoinInFlight = c.rejoinInFlight
  epoch : c'.membershipEpoch = c.membershipEpoch
  invalidated : c'.memberInvalidated = c.memberInvalidated
  strategy : c'.negotiatedStrategy = c.negotiatedStrategy
  assignment : c'.assignment = c.assignment
  exceeded : c'.exceeded = c.exceeded
  stable : c'.state = .stable → c.state = .stable

namespace Calm

variable {c c' c'' : GroupCoordinator}

theorem refl (c : GroupCoordinator) : Calm c c := ⟨rfl, rfl, rfl, rfl, rfl, rfl, rfl, rfl, rfl, id⟩

theorem trans (first : Calm c c') (second : Calm c' c'') : Calm c c'' where
  topics := second.topics.trans first.topics
  owned := second.owned.trans first.owned
  pending := second.pending.trans first.pending
  flight := second.flight.trans first.flight
  epoch := second.epoch.trans first.epoch
  invalidated := second.invalidated.trans first.invalidated
  strategy := second.strategy.trans first.strategy
  assignment := second.assignment.trans first.assignment
  exceeded := second.exceeded.trans first.exceeded
  stable := first.stable ∘ second.stable

theorem setState (c : GroupCoordinator) (state : GroupState) (unstable : state ≠ .stable) :
    Calm c { c with state } :=
  ⟨rfl, rfl, rfl, rfl, rfl, rfl, rfl, rfl, rfl, fun stable => absurd stable unstable⟩

theorem requestRejoin (c : GroupCoordinator) : Calm c c.requestRejoin := setState c _ (by decide)

theorem dropCoordinator (c : GroupCoordinator) : Calm c c.dropCoordinator :=
  ⟨rfl, rfl, rfl, rfl, rfl, rfl, rfl, rfl, rfl, id⟩

theorem resetMemberIdentity (c : GroupCoordinator) : Calm c c.resetMemberIdentity :=
  ⟨rfl, rfl, rfl, rfl, rfl, rfl, rfl, rfl, rfl, id⟩

theorem foundCoordinator (c : GroupCoordinator) (node : Int) : Calm c (c.foundCoordinator node) := by
  have found : Calm c { c with hasCoordinator := true, coordinatorId := some node } :=
    ⟨rfl, rfl, rfl, rfl, rfl, rfl, rfl, rfl, rfl, id⟩
  unfold GroupCoordinator.foundCoordinator
  split
  · exact (found.trans (resetMemberIdentity _)).trans (requestRejoin _)
  · exact found

theorem connect (c : GroupCoordinator) (reply : Reply) : Calm c (c.connect reply).1 := by
  unfold GroupCoordinator.connect
  split
  · dsimp only
    split
    · exact refl c
    · exact dropCoordinator c
  · split
    · exact refl c
    · next node _ =>
      dsimp only
      split
      · exact foundCoordinator c node
      · exact (foundCoordinator c node).trans (dropCoordinator _)

theorem refuse (c : GroupCoordinator) (code : ErrorCode) : Calm c (c.refuse code) := by
  have forgets : Calm c (if code = .unknownMemberId ∨ code = .illegalGeneration then
      c.resetMemberIdentity else c) := by
    split
    · exact resetMemberIdentity c
    · exact refl c
  have drops : ∀ c : GroupCoordinator, Calm c
      (if isCoordinatorError code then c.dropCoordinator else c) := fun c => by
    split
    · exact dropCoordinator c
    · exact refl c
  exact (forgets.trans (drops _)).trans (setState _ _ (by decide))

end Calm

inductive RoundStage.Follows : RoundStage → RoundStage → Prop where
  | connecting : Follows .discovering .connecting
  | readingTopics : Follows .connecting .readingTopics
  | joining : Follows (.joining false) (.joining true)
  | assigning : Follows .connectingSync .assigning
  | syncing : Follows .assigning .syncing

def RoundStage.Fallible : RoundStage → Prop
  | .discovering | .connecting | .announcing | .joining _ | .connectingSync | .assigning
  | .syncing => True
  | _ => False

/-! The round -/

inductive RoundStep (g : GroupMember) (round : Round) : GroupMember → Prop where
  | starts (at_ : round.stage = .starting) :
      RoundStep g round
        { g with
          round := some
            { round with epoch := g.coordinator.membershipEpoch, stage := .discovering } }
  | goesOn {c : GroupCoordinator} {stage : RoundStage} (follows : round.stage.Follows stage)
      (calm : Calm g.coordinator c) :
      RoundStep g round { g with coordinator := c, round := some { round with stage } }
  | fails {c : GroupCoordinator} (error : KrafkaError) (fallible : round.stage.Fallible)
      (calm : Calm g.coordinator c) :
      RoundStep g round { g with coordinator := c, round := some (round.fail error) }
  | readsTopics (at_ : round.stage = .readingTopics) :
      RoundStep g round
        { g with
          round := some
            { round with topics := g.coordinator.subscribedTopics, stage := .readingOwned } }
  | readsOwned (at_ : round.stage = .readingOwned) :
      RoundStep g round
        { g with
          round := some
            { round with
              owned := if g.coordinator.isCooperative then g.coordinator.owned else []
              stage := .announcing } }
  | announces (at_ : round.stage = .announcing) :
      RoundStep g round
        { g with
          coordinator := { g.coordinator with state := .joining }
          round := some { round with sentOwned := some round.owned, stage := .joining false } }
  | joins {retried : Bool} (at_ : round.stage = .joining retried) (identity : Identity)
      (strategy : Option PartitionAssignmentStrategy) :
      RoundStep g round
        { g with
          coordinator :=
            { g.coordinator with
              identity, state := .awaitingSync
              negotiatedStrategy := strategy.getD g.coordinator.negotiatedStrategy }
          round := some { round with stage := .connectingSync }
          membership := g.membership + 1 }
  | syncs (at_ : round.stage = .syncing) (assignment : MemberAssignment) :
      RoundStep g round
        { g with
          coordinator := { g.coordinator with assignment, state := .stable }
          round := some { round with stage := .checking (.ok assignment) }
          joinedTopics := round.topics
          stableRound := some round.number
          fate := .unfinished }
  | keeps {outcome : Outcome} {stage : RoundStage} (at_ : round.stage = .checking outcome)
      (current : g.coordinator.membershipEpoch = round.epoch)
      (next : stage = .parking outcome ∨
        ∃ assignment, outcome = .ok assignment ∧ stage = .beating assignment) :
      RoundStep g round { g with round := some { round with stage } }
  | discards {outcome : Outcome} (at_ : round.stage = .checking outcome)
      (older : g.coordinator.membershipEpoch ≠ round.epoch) :
      RoundStep g round
        { g with
          round := some { round with stage := .clearing }
          fate := if g.stableRound = some round.number then .discarded else g.fate }
  | beats {assignment : MemberAssignment} (at_ : round.stage = .beating assignment) :
      RoundStep g round
        { g with
          coordinator := g.coordinator.startHeartbeatTask
          round := some { round with stage := .parking (.ok assignment) }
          tasks := update g.tasks g.coordinator.startHeartbeatTask.heartbeatEpoch .ticking }
  | parks {outcome : Outcome} (at_ : round.stage = .parking outcome) :
      RoundStep g round
        { g with
          coordinator := { g.coordinator with pendingRebalance := some outcome }
          round := some { round with stage := .clearing }
          fate := if g.stableRound = some round.number then .parked else g.fate
          delivered := (Outcome.partitions outcome).or g.delivered
          parkedIn := g.polls }
  | clears (at_ : round.stage = .clearing) :
      RoundStep g round
        { g with coordinator := { g.coordinator with rejoinInFlight := false }, round := none }

variable {g : GroupMember}

theorem roundTurn_step {round : Round} (at_ : g.round = some round)
    (reply : Reply) : RoundStep g round (g.roundTurn reply) := by
  unfold roundTurn
  rw [at_]
  dsimp only
  cases stage : round.stage with
  | starting => exact .starts stage
  | discovering =>
    dsimp only
    split
    · exact .goesOn (by rw [stage]; constructor) (.refl _)
    · split
      · exact .fails _ (stage ▸ trivial) (.refl _)
      · exact .goesOn (by rw [stage]; constructor) (.foundCoordinator _ _)
  | connecting | connectingSync =>
    dsimp only
    split
    · exact .goesOn (by rw [stage]; constructor) (.connect _ _)
    · exact .fails _ (stage ▸ trivial) (.connect _ _)
  | readingTopics => exact .readsTopics stage
  | readingOwned => exact .readsOwned stage
  | announcing =>
    dsimp only
    split
    · exact .announces stage
    · exact .fails _ (stage ▸ trivial) (.setState _ _ (by decide))
  | joining =>
    dsimp only
    split
    · exact .fails _ (stage ▸ trivial) (.setState _ _ (by decide))
    · exact .fails _ (stage ▸ trivial) (.refl _)
    · split
      · exact .fails _ (stage ▸ trivial) (.refuse _ _)
      · next fresh =>
        refine .goesOn ?_ ⟨rfl, rfl, rfl, rfl, rfl, rfl, rfl, rfl, rfl, id⟩
        rw [stage, Bool.eq_false_of_not_eq_true fresh]
        exact .joining
    · exact .fails _ (stage ▸ trivial) (.refuse _ _)
    · exact .joins stage _ _
  | assigning =>
    dsimp only
    split
    · exact .goesOn (by rw [stage]; constructor) (.refl _)
    · exact .fails _ (stage ▸ trivial) (.refl _)
  | syncing =>
    dsimp only
    split
    · exact .fails _ (stage ▸ trivial) (.setState _ _ (by decide))
    · exact .fails _ (stage ▸ trivial) (.refl _)
    · exact .fails _ (stage ▸ trivial) (.refuse _ _)
    · exact .syncs stage _
  | checking =>
    dsimp only
    split
    · next current =>
      split
      · split
        · exact .keeps stage current (.inr ⟨_, rfl, rfl⟩)
        · exact .keeps stage current (.inl rfl)
      · exact .keeps stage current (.inl rfl)
    · next older => exact .discards stage older
  | beating => exact .beats stage
  | parking => exact .parks stage
  | clearing => exact .clears stage

/-! What fails -/

section Fail

variable (round : Round) (error : KrafkaError)

theorem Round.fail_stage :
    (round.fail error).stage = .discovering ∨ (round.fail error).stage = .checking (.error error) := by
  unfold Round.fail
  split
  · exact .inl rfl
  · exact .inr rfl

theorem Round.fail_eq :
    (round.fail error).number = round.number ∧ (round.fail error).epoch = round.epoch ∧
      (round.fail error).owned = round.owned ∧
      (round.fail error).sentOwned = round.sentOwned := by
  unfold Round.fail
  split <;> exact ⟨rfl, rfl, rfl, rfl⟩

end Fail

/-! Leaving -/

structure LeaveStep (c : GroupCoordinator) (stage : LeaveStage) (c' : GroupCoordinator) : Prop where
  topics : c'.subscribedTopics = c.subscribedTopics
  flight : c'.rejoinInFlight = c.rejoinInFlight
  invalidated : c'.memberInvalidated = c.memberInvalidated
  strategy : c'.negotiatedStrategy = c.negotiatedStrategy
  exceeded : c'.exceeded = c.exceeded
  stable : c'.state = .stable → c.state = .stable ∧ c'.assignment = c.assignment
  epoch : c'.membershipEpoch = c.membershipEpoch ∨ stage = .bumping
  pending : c'.pendingRebalance = c.pendingRebalance ∨
    c'.pendingRebalance = none ∧ (stage = .clearing ∨ c'.state = .unjoined)
  owned : c'.owned = c.owned ∨ c'.owned = []

variable {c : GroupCoordinator}

theorem Calm.leaves {c' : GroupCoordinator} (calm : Calm c c') (stage : LeaveStage) :
    LeaveStep c stage c' :=
  ⟨calm.topics, calm.flight, calm.invalidated, calm.strategy, calm.exceeded,
    fun stable => ⟨calm.stable stable, calm.assignment⟩, .inl calm.epoch, .inl calm.pending, .inl calm.owned⟩

theorem leaveStep_reset {c' : GroupCoordinator} (calm : Calm c c') (stage : LeaveStage) :
    LeaveStep c stage c'.stopHeartbeatTask.reset :=
  ⟨calm.topics, calm.flight, calm.invalidated, calm.strategy, calm.exceeded, nofun, .inl calm.epoch,
    .inr ⟨rfl, .inr rfl⟩, .inr rfl⟩

theorem leaveTurn_step (c : GroupCoordinator) (reply : Reply) (stage : LeaveStage) :
    LeaveStep c stage (c.leaveTurn reply stage).1 := by
  cases stage with
  | bumping => exact ⟨rfl, rfl, rfl, rfl, rfl, (⟨·, rfl⟩), .inr rfl, .inl rfl, .inl rfl⟩
  | clearing => exact ⟨rfl, rfl, rfl, rfl, rfl, (⟨·, rfl⟩), .inl rfl, .inr ⟨rfl, .inl rfl⟩, .inl rfl⟩
  | checking =>
    simp only [GroupCoordinator.leaveTurn]
    split
    · exact ⟨rfl, rfl, rfl, rfl, rfl, (⟨·, rfl⟩), .inl rfl, .inl rfl, .inl rfl⟩
    · split
      · exact ⟨rfl, rfl, rfl, rfl, rfl, nofun, .inl rfl, .inr ⟨rfl, .inr rfl⟩, .inr rfl⟩
      · exact (Calm.refl c).leaves _
  | connecting =>
    simp only [GroupCoordinator.leaveTurn]
    split
    · exact ((Calm.connect c reply).trans (.setState _ _ (by decide))).leaves _
    · exact leaveStep_reset (.connect c reply) _
  | leaving => exact leaveStep_reset (.refl c) _

/-! Everything else -/

def GroupInput.leaves (g : GroupMember) : GroupInput → Option LeaveStage
  | .task index _ =>
    match g.tasks index with
    | .leaving stage => some stage
    | _ => none
  | .unsubscribe _ =>
    match g.unsubscribe with
    | .leaving stage => some stage
    | _ => none
  | _ => none

def GroupInput.turns (g : GroupMember) : GroupInput → Option Round
  | .round _ => g.round
  | _ => none

def GroupInput.subscribes (g : GroupMember) : GroupInput → Option (List String)
  | .setSubscription topics => some (topics.insertionSort (· ≤ ·))
  | .unsubscribe _ => if g.unsubscribe = .unsubscribing then some [] else none
  | _ => none

def SameRound (g g' : GroupMember) : Prop :=
  g'.round = g.round ∧ g'.coordinator.rejoinInFlight = g.coordinator.rejoinInFlight ∨
    g.coordinator.rejoinInFlight = false ∧ g'.coordinator.rejoinInFlight ∧
      ∃ restartHeartbeat, g'.round = some { number := g.rounds, restartHeartbeat }

structure SameTerms (c c' : GroupCoordinator) : Prop where
  stable : c'.state = .stable → c.state = .stable
  topics : c'.subscribedTopics = c.subscribedTopics
  flight : c'.rejoinInFlight = c.rejoinInFlight
  epoch : c'.membershipEpoch = c.membershipEpoch
  strategy : c'.negotiatedStrategy = c.negotiatedStrategy
  assignment : c'.assignment = c.assignment

theorem Calm.sameTerms {c c' : GroupCoordinator} (calm : Calm c c') : SameTerms c c' :=
  ⟨calm.stable, calm.topics, calm.flight, calm.epoch, calm.strategy, calm.assignment⟩

structure Besides (g : GroupMember) (input : GroupInput) (g' : GroupMember) : Prop where
  stable : g'.coordinator.state = .stable → g.coordinator.state = .stable
  round : SameRound g g'
  joined : g'.joinedTopics = g.joinedTopics
  stableRound : g'.stableRound = g.stableRound
  membership : g'.membership = g.membership
  strategy : g'.coordinator.negotiatedStrategy = g.coordinator.negotiatedStrategy
  assignment : g'.coordinator.state = .stable →
    g'.coordinator.assignment = g.coordinator.assignment
  topics : g'.coordinator.subscribedTopics = g.coordinator.subscribedTopics ∨
    input.subscribes g = some g'.coordinator.subscribedTopics ∧ g'.coordinator.state ≠ .stable
  epoch : g'.coordinator.membershipEpoch = g.coordinator.membershipEpoch ∨
    input.leaves g = some .bumping

namespace Besides

variable {g g' : GroupMember} {input : GroupInput}

theorem of_kept (kept : SameTerms g.coordinator g'.coordinator) (round : g'.round = g.round)
    (joined : g'.joinedTopics = g.joinedTopics) (stableRound : g'.stableRound = g.stableRound)
    (membership : g'.membership = g.membership) : Besides g input g' :=
  ⟨kept.stable, .inl ⟨round, kept.flight⟩, joined, stableRound, membership, kept.strategy,
    fun _ => kept.assignment, .inl kept.topics, .inl kept.epoch⟩

end Besides

section Turns

variable (g : GroupMember) (input : GroupInput)

theorem calm_needsRejoin (c : GroupCoordinator) : Calm c c.needsRejoin.2 := by
  simp only [GroupCoordinator.needsRejoin]
  split
  · exact ⟨rfl, rfl, rfl, rfl, rfl, rfl, rfl, rfl, rfl, nofun⟩
  · exact .refl c

/-- What a turn of the poll path does to the coordinator: little, or it spawns a round, or it takes
the outcome out of the slot. -/
inductive PollStep (g : GroupMember) : GroupMember → Prop where
  | moves {c : GroupCoordinator} (kept : SameTerms g.coordinator c)
      (pending : c.pendingRebalance = g.coordinator.pendingRebalance) (state : SubscriptionState)
      (poll : PollStage) (delivered : Option (List PartitionKey)) (polls : Nat) :
      PollStep g { g with coordinator := c, state, poll, delivered, polls }
  | spawns (idle : g.coordinator.rejoinInFlight = false) (poll : PollStage) :
      PollStep g
        { g with
          coordinator := { g.coordinator with rejoinInFlight := true }
          round := some { number := g.rounds, restartHeartbeat := true }
          rounds := g.rounds + 1, poll }
  | takes {c : GroupCoordinator} (filled : g.coordinator.pendingRebalance.isSome)
      (kept : SameTerms g.coordinator c) (pending : c.pendingRebalance = none) (poll : PollStage) :
      PollStep g
        { g with coordinator := c, poll, fate := if g.fate = .parked then .taken else g.fate }

theorem pollStep_takePending {outcome : Outcome}
    (filled : g.coordinator.pendingRebalance = some outcome) (again : Bool) :
    PollStep g (g.takePending.applyJoin outcome again) := by
  have some_ : g.coordinator.pendingRebalance.isSome := by rw [filled]; rfl
  have taken : (if g.fate = .parked then .taken else g.fate) = g.takePending.fate := by
    simp [takePending, some_]
  have step {c : GroupCoordinator} (poll : PollStage) (kept : SameTerms g.coordinator c)
      (pending : c.pendingRebalance = none) :
      PollStep g { g.takePending with coordinator := c, poll } := by
    have takes := PollStep.takes some_ kept pending poll
    rwa [taken] at takes
  cases outcome with
  | ok => exact step _ ⟨id, rfl, rfl, rfl, rfl, rfl⟩ (by rfl)
  | error => exact step _ ⟨nofun, rfl, rfl, rfl, rfl, rfl⟩ (by rfl)

theorem pollTurn_step : PollStep g g.pollTurn := by
  have quiet : SameTerms g.coordinator g.coordinator := ⟨id, rfl, rfl, rfl, rfl, rfl⟩
  unfold pollTurn
  cases g.poll
  case taking =>
    dsimp only
    split
    · next filled => exact pollStep_takePending g filled false
    · exact .moves quiet rfl _ _ _ _
  case takingAgain =>
    dsimp only
    split
    · next filled => exact pollStep_takePending g filled true
    · exact .moves quiet rfl _ _ _ _
  case losing expired =>
    cases expired with
    | false => exact .moves quiet rfl _ _ _ _
    | true =>
      refine .moves ?_ ?_ _ _ _ _
      · exact ⟨nofun, rfl, rfl, rfl, rfl, rfl⟩
      · rfl
  case resetting =>
    refine .moves ?_ ?_ _ _ _ _
    · exact ⟨nofun, rfl, rfl, rfl, rfl, rfl⟩
    · rfl
  case assigning apply =>
    dsimp only
    split
    · exact .moves (Calm.requestRejoin _).sameTerms rfl _ _ _ _
    · exact .moves quiet rfl _ _ _ _
  case checkingNeed =>
    have calm := calm_needsRejoin g.coordinator
    exact .moves calm.sameTerms calm.pending _ _ _ _
  case spawning =>
    dsimp only [spawnRejoin]
    split
    · exact .moves quiet rfl _ _ _ _
    · next grounded => exact .spawns (by simpa using grounded) _
  all_goals
    refine .moves ?_ ?_ _ _ _ _
    · exact ⟨id, rfl, rfl, rfl, rfl, rfl⟩
    · rfl

theorem besides_pollTurn : Besides g input g.pollTurn := by
  have step := pollTurn_step g
  generalize g.pollTurn = g' at step
  cases step with
  | moves kept | takes _ kept => exact .of_kept kept rfl rfl rfl rfl
  | spawns idle =>
    exact ⟨id, .inr ⟨idle, rfl, true, rfl⟩, rfl, rfl, rfl, rfl, fun _ => rfl, .inl rfl, .inl rfl⟩

theorem calm_refuseOffsets (c : GroupCoordinator) (code : ErrorCode) :
    Calm c
      (if code = .notCoordinator ∨ code = .coordinatorNotAvailable then c.dropCoordinator
      else if code = .staleMemberEpoch ∨ code = .unknownMemberId ∨ code = .fencedMemberEpoch then
        c.requestRejoin
      else c) := by
  split
  · exact .dropCoordinator _
  · split
    · exact .requestRejoin _
    · exact .refl _

/-! The slot of the outcome -/

inductive SlotStep (g : GroupMember) (input : GroupInput) (g' : GroupMember) : Prop where
  | keeps (pending : g'.coordinator.pendingRebalance = g.coordinator.pendingRebalance)
      (fate : g'.fate = g.fate)
  | takes (filled : g.coordinator.pendingRebalance.isSome)
      (pending : g'.coordinator.pendingRebalance = none)
      (fate : g'.fate = if g.fate = .parked then .taken else g.fate)
  | clears (leaves : input.leaves g = some .clearing ∨ g'.coordinator.state = .unjoined)
      (pending : g'.coordinator.pendingRebalance = none)
      (fate : g'.fate = if g.coordinator.pendingRebalance.isSome ∧ g.fate = .parked then .discarded
        else g.fate)

theorem slot_pollTurn : SlotStep g input g.pollTurn := by
  have step := pollTurn_step g
  generalize g.pollTurn = g' at step
  cases step with
  | moves _ pending => exact .keeps pending rfl
  | spawns => exact .keeps rfl rfl
  | takes filled _ pending => exact .takes filled pending rfl

end Turns

/-! What each task writes at most -/

section Writes

variable (g : GroupMember)

theorem spawnRejoin_eq (restartHeartbeat : Bool) :
    ∃ flight round rounds, g.spawnRejoin restartHeartbeat =
      { g with coordinator := { g.coordinator with rejoinInFlight := flight }, round, rounds } := by
  unfold spawnRejoin
  split
  · exact ⟨g.coordinator.rejoinInFlight, g.round, g.rounds, rfl⟩
  · exact ⟨_, _, _, rfl⟩

theorem pollTurn_eq :
    ∃ c state round rounds poll fate delivered polls, g.pollTurn =
      { g with coordinator := c, state, round, rounds, poll, fate, delivered, polls } := by
  have step := pollTurn_step g
  generalize g.pollTurn = g' at step
  cases step <;> exact ⟨_, _, _, _, _, _, _, _, rfl⟩

theorem RoundStep.eq {g g' : GroupMember} {round : Round} (step : RoundStep g round g') :
    ∃ c round tasks joinedTopics stableRound fate membership delivered parkedIn, g' =
      { g with
        coordinator := c, round, tasks, joinedTopics, stableRound, fate, membership, delivered
        parkedIn } := by
  cases step <;> exact ⟨_, _, _, _, _, _, _, _, _, rfl⟩

end Writes

/-! The other tasks -/

def Withdraws (g : GroupMember) (stage : LeaveStage) (c : GroupCoordinator) (fate : Fate)
    (delivered : Option (List PartitionKey)) : Prop :=
  c.pendingRebalance = g.coordinator.pendingRebalance ∧ fate = g.fate ∧ delivered = g.delivered ∨
    c.pendingRebalance = none ∧ (stage = .clearing ∨ c.state = .unjoined) ∧
      fate = (if g.coordinator.pendingRebalance.isSome ∧ g.fate = .parked then .discarded
        else g.fate) ∧
      delivered = if g.untaken.isSome then none else g.delivered

inductive OtherStep (g : GroupMember) (input : GroupInput) : GroupMember → Prop where
  | calm {c : GroupCoordinator} (calm : Calm g.coordinator c) (subscription : List String)
      (tasks : Nat → HeartbeatTask) (unsubscribe : UnsubscribeStage) :
      OtherStep g input { g with coordinator := c, subscription, tasks, unsubscribe }
  | spawns {c : GroupCoordinator} (calm : Calm g.coordinator c)
      (idle : g.coordinator.rejoinInFlight = false) (tasks : Nat → HeartbeatTask)
      (restartHeartbeat : Bool) :
      OtherStep g input
        { g with
          coordinator := { c with rejoinInFlight := true }
          round := some { number := g.rounds, restartHeartbeat }
          rounds := g.rounds + 1
          tasks }
  | expires (tasks : Nat → HeartbeatTask) :
      OtherStep g input
        { g with coordinator := { g.coordinator with exceeded := true, running := false }, tasks }
  | needsRejoin (tasks : Nat → HeartbeatTask) :
      OtherStep g input
        { g with coordinator := { g.coordinator with rebalanceNeeded := true }, tasks }
  | loses {index membership : Nat} {reply : Reply} {code : ErrorCode}
      (answers : input = .task index reply) (at_ : g.tasks index = .waiting membership)
      (answer : reply.beat = some code)
      (lost : code ≠ .none ∧ code ≠ .rebalanceInProgress ∧ isCoordinatorError code = false)
      (fatalError : Option KrafkaError) (tasks : Nat → HeartbeatTask) :
      OtherStep g input
        { g with
          coordinator :=
            { g.coordinator.signalMemberInvalidated.stopHeartbeatTask with fatalError }
          tasks, lostUnder := some membership }
  | revokes {state : SubscriptionState}
      (fewer : ∀ key ∈ state.partitions, key ∈ g.state.partitions) (subscription : List String)
      (unsubscribe : UnsubscribeStage) :
      OtherStep g input { g with state, subscription, delivered := g.untaken, unsubscribe }
  | disowns (unsubscribe : UnsubscribeStage) :
      OtherStep g input
        { g with coordinator := { g.coordinator with owned := [] }, unsubscribe }
  | subscribes {topics : List String}
      (at_ : input.subscribes g = some (topics.insertionSort (· ≤ ·)))
      (unsubscribe : UnsubscribeStage) :
      OtherStep g input
        { g with coordinator := g.coordinator.setSubscription topics, unsubscribe }
  | leaves {stage : LeaveStage} {c : GroupCoordinator} {fate : Fate}
      {delivered : Option (List PartitionKey)} (at_ : input.leaves g = some stage)
      (step : LeaveStep g.coordinator stage c) (withdraws : Withdraws g stage c fate delivered)
      (tasks : Nat → HeartbeatTask) (unsubscribe : UnsubscribeStage) :
      OtherStep g input { g with coordinator := c, fate, delivered, tasks, unsubscribe }
  | commits {reply : Reply} {c : GroupCoordinator} (at_ : input = .commit reply)
      (calm : Calm g.coordinator c) (commit : CommitStage) (sentCommits : List SentCommit) :
      OtherStep g input { g with coordinator := c, commit, sentCommits }
  | dropsCommit : OtherStep g input { g with commit := .idle }
  | dropsPoll (at_ : input = .dropPoll) (awaits : g.poll.awaits) :
      OtherStep g input { g with poll := .idle }
  | operates {state : SubscriptionState} (keys : SameKeys g.state state)
      (outstanding : List Delivery) : OtherStep g input { g with state, outstanding }

section Others

variable (g : GroupMember) (input : GroupInput)

theorem leaveTurn_eq (reply : Reply) (stage : LeaveStage) :
    ∃ fate delivered, Withdraws g stage (g.coordinator.leaveTurn reply stage).1 fate delivered ∧
      (g.leaveTurn reply stage).1 =
        { g with coordinator := (g.coordinator.leaveTurn reply stage).1, fate, delivered } := by
  have step := leaveTurn_step g.coordinator reply stage
  unfold leaveTurn withdraw
  dsimp only
  split
  · next cleared =>
    have empty := Option.isNone_iff_eq_none.mp cleared
    cases slot : g.coordinator.pendingRebalance with
    | none => exact ⟨g.fate, g.delivered, .inl ⟨empty.trans slot.symm, rfl, rfl⟩, rfl⟩
    | some =>
      refine ⟨_, _, .inr ⟨empty, ?_, ?_, rfl⟩, rfl⟩
      · rcases step.pending with kept | ⟨-, why⟩
        · rw [empty, slot] at kept
          cases kept
        · exact why
      · simp [slot]
  · next filled =>
    refine ⟨g.fate, g.delivered, .inl ⟨?_, rfl, rfl⟩, rfl⟩
    rcases step.pending with kept | ⟨none_, -⟩
    · exact kept
    · rw [none_] at filled
      exact absurd rfl filled

theorem other_spawnRejoin {c : GroupCoordinator} (calm : Calm g.coordinator c)
    (tasks : Nat → HeartbeatTask) (restartHeartbeat : Bool) :
    OtherStep g input
      (({ g with coordinator := c, tasks } : GroupMember).spawnRejoin restartHeartbeat) := by
  unfold spawnRejoin
  split
  · exact .calm calm _ _ _
  · next grounded =>
    refine .spawns calm ?_ _ _
    rw [← calm.flight]
    simpa using grounded

theorem other_taskTurn (reply : Reply) (index : Nat) :
    OtherStep g (.task index reply) (g.taskTurn reply index) := by
  unfold taskTurn
  dsimp only
  split
  · exact .calm (.refl _) _ _ _
  · split
    · exact .calm (.refl _) _ _ _
    · split
      · exact .expires _
      · split <;> exact .calm (.refl _) _ _ _
  · split
    · exact .calm (.connect _ _) _ _ _
    · exact .calm ((Calm.connect _ _).trans (.dropCoordinator _)) _ _ _
  · next membership at_ =>
    split
    · exact .calm (.dropCoordinator _) _ _ _
    · exact .calm (.refl _) _ _ _
    · split
      · exact other_spawnRejoin g _ (.refl _) _ false
      · exact .needsRejoin _
    · next code notNone notRebalance answer =>
      split
      · next unknown =>
        have lost : isCoordinatorError code = false := by rcases unknown with rfl | rfl <;> rfl
        exact .loses rfl at_ answer ⟨notNone, notRebalance, lost⟩ _ _
      · split
        · exact .calm (.dropCoordinator _) _ _ _
        · next lost =>
          exact .loses rfl at_ answer ⟨notNone, notRebalance, by simpa using lost⟩ _ _
  · next stage at_ =>
    have leaves : (GroupInput.task index reply).leaves g = some stage := by
      simp only [GroupInput.leaves, at_]
    obtain ⟨fate, delivered, withdraws, same⟩ := leaveTurn_eq g reply stage
    rw [same]
    split <;> exact .leaves leaves (leaveTurn_step _ reply stage) withdraws _ _

theorem other_unsubscribeTurn (reply : Reply) :
    OtherStep g (.unsubscribe reply) (g.unsubscribeTurn reply) := by
  unfold unsubscribeTurn
  dsimp only
  split
  · exact .calm (.refl _) _ _ _
  · exact .revokes (fun _ mem => (SubscriptionState.mem_removePartitions.mp mem).1) _ _
  · exact .disowns _
  · next at_ => exact .subscribes (by simp [GroupInput.subscribes, at_]) _
  · next stage at_ =>
    have leaves : (GroupInput.unsubscribe reply).leaves g = some stage := by
      simp only [GroupInput.leaves, at_]
    obtain ⟨fate, delivered, withdraws, same⟩ := leaveTurn_eq g reply stage
    rw [same]
    exact .leaves leaves (leaveTurn_step _ reply stage) withdraws _ _
  · exact .revokes (fun _ mem => absurd mem (AList.notMem_empty _)) _ _

theorem other_commitTurn (reply : Reply) : OtherStep g (.commit reply) (g.commitTurn reply) := by
  unfold commitTurn
  dsimp only
  split
  · exact .commits rfl (.refl _) _ _
  · exact .commits rfl (.refl _) _ _
  · split <;> exact .commits rfl (.connect _ _) _ _
  · split
    · exact .commits rfl (.refl _) _ _
    · exact .commits rfl (.refl _) _ _
    · split
      · exact .commits rfl (.requestRejoin _) _ _
      · refine .commits rfl ?_ _ _
        split
        · exact .dropCoordinator _
        · exact .refl _
  · exact .commits rfl (.refl _) _ _

theorem other_step {input : GroupInput} (polls : input ≠ .poll)
    (turns : ∀ reply, input ≠ .round reply) : OtherStep g input (g.step input) := by
  cases input with
  | poll => exact absurd rfl polls
  | round reply => exact absurd rfl (turns reply)
  | task index reply => exact other_taskTurn g reply index
  | unsubscribe reply => exact other_unsubscribeTurn g reply
  | commit reply => exact other_commitTurn g reply
  | dropPoll =>
    simp only [step]
    split
    · next awaits => exact .dropsPoll rfl awaits
    · exact .calm (.refl _) _ _ _
  | dropUnsubscribe =>
    simp only [step]
    split <;> exact .calm (.refl _) _ _ _
  | dropCommit => exact .dropsCommit
  | subscribe => exact .calm (.refl _) _ _ _
  | setSubscription => exact .subscribes rfl _
  | joinNow =>
    simp only [step]
    split
    · split
      · exact other_spawnRejoin g _ (calm_needsRejoin _) _ true
      · exact .calm (calm_needsRejoin _) _ _ _
    · exact .calm (.refl _) _ _ _
  | fetchOffsets => exact .calm (.connect _ _) _ _ _
  | refuseOffsets => exact .calm (calm_refuseOffsets _ _) _ _ _
  | operation =>
    simp only [step]
    split
    · exact .calm (.refl _) _ _ _
    · next still =>
      exact .operates (Client.step_sameKeys { state := g.state, outstanding := g.outstanding }
        (by simpa using still)) _

end Others

/-! The round, seen from the other tasks -/

theorem setSubscription_stable {topics : List String}
    (stable : (c.setSubscription topics).state = .stable) :
    c.state = .stable ∧ (c.setSubscription topics).subscribedTopics = c.subscribedTopics := by
  simp only [GroupCoordinator.setSubscription] at stable ⊢
  split at stable
  · cases stable
  · next kept =>
    rw [if_neg kept]
    refine ⟨stable, ?_⟩
    by_contra changed
    exact kept ⟨changed, stable⟩

theorem setSubscription_eq (c : GroupCoordinator) (topics : List String) :
    ∃ state, c.setSubscription topics =
      { c with subscribedTopics := topics.insertionSort (· ≤ ·), state } := by
  simp only [GroupCoordinator.setSubscription]
  split
  · exact ⟨_, rfl⟩
  · exact ⟨c.state, rfl⟩

namespace OtherStep

variable {g g' : GroupMember} {input : GroupInput}

theorem besides (step : OtherStep g input g') : Besides g input g' := by
  cases step with
  | calm calm | commits _ calm => exact .of_kept calm.sameTerms rfl rfl rfl rfl
  | spawns calm idle tasks restartHeartbeat =>
    exact ⟨calm.stable, .inr ⟨idle, rfl, restartHeartbeat, rfl⟩, rfl, rfl, rfl, calm.strategy,
      fun _ => calm.assignment, .inl calm.topics, .inl calm.epoch⟩
  | subscribes at_ unsubscribe =>
    rename_i topics
    obtain ⟨state, same⟩ := setSubscription_eq g.coordinator topics
    refine ⟨fun stable => (setSubscription_stable stable).1, ?_, rfl, rfl, rfl, ?_, ?_, ?_, ?_⟩
    · exact .inl ⟨rfl, by rw [same]⟩
    · rw [same]
    · rw [same]
      exact fun _ => rfl
    · by_cases stable : (g.coordinator.setSubscription topics).state = .stable
      · exact .inl (setSubscription_stable stable).2
      · refine .inr ⟨?_, stable⟩
        rw [at_, same]
    · rw [same]
      exact .inl rfl
  | leaves at_ step =>
    refine ⟨fun stable => (step.stable stable).1, .inl ⟨rfl, step.flight⟩, rfl, rfl, rfl,
      step.strategy, fun stable => (step.stable stable).2, .inl step.topics, ?_⟩
    exact step.epoch.imp_right fun bumping => at_.trans (congrArg some bumping)
  | expires | needsRejoin | loses | revokes | disowns | dropsCommit | dropsPoll | operates =>
    exact .of_kept ⟨id, rfl, rfl, rfl, rfl, rfl⟩ rfl rfl rfl rfl

theorem slot (step : OtherStep g input g') : SlotStep g input g' := by
  cases step with
  | calm calm | commits _ calm | spawns calm => exact .keeps calm.pending rfl
  | subscribes =>
    obtain ⟨state, same⟩ := setSubscription_eq g.coordinator _
    exact .keeps (by rw [same]) rfl
  | leaves at_ step withdraws =>
    rcases withdraws with ⟨kept, same, -⟩ | ⟨empty, why, fate, -⟩
    · exact .keeps kept same
    · exact .clears (why.imp_left fun clearing => at_.trans (congrArg some clearing)) empty fate
  | expires | needsRejoin | loses | revokes | disowns | dropsCommit | dropsPoll | operates =>
    exact .keeps rfl rfl

end OtherStep

variable {input : GroupInput}

theorem besides_step (g : GroupMember) (other : ∀ reply, input ≠ .round reply) :
    Besides g input (g.step input) := by
  by_cases polls : input = .poll
  · subst polls
    exact besides_pollTurn g _
  · exact (other_step g polls other).besides

theorem slot_step (g : GroupMember) (other : ∀ reply, input ≠ .round reply) :
    SlotStep g input (g.step input) := by
  by_cases polls : input = .poll
  · subst polls
    exact slot_pollTurn g _
  · exact (other_step g polls other).slot

/-! The poll path, seen from elsewhere -/

structure Elsewhere (g g' : GroupMember) : Prop where
  poll : g'.poll = g.poll ∨ g.poll.awaits ∧ g'.poll = .idle
  fewer : ∀ key ∈ g'.state.partitions, key ∈ g.state.partitions
  exceeded : g.coordinator.exceeded → g'.coordinator.exceeded = true

theorem elsewhere_roundStep {g' : GroupMember} {round : Round} (step : RoundStep g round g') :
    Elsewhere g g' := by
  cases step with
  | goesOn _ calm | fails _ _ calm => exact ⟨.inl rfl, fun _ => id, calm.exceeded.trans⟩
  | starts | readsTopics | readsOwned | announces | joins | syncs | keeps | discards | beats | parks
  | clears => exact ⟨.inl rfl, fun _ => id, id⟩

theorem OtherStep.elsewhere {g' : GroupMember} (step : OtherStep g input g') : Elsewhere g g' := by
  cases step with
  | calm calm | commits _ calm | spawns calm => exact ⟨.inl rfl, fun _ => id, calm.exceeded.trans⟩
  | expires => exact ⟨.inl rfl, fun _ => id, fun _ => rfl⟩
  | revokes fewer => exact ⟨.inl rfl, fewer, id⟩
  | subscribes =>
    obtain ⟨state, same⟩ := setSubscription_eq g.coordinator _
    exact ⟨.inl rfl, fun _ => id, by rw [same]; exact id⟩
  | leaves at_ step => exact ⟨.inl rfl, fun _ => id, step.exceeded.trans⟩
  | dropsPoll at_ awaits => exact ⟨.inr ⟨awaits, rfl⟩, fun _ => id, id⟩
  | operates keys => exact ⟨.inl rfl, fun key => (keys key).mp, id⟩
  | needsRejoin | loses | disowns | dropsCommit => exact ⟨.inl rfl, fun _ => id, id⟩

theorem stepwise {Good : GroupMember → Prop} (g : GroupMember) (input : GroupInput) (good : Good g)
    (round : ∀ {round g'}, g.round = some round → RoundStep g round g' → Good g')
    (others : (∀ reply, input ≠ .round reply) → Good (g.step input)) : Good (g.step input) := by
  by_cases turn : ∃ reply, input = .round reply
  · obtain ⟨reply, rfl⟩ := turn
    cases at_ : g.round with
    | none =>
      have same : g.step (.round reply) = g := by
        simp only [step, roundTurn, at_]
      rw [same]
      exact good
    | some =>
      rw [step]
      exact round at_ (roundTurn_step at_ reply)
  · exact others fun reply same => turn ⟨reply, same⟩

theorem elsewhere_step (g : GroupMember) (other : input ≠ .poll) : Elsewhere g (g.step input) :=
  stepwise g input ⟨.inl rfl, fun _ => id, id⟩ (fun _ step => elsewhere_roundStep step)
    fun turns => (other_step g other turns).elsewhere

end Krafka.Consumer.Classic
