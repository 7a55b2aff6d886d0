import Krafka.Consumer.ClassicSteps
import Krafka.Library.Runs

/-! What a stable member has joined with, and what became of the assignment it joined for. The
first depends on where in a round the subscription changes, the second on where the member
leaves. -/

namespace Krafka.Consumer.Classic

open Runs

def GroupMember.fresh (groupId : String) (isStatic : Bool)
    (negotiatedStrategy : PartitionAssignmentStrategy) : GroupMember :=
  { coordinator := { groupId, isStatic, negotiatedStrategy } }

/-! The subscription -/

def Round.hasTopics (round : Round) : Bool :=
  match round.stage with
  | .readingOwned | .announcing | .joining _ | .connectingSync | .assigning | .syncing => true
  | _ => false

/-- The subscription does not change between a round's reading it and its end. -/
def Punctual (g : GroupMember) (input : GroupInput) : Prop :=
  ∀ topics ∈ input.subscribes g, topics ≠ g.coordinator.subscribedTopics →
    ∀ round ∈ g.round, round.hasTopics = false

instance (g : GroupMember) (input : GroupInput) : Decidable (Punctual g input) :=
  inferInstanceAs (Decidable (∀ topics ∈ input.subscribes g, _))

structure Subscribed (g : GroupMember) : Prop where
  held : ∀ round, g.round = some round → round.hasTopics →
    round.topics = g.coordinator.subscribedTopics
  joined : g.coordinator.state = .stable → g.joinedTopics = g.coordinator.subscribedTopics

namespace Subscribed

variable {g g' : GroupMember}

theorem roundStep {round : Round} (subscribed : Subscribed g) (at_ : g.round = some round)
    (step : RoundStep g round g') : Subscribed g' := by
  have kept {c : GroupCoordinator} (calm : Calm g.coordinator c) :
      c.state = .stable → g.joinedTopics = c.subscribedTopics := fun stable =>
    (subscribed.joined (calm.stable stable)).trans calm.topics.symm
  cases step with
  | starts | discards | beats | parks => exact ⟨by rintro _ ⟨⟩ ⟨⟩, subscribed.joined⟩
  | goesOn follows calm =>
    refine ⟨?_, kept calm⟩
    rintro _ ⟨⟩ has
    have had : round.hasTopics := by
      generalize stage : round.stage = before at follows
      cases follows with
      | connecting | readingTopics => cases has
      | joining | assigning | syncing => simp only [Round.hasTopics, stage]
    exact (subscribed.held round at_ had).trans calm.topics.symm
  | fails error fallible calm =>
    refine ⟨?_, kept calm⟩
    rintro _ ⟨⟩ has
    unfold Round.hasTopics at has
    rcases round.fail_stage error with stage | stage <;> simp [stage] at has
  | readsTopics =>
    refine ⟨?_, subscribed.joined⟩
    rintro _ ⟨⟩ -
    rfl
  | readsOwned stage =>
    refine ⟨?_, subscribed.joined⟩
    rintro _ ⟨⟩ -
    exact subscribed.held round at_ (by simp [Round.hasTopics, stage])
  | announces stage | joins stage =>
    refine ⟨?_, nofun⟩
    rintro _ ⟨⟩ -
    exact subscribed.held round at_ (by simp [Round.hasTopics, stage])
  | syncs stage =>
    refine ⟨by rintro _ ⟨⟩ ⟨⟩, fun _ => ?_⟩
    exact subscribed.held round at_ (by simp [Round.hasTopics, stage])
  | keeps stage _ next =>
    refine ⟨?_, subscribed.joined⟩
    rintro _ ⟨⟩ has
    rcases next with rfl | ⟨_, -, rfl⟩ <;> simp [Round.hasTopics] at has
  | clears => exact ⟨by rintro _ ⟨⟩, subscribed.joined⟩

theorem besides {input : GroupInput} (subscribed : Subscribed g) (punctual : Punctual g input)
    (besides : Besides g input g') : Subscribed g' where
  held := by
    intro round at_ has
    rcases besides.round with ⟨same, -⟩ | ⟨-, -, restart, spawned⟩
    · rw [same] at at_
      have held := subscribed.held round at_ has
      rcases besides.topics with topics | ⟨subscribes, -⟩
      · exact held.trans topics.symm
      · -- the topics the round has read are not replaced
        by_contra changed
        have untouched := punctual _ subscribes (fun same => changed (held.trans same.symm)) round at_
        rw [untouched] at has
        cases has
    · rw [spawned] at at_
      cases at_
      cases has
  joined := fun stable => by
    rcases besides.topics with topics | ⟨-, unstable⟩
    · rw [besides.joined, topics, subscribed.joined (besides.stable stable)]
    · exact absurd stable unstable

theorem step {input : GroupInput} (punctual : Punctual g input) (subscribed : Subscribed g) :
    Subscribed (g.step input) :=
  stepwise g input subscribed (fun at_ step => subscribed.roundStep at_ step)
    fun other => subscribed.besides punctual (besides_step g other)

end Subscribed

/-- A stable member with no round in flight has joined with the topics it subscribes to. -/
theorem stable_member_joined_with_its_topics (groupId : String) (isStatic : Bool)
    (strategy : PartitionAssignmentStrategy) (inputs : List GroupInput)
    (punctual : Along GroupMember.step Punctual (.fresh groupId isStatic strategy) inputs) :
    let g := (GroupMember.fresh groupId isStatic strategy).run inputs
    g.coordinator.rejoinInFlight = false → g.coordinator.state = .stable →
      g.joinedTopics = g.coordinator.subscribedTopics := by
  intro g _ stable
  have subscribed : Subscribed g :=
    punctual.invariant Subscribed (fun _ _ punctual subscribed => subscribed.step punctual)
      ⟨by rintro _ ⟨⟩, nofun⟩
  exact subscribed.joined stable

def roundSends : List GroupInput :=
  [.round {}, .round { found := some 1 }, .round {}, .round {}, .round {}, .round {}]

def roundSucceeds (memberId : String) (generationId : Int) (assignment : MemberAssignment) :
    List GroupInput :=
  [.round { join := .joined memberId generationId none }, .round { found := some 1 }, .round {},
    .round { sync := .synced assignment }]

def roundEnds : List GroupInput := [.round {}, .round {}, .round {}, .round {}]

def sampleJoin : List GroupInput :=
  [.setSubscription ["t"], .joinNow] ++ roundSends ++ roundSucceeds "m" 1 (AList.singleton "t" [0]) ++
    roundEnds

/-- The subscription changes while the answer to `JoinGroup` is awaited. -/
theorem changed_subscription_is_lost :
    let g := (GroupMember.fresh "g" false .range).run
      ([.setSubscription ["a"], .joinNow] ++ roundSends ++ [.setSubscription ["b"]] ++
        roundSucceeds "m" 1 (AList.singleton "a" [0]) ++ roundEnds)
    g.coordinator.rejoinInFlight = false ∧ g.coordinator.state = .stable ∧
      g.joinedTopics = ["a"] ∧ g.coordinator.subscribedTopics = ["b"] := by
  decide +kernel

theorem sampleJoin_joined_with_its_topics :
    ((GroupMember.fresh "g" false .range).run sampleJoin).joinedTopics =
      ((GroupMember.fresh "g" false .range).run sampleJoin).coordinator.subscribedTopics :=
  stable_member_joined_with_its_topics "g" false .range sampleJoin (by decide +kernel)
    (by decide +kernel) (by decide +kernel)

/-! The outcome -/

def Round.brings (round : Round) : Option MemberAssignment :=
  match round.stage with
  | .checking (.ok assignment) | .beating assignment | .parking (.ok assignment) => some assignment
  | _ => none

/-- A leave begins only when no round is in flight, and finds nothing parked. -/
def Undisturbed (g : GroupMember) (input : GroupInput) : Prop :=
  (input.leaves g = some .bumping → g.coordinator.rejoinInFlight = false) ∧
    (input.leaves g = some .clearing → g.coordinator.pendingRebalance.isNone)

instance (g : GroupMember) (input : GroupInput) : Decidable (Undisturbed g input) :=
  inferInstanceAs (Decidable (_ ∧ _))

def Waits (c : GroupCoordinator) : Prop :=
  c.pendingRebalance = some (.ok c.assignment) ∨ ∃ error, c.pendingRebalance = some (.error error)

theorem Waits.filled {c : GroupCoordinator} (waits : Waits c) : c.pendingRebalance.isSome := by
  rcases waits with slot | ⟨error, slot⟩ <;> rw [slot] <;> rfl

structure Kept (g : GroupMember) : Prop where
  flight : g.coordinator.rejoinInFlight = g.round.isSome
  current : ∀ round, g.round = some round → round.stage ≠ .starting →
    g.coordinator.membershipEpoch = round.epoch
  finishing : ∀ round assignment, g.round = some round → round.brings = some assignment →
    g.stableRound = some round.number ∧
      (g.coordinator.state = .stable → g.coordinator.assignment = assignment)
  parked : g.coordinator.state = .stable → g.fate = .parked → Waits g.coordinator
  stable : g.coordinator.state = .stable →
    (∃ round, g.round = some round ∧ round.brings.isSome) ∨ g.fate = .parked ∨ g.fate = .taken

namespace Kept

variable {g g' : GroupMember}

theorem settled {round : Round} (kept : Kept g) (at_ : g.round = some round)
    (empty : round.brings = none) (stable : g.coordinator.state = .stable) :
    g.fate = .parked ∨ g.fate = .taken := by
  rcases kept.stable stable with ⟨round', at', brings⟩ | fate
  · rw [at_, Option.some.injEq] at at'
    rw [← at', empty] at brings
    cases brings
  · exact fate

theorem goesOn {round round' : Round} {c : GroupCoordinator} (kept : Kept g)
    (at_ : g.round = some round) (epoch : round'.epoch = round.epoch)
    (started : round.stage ≠ .starting) (before : round.brings = none)
    (after : round'.brings = none) (calm : Calm g.coordinator c) :
    Kept { g with coordinator := c, round := some round' } where
  flight := by rw [calm.flight, kept.flight, at_]; rfl
  current := by
    rintro _ ⟨⟩ -
    rw [calm.epoch, epoch, kept.current round at_ started]
  finishing := by
    rintro _ assignment ⟨⟩ brings
    rw [after] at brings
    cases brings
  parked := fun stable parked => by
    have waits := kept.parked (calm.stable stable) parked
    unfold Waits at waits ⊢
    rwa [calm.pending, calm.assignment]
  stable := fun stable => .inr (kept.settled at_ before (calm.stable stable))

theorem roundStep {round : Round} (kept : Kept g) (at_ : g.round = some round)
    (step : RoundStep g round g') : Kept g' := by
  have flight : g.coordinator.rejoinInFlight = true := by rw [kept.flight, at_]; rfl
  cases step with
  | starts stage =>
    refine ⟨flight, ?_, ?_, kept.parked, fun stable => .inr ?_⟩
    · rintro _ ⟨⟩ -
      rfl
    · rintro _ _ ⟨⟩ ⟨⟩
    · exact kept.settled at_ (by simp [Round.brings, stage]) stable
  | goesOn follows calm =>
    generalize stage : round.stage = before at follows
    cases follows <;>
      exact kept.goesOn at_ rfl (by simp [stage]) (by simp [Round.brings, stage]) rfl calm
  | fails error fallible calm =>
    have early : round.stage ≠ .starting ∧ round.brings = none := by
      unfold Round.brings
      cases stage : round.stage <;> simp_all [RoundStage.Fallible]
    refine kept.goesOn at_ (round.fail_eq error).2.1 early.1 early.2 ?_ calm
    unfold Round.brings
    rcases round.fail_stage error with stage | stage <;> rw [stage]
  | readsTopics stage | readsOwned stage =>
    exact kept.goesOn at_ rfl (by simp [stage]) (by simp [Round.brings, stage]) rfl (.refl _)
  | announces stage =>
    exact kept.goesOn at_ rfl (by simp [stage]) (by simp [Round.brings, stage]) rfl
      (.setState _ _ (by decide))
  | joins stage =>
    refine ⟨flight, ?_, ?_, nofun, nofun⟩
    · rintro _ ⟨⟩ -
      exact kept.current round at_ (by simp [stage])
    · rintro _ _ ⟨⟩ ⟨⟩
  | syncs stage =>
    refine ⟨flight, ?_, ?_, fun _ => nofun, fun _ => .inl ⟨_, rfl, rfl⟩⟩
    · rintro _ ⟨⟩ -
      exact kept.current round at_ (by simp [stage])
    · rintro _ _ ⟨⟩ ⟨⟩
      exact ⟨rfl, fun _ => rfl⟩
  | @keeps outcome after stage current next =>
    have brings : ({ round with stage := after } : Round).brings = round.brings := by
      simp only [Round.brings, stage]
      rcases next with rfl | ⟨assignment, rfl, rfl⟩
      · cases outcome <;> rfl
      · rfl
    refine ⟨flight, ?_, ?_, kept.parked, fun stable => ?_⟩
    · rintro _ ⟨⟩ -
      exact current
    · rintro _ assignment ⟨⟩ some_
      rw [brings] at some_
      exact kept.finishing round assignment at_ some_
    · cases empty : round.brings with
      | none => exact .inr (kept.settled at_ empty stable)
      | some => exact .inl ⟨_, rfl, by rw [brings, empty]; rfl⟩
  | discards stage older =>
    -- nothing has changed the membership epoch since the round read it
    exact absurd (kept.current round at_ (by simp [stage])) older
  | @beats assignment stage =>
    have brings : round.brings = some assignment := by simp only [Round.brings, stage]
    refine ⟨flight, ?_, ?_, kept.parked, fun _ => .inl ⟨_, rfl, rfl⟩⟩
    · rintro _ ⟨⟩ -
      exact kept.current round at_ (by simp [stage])
    · rintro _ _ ⟨⟩ ⟨⟩
      exact kept.finishing round assignment at_ brings
  | @parks outcome stage =>
    refine ⟨flight, ?_, by rintro _ _ ⟨⟩ ⟨⟩, fun stable _ => ?_,
      fun stable => .inr ?_⟩
    · rintro _ ⟨⟩ -
      exact kept.current round at_ (by simp [stage])
    · cases outcome with
      | error error => exact .inr ⟨error, rfl⟩
      | ok assignment =>
        have brings : round.brings = some assignment := by simp only [Round.brings, stage]
        refine .inl ?_
        show some (Except.ok assignment) = some (Except.ok g.coordinator.assignment)
        rw [(kept.finishing round assignment at_ brings).2 stable]
    · dsimp only
      split
      · exact .inl rfl
      · next other =>
        cases outcome with
        | error => exact kept.settled at_ (by simp only [Round.brings, stage]) stable
        | ok assignment =>
          have brings : round.brings = some assignment := by simp only [Round.brings, stage]
          exact absurd (kept.finishing round assignment at_ brings).1 other
  | clears stage =>
    refine ⟨rfl, by rintro _ ⟨⟩, by rintro _ _ ⟨⟩, kept.parked, fun stable => .inr ?_⟩
    exact kept.settled at_ (by simp only [Round.brings, stage]) stable

theorem besides {input : GroupInput} (kept : Kept g) (undisturbed : Undisturbed g input)
    (besides : Besides g input g') (slot : SlotStep g input g') : Kept g' := by
  have landed (idle : g.coordinator.rejoinInFlight = false) : g.round = none := by
    have flight := kept.flight
    rw [idle] at flight
    exact Option.isNone_iff_eq_none.mp (by simpa using flight.symm)
  have round (stage : Round) (at_ : g'.round = some stage) :
      g.round = some stage ∨ stage.stage = .starting := by
    rcases besides.round with ⟨same, -⟩ | ⟨-, -, restart, spawned⟩
    · exact .inl (same ▸ at_)
    · rw [spawned] at at_
      cases at_
      exact .inr rfl
  refine ⟨?_, fun stage at_ started => ?_, fun stage assignment at_ brings => ?_,
    fun stable parked => ?_, fun stable => ?_⟩
  · rcases besides.round with ⟨same, flight⟩ | ⟨-, flight, restart, spawned⟩
    · rw [same, flight, kept.flight]
    · rw [spawned, flight]
      rfl
  · rcases round stage at_ with before | starting
    · rcases besides.epoch with epoch | bumping
      · rw [epoch, kept.current stage before started]
      · rw [landed (undisturbed.1 bumping)] at before
        cases before
    · exact absurd starting started
  · rcases round stage at_ with before | starting
    · obtain ⟨number, held⟩ := kept.finishing stage assignment before brings
      exact ⟨besides.stableRound.trans number, fun stable =>
        (besides.assignment stable).trans (held (besides.stable stable))⟩
    · simp [Round.brings, starting] at brings
  · cases slot with
    | keeps pending fate =>
      have waits := kept.parked (besides.stable stable) (fate ▸ parked)
      unfold Waits at waits ⊢
      rwa [pending, besides.assignment stable]
    | takes _ _ fate =>
      rw [fate] at parked
      split at parked
      · cases parked
      · contradiction
    | clears _ _ fate =>
      rw [fate] at parked
      split at parked
      · cases parked
      · next unfilled =>
        exact absurd ⟨(kept.parked (besides.stable stable) parked).filled, parked⟩ unfilled
  · rcases kept.stable (besides.stable stable) with ⟨stage, at_, brings⟩ | parked | taken
    · rcases besides.round with ⟨same, -⟩ | ⟨idle, -⟩
      · exact .inl ⟨stage, same.trans at_, brings⟩
      · rw [landed idle] at at_
        cases at_
    · cases slot with
      | keeps _ fate => exact .inr (.inl (fate.trans parked))
      | takes _ _ fate => exact .inr (.inr (fate.trans (if_pos parked)))
      | clears leaves =>
        have filled := (kept.parked (besides.stable stable) parked).filled
        rcases leaves with clearing | unjoined
        · rw [Option.isNone_iff_eq_none.mp (undisturbed.2 clearing)] at filled
          cases filled
        · rw [unjoined] at stable
          cases stable
    · cases slot with
      | keeps _ fate => exact .inr (.inr (fate.trans taken))
      | takes _ _ fate | clears _ _ fate => exact .inr (.inr (fate.trans (by simp [taken])))

theorem step {input : GroupInput} (undisturbed : Undisturbed g input) (kept : Kept g) :
    Kept (g.step input) :=
  stepwise g input kept (fun at_ step => kept.roundStep at_ step)
    fun other => kept.besides undisturbed (besides_step g other) (slot_step g other)

end Kept

/-- The outcome of the round that made a stable member stable has been taken by a poll, or is
parked; then the slot holds it, or the failure of a later round, on which a poll joins again. -/
theorem stable_outcome_is_parked_or_taken (groupId : String) (isStatic : Bool)
    (strategy : PartitionAssignmentStrategy) (inputs : List GroupInput)
    (undisturbed : Along GroupMember.step Undisturbed (.fresh groupId isStatic strategy) inputs) :
    let g := (GroupMember.fresh groupId isStatic strategy).run inputs
    g.coordinator.rejoinInFlight = false → g.coordinator.state = .stable →
      g.fate = .parked ∧ Waits g.coordinator ∨ g.fate = .taken := by
  intro g idle stable
  have kept : Kept g :=
    undisturbed.invariant Kept (fun _ _ undisturbed kept => kept.step undisturbed)
      ⟨rfl, by rintro _ ⟨⟩, by rintro _ _ ⟨⟩, nofun, nofun⟩
  rcases kept.stable stable with ⟨round, at_, -⟩ | parked | taken
  · have flight := kept.flight
    rw [at_, idle] at flight
    cases flight
  · exact .inl ⟨parked, kept.parked stable parked⟩
  · exact .inr taken

/-- A static member leaves without a request: while its second round is in flight it has not
polled in time, a poll finds the partitions lost, and then the round succeeds. -/
theorem round_outlives_leave :
    let g := (GroupMember.fresh "g" true .range).run
      (sampleJoin ++ [.refuseOffsets .staleMemberEpoch, .joinNow] ++ roundSends ++
        List.replicate 4 (.task 1 { expired := true }) ++ List.replicate 4 .poll ++
        roundSucceeds "m" 2 (AList.singleton "t" [0]) ++ [.round {}, .round {}])
    g.coordinator.rejoinInFlight = false ∧ g.coordinator.state = .stable ∧
      g.fate = .discarded ∧ g.coordinator.pendingRebalance = none := by
  decide +kernel

theorem sampleJoin_outcome_is_parked :
    ((GroupMember.fresh "g" false .range).run sampleJoin).fate = .parked ∧
        Waits ((GroupMember.fresh "g" false .range).run sampleJoin).coordinator ∨
      ((GroupMember.fresh "g" false .range).run sampleJoin).fate = .taken :=
  stable_outcome_is_parked_or_taken "g" false .range sampleJoin (by decide +kernel)
    (by decide +kernel) (by decide +kernel)

end Krafka.Consumer.Classic
