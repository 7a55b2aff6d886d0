import Krafka.Consumer.Rejoin

/-! What a cooperative member reports as owned. A round reads the list once per attempt and
sends it with `JoinGroup`; the leader keeps back from others what a member claims, so the list
has to cover what the member has until the round is over. -/

namespace Krafka.Consumer.Classic

open Runs

def Within (s : SubscriptionState) (keys : List PartitionKey) : Prop :=
  ∀ key ∈ s.partitions, key ∈ keys

theorem Within.fewer {s s' : SubscriptionState} {keys : List PartitionKey} (within : Within s keys)
    (fewer : ∀ key ∈ s'.partitions, key ∈ s.partitions) : Within s' keys :=
  fun key mem => within key (fewer key mem)

theorem Within.of_nil {s : SubscriptionState} (within : Within s []) (keys : List PartitionKey) :
    Within s keys :=
  fun key mem => absurd (within key mem) List.not_mem_nil

theorem within_assignedKeys (s : SubscriptionState) : Within s s.assignedKeys :=
  fun _ mem => SubscriptionState.mem_assignedKeys.mpr mem

def PollStage.isOwning : PollStage → Bool
  | .owning .. => true
  | _ => false

theorem PollStage.awaits_of_isOwning {poll : PollStage} (owning : poll.isOwning) :
    poll.awaits = false := by
  cases poll <;> first | rfl | cases owning

def PollStage.bound : PollStage → Option (List PartitionKey)
  | .owning _ current => some current
  | .disowning _ | .losing _ | .disowningAll => some []
  | .revokingAll assigned => some assigned
  | _ => none

def Round.readsOwned (round : Round) : Bool :=
  match round.stage with
  | .readingOwned => true
  | _ => false

def Round.claims (round : Round) : List (List PartitionKey) :=
  round.sentOwned.toList ++
    match round.stage with
    | .announcing => [round.owned]
    | _ => []

def GroupInput.adds (g : GroupMember) : GroupInput → List PartitionKey
  | .poll =>
    match g.poll with
    | .adding apply => apply.added
    | _ => []
  | _ => []

def GroupInput.polls : GroupInput → Bool
  | .poll => true
  | _ => false

/-- The owned list is read when the polls have kept it up to date; partitions are added only
while no round has read it; a leave empties it only if nothing is assigned, or the application
was too slow and the next poll drops what is. -/
structure Orderly (g : GroupMember) (input : GroupInput) : Prop where
  reads : ∀ round ∈ input.turns g, round.readsOwned →
    g.coordinator.exceeded = false ∧ g.poll.isOwning = false
  adds : input.adds g ≠ [] → ∀ round ∈ g.round, round.claims = []
  empties : input.polls = false → (g.step input).coordinator.owned = g.coordinator.owned ∨
    g.state.assignedKeys = [] ∨ g.coordinator.exceeded = true

instance (g : GroupMember) (input : GroupInput) : Decidable (Orderly g input) :=
  decidable_of_iff
    ((∀ round ∈ input.turns g, round.readsOwned →
        g.coordinator.exceeded = false ∧ g.poll.isOwning = false) ∧
      (input.adds g ≠ [] → ∀ round ∈ g.round, round.claims = []) ∧
      (input.polls = false → (g.step input).coordinator.owned = g.coordinator.owned ∨
        g.state.assignedKeys = [] ∨ g.coordinator.exceeded = true))
    ⟨fun h => ⟨h.1, h.2.1, h.2.2⟩, fun h => ⟨h.reads, h.adds, h.empties⟩⟩

/-! The owned list -/

structure Covered (s : SubscriptionState) (c : GroupCoordinator) (poll : PollStage) : Prop where
  covers : Within s c.owned ∨ c.exceeded ∨ poll.isOwning = true
  stage : ∀ keys, poll.bound = some keys → Within s keys

namespace Covered

variable {s s' : SubscriptionState} {c c' : GroupCoordinator} {poll poll' : PollStage}

theorem quiet (covered : Covered s c poll) (reported : poll.isOwning = false)
    (fewer : ∀ key ∈ s'.partitions, key ∈ s.partitions) (owned : c'.owned = c.owned)
    (exceeded : c'.exceeded = c.exceeded)
    (stage : ∀ keys, poll'.bound = some keys → Within s' keys) : Covered s' c' poll' := by
  refine ⟨?_, stage⟩
  rcases covered.covers with covers | slow | owning
  · exact .inl (owned ▸ covers.fewer fewer)
  · exact .inr (.inl (exceeded.trans slow))
  · rw [reported] at owning
    cases owning

theorem emptied (within : Within s' []) (stage : ∀ keys, poll'.bound = some keys → keys = []) :
    Covered s' c' poll' :=
  ⟨.inl (within.of_nil _), fun keys at_ => stage keys at_ ▸ within⟩

theorem pollTurn {g : GroupMember} (covered : Covered g.state g.coordinator g.poll) :
    Covered g.pollTurn.state g.pollTurn.coordinator g.pollTurn.poll := by
  have cleared : Within g.state.clearAssignment [] := fun _ mem =>
    absurd mem (AList.notMem_empty _)
  have apply_ {outcome : Outcome} {again : Bool} (reported : g.poll.isOwning = false) :
      let g' := g.takePending.applyJoin outcome again
      Covered g'.state g'.coordinator g'.poll := by
    cases outcome with
    | ok => exact covered.quiet reported (fun _ => id) rfl rfl nofun
    | error =>
      refine covered.quiet reported (fun _ => id) rfl rfl ?_
      simp only [GroupMember.applyJoin]
      split <;> exact nofun
  unfold GroupMember.pollTurn
  generalize g.poll = stage at covered apply_
  cases stage with
  | idle | checkingLost | checkingFatal | committing | comparing | checkingFlight
  | checkingRound =>
    refine covered.quiet rfl (fun _ => id) rfl rfl ?_
    dsimp only
    split <;> exact nofun
  | dropping => exact emptied cleared (by rintro _ ⟨⟩; rfl)
  | disowning =>
    exact emptied (covered.stage [] rfl) (by rintro _ ⟨⟩; rfl)
  | losing expired =>
    have nothing : Within g.state [] := covered.stage [] rfl
    cases expired <;> exact emptied nothing nofun
  | taking | takingAgain =>
    dsimp only
    split
    · exact apply_ rfl
    · exact covered.quiet rfl (fun _ => id) rfl rfl nofun
  | revoking =>
    exact covered.quiet rfl (fun _ mem => (SubscriptionState.mem_removePartitions.mp mem).1) rfl rfl
      nofun
  | adding =>
    -- until the list is set, the stage knows what is assigned
    refine ⟨.inr (.inr rfl), ?_⟩
    rintro _ ⟨⟩
    exact within_assignedKeys _
  | owning apply current =>
    exact ⟨.inl (covered.stage current rfl), nofun⟩
  | assigning =>
    refine covered.quiet rfl (fun _ => id) ?_ ?_ ?_ <;> dsimp only <;> split <;>
      first | rfl | exact nofun
  | checkingNeed =>
    have calm := calm_needsRejoin g.coordinator
    refine covered.quiet rfl (fun _ => id) calm.owned calm.exceeded ?_
    dsimp only
    split
    · exact nofun
    · split
      · exact nofun
      · rintro _ ⟨⟩
        exact within_assignedKeys _
  | revokingAll assigned =>
    have all : Within g.state assigned := covered.stage assigned rfl
    refine emptied (fun key mem => ?_) (by rintro _ ⟨⟩; rfl)
    obtain ⟨had, kept⟩ := SubscriptionState.mem_removePartitions.mp mem
    exact absurd (all key had) kept
  | disowningAll => exact emptied (covered.stage [] rfl) nofun
  | spawning =>
    obtain ⟨flight, round, rounds, same⟩ := spawnRejoin_eq g true
    dsimp only
    rw [same]
    exact covered.quiet rfl (fun _ => id) rfl rfl nofun
  | resetting | awaiting =>
    exact covered.quiet rfl (fun _ => id) rfl rfl nofun

theorem elsewhere {g g' : GroupMember} (covered : Covered g.state g.coordinator g.poll)
    (step : Elsewhere g g')
    (empties : g'.coordinator.owned = g.coordinator.owned ∨ g.state.assignedKeys = [] ∨
      g.coordinator.exceeded) : Covered g'.state g'.coordinator g'.poll where
  covers := by
    rcases empties with same | nothing | slow
    · rcases covered.covers with covers | slow | owning
      · exact .inl (same ▸ covers.fewer step.fewer)
      · exact .inr (.inl (step.exceeded slow))
      · rcases step.poll with kept | ⟨awaits, -⟩
        · exact .inr (.inr (kept ▸ owning))
        · rw [PollStage.awaits_of_isOwning owning] at awaits
          cases awaits
    · have within : Within g.state [] := nothing ▸ within_assignedKeys g.state
      exact .inl ((within.fewer step.fewer).of_nil _)
    · exact .inr (.inl (step.exceeded slow))
  stage := fun keys at_ => by
    rcases step.poll with kept | ⟨-, idle⟩
    · exact (covered.stage keys (kept ▸ at_)).fewer step.fewer
    · rw [idle] at at_
      cases at_

end Covered

theorem pollTurn_partitions (g : GroupMember) {key : PartitionKey}
    (mem : key ∈ g.pollTurn.state.partitions) :
    key ∈ g.state.partitions ∨ key ∈ GroupInput.poll.adds g := by
  have apply_ {outcome : Outcome} {again : Bool} :
      (g.takePending.applyJoin outcome again).state = g.state := by
    cases outcome <;> rfl
  unfold GroupMember.pollTurn at mem
  unfold GroupInput.adds
  cases stage : g.poll <;> rw [stage] at mem
  case adding apply => exact SubscriptionState.mem_addPartitions.mp mem
  case dropping expired => exact absurd mem (AList.notMem_empty _)
  case revoking apply => exact .inl (SubscriptionState.mem_removePartitions.mp mem).1
  case revokingAll assigned => exact .inl (SubscriptionState.mem_removePartitions.mp mem).1
  case losing expired => cases expired <;> exact .inl mem
  case taking =>
    dsimp only at mem
    split at mem
    · exact .inl (apply_ ▸ mem)
    · exact .inl mem
  case takingAgain =>
    dsimp only at mem
    split at mem
    · exact .inl (apply_ ▸ mem)
    · exact .inl mem
  case spawning =>
    obtain ⟨flight, round, rounds, same⟩ := spawnRejoin_eq g true
    dsimp only at mem
    rw [same] at mem
    exact .inl mem
  all_goals exact .inl mem

/-! The claims of a round -/

section Claims

variable {g g' : GroupMember} {round : Round}

theorem RoundStep.owned (step : RoundStep g round g') :
    g'.coordinator.owned = g.coordinator.owned := by
  cases step with
  | goesOn follows calm | fails error fallible calm => exact calm.owned
  | starts | readsTopics | readsOwned | announces | joins | syncs | keeps | discards | beats | parks
  | clears => rfl

theorem claims_eq (round : Round) (other : round.stage ≠ .announcing) :
    round.claims = round.sentOwned.toList := by
  unfold Round.claims
  split
  · contradiction
  · rw [List.append_nil]

theorem RoundStep.claims (step : RoundStep g round g') {round' : Round}
    (at_ : g'.round = some round') {keys : List PartitionKey} (mem : keys ∈ round'.claims) :
    keys ∈ round.claims ∨ round.readsOwned ∧
      keys = if g.coordinator.isCooperative then g.coordinator.owned else [] := by
  have earlier (sent : round'.sentOwned = round.sentOwned) (later : round'.stage ≠ .announcing) :
      keys ∈ round.claims := by
    rw [claims_eq round' later, sent] at mem
    exact List.mem_append_left _ mem
  cases step with
  | clears => cases at_
  | goesOn follows =>
    cases at_
    refine .inl (earlier rfl ?_)
    generalize round.stage = before at follows
    cases follows <;> exact nofun
  | fails error =>
    cases at_
    refine .inl (earlier (round.fail_eq error).2.2.2 ?_)
    rcases round.fail_stage error with stage | stage <;> rw [stage] <;> exact nofun
  | keeps _ _ next =>
    cases at_
    refine .inl (earlier rfl ?_)
    rcases next with rfl | ⟨_, -, rfl⟩ <;> exact nofun
  | readsOwned stage =>
    cases at_
    rcases List.mem_append.mp mem with sent | read
    · exact .inl (List.mem_append_left _ sent)
    · exact .inr ⟨by simp only [Round.readsOwned, stage], List.mem_singleton.mp read⟩
  | announces stage =>
    cases at_
    refine .inl ?_
    rw [claims_eq { round with sentOwned := some round.owned, stage := .joining false } nofun] at mem
    unfold Round.claims
    rw [stage]
    exact List.mem_append_right _ mem
  | starts | readsTopics | joins | syncs | discards | beats | parks =>
    cases at_
    exact .inl (earlier rfl nofun)

theorem SameRound.claims (same : SameRound g g') {round' : Round} (at_ : g'.round = some round')
    {keys : List PartitionKey} (mem : keys ∈ round'.claims) :
    ∃ round, g.round = some round ∧ keys ∈ round.claims := by
  rcases same with ⟨kept, -⟩ | ⟨-, -, restart, spawned⟩
  · exact ⟨round', kept ▸ at_, mem⟩
  · rw [spawned] at at_
    cases at_
    cases mem

end Claims

structure Claimed (g : GroupMember) : Prop extends Covered g.state g.coordinator g.poll where
  claimed : ∀ round, g.round = some round → ∀ keys ∈ round.claims, Within g.state keys

namespace Claimed

variable {g g' : GroupMember}

theorem roundStep {round : Round} (claimed : Claimed g) (at_ : g.round = some round)
    (step : RoundStep g round g') (cooperative : g.coordinator.isCooperative)
    (reads : round.readsOwned →
      g.coordinator.exceeded = false ∧ g.poll.isOwning = false) : Claimed g' := by
  have elsewhere := elsewhere_roundStep step
  refine ⟨claimed.toCovered.elsewhere elsewhere (.inl step.owned), fun round' at' keys mem => ?_⟩
  refine Within.fewer ?_ elsewhere.fewer
  rcases step.claims at' mem with old | ⟨reading, rfl⟩
  · exact claimed.claimed round at_ keys old
  · rw [if_pos cooperative]
    obtain ⟨inTime, reported⟩ := reads reading
    rcases claimed.covers with covers | slow | owning
    · exact covers
    · rw [inTime] at slow
      cases slow
    · rw [reported] at owning
      cases owning

theorem poll (claimed : Claimed g)
    (adds : GroupInput.poll.adds g ≠ [] → ∀ round ∈ g.round, round.claims = []) :
    Claimed g.pollTurn := by
  refine ⟨claimed.toCovered.pollTurn, fun round' at' keys mem => ?_⟩
  obtain ⟨round, at_, had⟩ := (besides_pollTurn g .poll).round.claims at' mem
  have within := claimed.claimed round at_ keys had
  have none_added : GroupInput.poll.adds g = [] := by
    by_contra some_
    rw [adds some_ round at_] at had
    cases had
  intro key assigned
  rcases pollTurn_partitions g assigned with before | added
  · exact within key before
  · rw [none_added] at added
    cases added

theorem elsewhere {input : GroupInput} (claimed : Claimed g) (step : Elsewhere g g')
    (besides : Besides g input g')
    (empties : g'.coordinator.owned = g.coordinator.owned ∨ g.state.assignedKeys = [] ∨
      g.coordinator.exceeded) : Claimed g' := by
  refine ⟨claimed.toCovered.elsewhere step empties, fun round' at' keys mem => ?_⟩
  obtain ⟨round, at_, had⟩ := besides.round.claims at' mem
  exact (claimed.claimed round at_ keys had).fewer step.fewer

theorem step {input : GroupInput}
    (conforms : g.coordinator.isCooperative ∧ Orderly g input) (claimed : Claimed g) :
    Claimed (g.step input) := by
  obtain ⟨cooperative, orderly⟩ := conforms
  by_cases round : ∃ reply, input = .round reply
  · obtain ⟨reply, rfl⟩ := round
    refine stepwise g _ claimed (fun at_ step => claimed.roundStep at_ step cooperative ?_)
      fun other => absurd rfl (other reply)
    exact orderly.reads _ at_
  · by_cases poll : input = .poll
    · subst poll
      exact claimed.poll orderly.adds
    · refine claimed.elsewhere (elsewhere_step g poll)
        (besides_step g fun reply same => round ⟨reply, same⟩) (orderly.empties ?_)
      cases input with
      | poll => contradiction
      | _ => rfl

end Claimed

/-- While a round is in flight, everything assigned is in the list it has sent. -/
theorem assigned_partitions_are_claimed (groupId : String) (isStatic : Bool)
    (strategy : PartitionAssignmentStrategy) (inputs : List GroupInput)
    (cooperative : Along GroupMember.step (fun g _ => g.coordinator.isCooperative = true)
      (.fresh groupId isStatic strategy) inputs)
    (orderly : Along GroupMember.step Orderly (.fresh groupId isStatic strategy) inputs) :
    let g := (GroupMember.fresh groupId isStatic strategy).run inputs
    ∀ round, g.round = some round → ∀ owned, round.sentOwned = some owned →
      ∀ key ∈ g.state.partitions, key ∈ owned := by
  intro g round at_ owned sent
  have start : Claimed (GroupMember.fresh groupId isStatic strategy) :=
    ⟨⟨.inl fun _ mem => absurd mem (AList.notMem_empty _), nofun⟩, by rintro _ ⟨⟩⟩
  have claimed : Claimed g :=
    (cooperative.and orderly).invariant Claimed (fun _ _ conforms claimed => claimed.step conforms)
      start
  refine claimed.claimed round at_ owned ?_
  rw [Round.claims, sent]
  exact List.mem_cons_self

def rebalanceSends : List GroupInput :=
  [GroupInput.task 1 {}, .task 1 {}, .task 1 { beat := some .rebalanceInProgress }] ++ roundSends

/-- The outcome of the first round is parked; a second round sends an empty list; then a poll
applies the outcome. -/
theorem parked_partition_is_not_claimed :
    let g := (GroupMember.fresh "g" false .cooperativeSticky).run
      (.subscribe ["t"] :: sampleJoin ++ rebalanceSends ++ List.replicate 7 .poll)
    g.round.map (·.sentOwned) = some (some []) ∧ g.state.assignedKeys = [("t", 0)] := by
  decide +kernel

def sampleRejoin : List GroupInput :=
  .subscribe ["t"] :: sampleJoin ++ List.replicate 12 GroupInput.poll ++ rebalanceSends

theorem sampleRejoin_is_claimed :
    let g := (GroupMember.fresh "g" false .cooperativeSticky).run sampleRejoin
    (g.round.map (·.sentOwned) = some (some [("t", 0)]) ∧ g.state.assignedKeys = [("t", 0)]) ∧
      ∀ round, g.round = some round → ∀ owned, round.sentOwned = some owned →
        ∀ key ∈ g.state.partitions, key ∈ owned :=
  ⟨by decide +kernel,
    assigned_partitions_are_claimed "g" false .cooperativeSticky sampleRejoin (by decide +kernel)
      (by decide +kernel)⟩

end Krafka.Consumer.Classic
