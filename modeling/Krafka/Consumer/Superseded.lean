import Krafka.Consumer.Rejoin
import Krafka.Consumer.Watched

/-! Heartbeats that outlive their membership. A heartbeat task looks whether it is still the
current one before it sends, not when it is answered; what it writes then is shared with the
task that followed it. -/

namespace Krafka.Consumer.Classic

open Function Runs

def declaresLoss (code : ErrorCode) : Bool :=
  code ≠ .none && code ≠ .rebalanceInProgress && !isCoordinatorError code

def GroupInput.loses (g : GroupMember) : GroupInput → Option Nat
  | .task index reply =>
    match g.tasks index, reply.beat with
    | .waiting membership, some code => if declaresLoss code then some membership else none
    | _, _ => none
  | _ => none

def GroupMember.PendingLoss (g : GroupMember) : Prop :=
  g.coordinator.memberInvalidated ∨ g.poll = .resetting

instance (g : GroupMember) : Decidable g.PendingLoss := inferInstanceAs (Decidable (_ ∨ _))

/-- A loss is declared only of the membership that is current, and taken before another one
begins. -/
def Timely (g : GroupMember) (input : GroupInput) : Prop :=
  (∀ membership ∈ input.loses g, membership = g.membership) ∧
    ((g.step input).membership ≠ g.membership → ¬ g.PendingLoss)

instance (g : GroupMember) (input : GroupInput) : Decidable (Timely g input) :=
  inferInstanceAs (Decidable (_ ∧ _))

structure Unharmed (c c' : GroupCoordinator) : Prop where
  identity : c'.identity = c.identity
  running : c'.running = c.running
  invalidated : c'.memberInvalidated = c.memberInvalidated

/-- An error answer to a heartbeat of an older membership does no harm, and what a poll takes
for lost is the current one. -/
structure Inert (g : GroupMember) (input : GroupInput) : Prop where
  answer : ∀ index reply membership code, input = .task index reply →
    g.tasks index = .waiting membership → reply.beat = some code → code ≠ .none →
      membership ≠ g.membership → Unharmed g.coordinator (g.step input).coordinator
  taken : input = .poll →
    (g.poll = .checkingLost ∧ g.coordinator.memberInvalidated ∨ g.poll = .resetting) →
      g.lostUnder = some g.membership

section Steps

variable {g g' : GroupMember}

structure Quiet (g g' : GroupMember) : Prop where
  invalidated : g'.coordinator.memberInvalidated → g.coordinator.memberInvalidated = true
  poll : g'.poll = .resetting → g.PendingLoss
  lostUnder : g'.lostUnder = g.lostUnder

theorem Quiet.pending (quiet : Quiet g g') (pending : g'.PendingLoss) : g.PendingLoss := by
  rcases pending with invalidated | resetting
  · exact .inl (quiet.invalidated invalidated)
  · exact quiet.poll resetting

theorem Quiet.of_flag (invalidated : g'.coordinator.memberInvalidated = g.coordinator.memberInvalidated)
    (poll : g'.poll = g.poll) (lostUnder : g'.lostUnder = g.lostUnder) : Quiet g g' :=
  ⟨fun h => invalidated ▸ h, fun h => .inr (poll ▸ h), lostUnder⟩

theorem quiet_roundStep {round : Round} (step : RoundStep g round g') : Quiet g g' := by
  cases step with
  | goesOn follows calm | fails error fallible calm => exact .of_flag calm.invalidated rfl rfl
  | beats => exact ⟨nofun, .inr, rfl⟩
  | starts | readsTopics | readsOwned | announces | joins | syncs | keeps | discards | parks
  | clears => exact .of_flag rfl rfl rfl

theorem quiet_pollTurn (g : GroupMember) : Quiet g g.pollTurn := by
  have lostUnder : g.pollTurn.lostUnder = g.lostUnder := by
    obtain ⟨_, _, _, _, _, _, _, _, same⟩ := pollTurn_eq g
    rw [same]
  suffices turns : (g.pollTurn.coordinator.memberInvalidated →
      g.coordinator.memberInvalidated = true) ∧ (g.pollTurn.poll = .resetting → g.PendingLoss) from
    ⟨turns.1, turns.2, lostUnder⟩
  have applied (outcome : Outcome) (again : Bool) :
      ((g.takePending.applyJoin outcome again).coordinator.memberInvalidated →
        g.coordinator.memberInvalidated = true) ∧
      ((g.takePending.applyJoin outcome again).poll = .resetting → g.PendingLoss) := by
    cases outcome with
    | ok => exact ⟨id, nofun⟩
    | error =>
      refine ⟨id, ?_⟩
      simp only [GroupMember.applyJoin]
      split <;> exact nofun
  unfold GroupMember.pollTurn
  cases g.poll with
  | checkingLost =>
    refine ⟨nofun, ?_⟩
    dsimp only
    split
    · next invalidated => exact fun _ => .inl invalidated
    · exact nofun
  | losing expired => cases expired <;> exact ⟨id, nofun⟩
  | taking =>
    dsimp only
    split
    · exact applied _ false
    · exact ⟨id, nofun⟩
  | takingAgain =>
    dsimp only
    split
    · exact applied _ true
    · exact ⟨id, nofun⟩
  | assigning =>
    constructor <;> dsimp only <;> split <;> first | exact id | exact nofun
  | checkingNeed =>
    refine ⟨fun h => (calm_needsRejoin g.coordinator).invalidated ▸ h, ?_⟩
    dsimp only
    repeat' split
    all_goals exact nofun
  | spawning =>
    obtain ⟨flight, round, rounds, same⟩ := spawnRejoin_eq g true
    dsimp only
    rw [same]
    exact ⟨id, nofun⟩
  | idle | checkingFatal | committing | comparing | checkingFlight | checkingRound =>
    refine ⟨id, ?_⟩
    dsimp only
    split <;> exact nofun
  | dropping | disowning | resetting | revoking | adding | owning | revokingAll | disowningAll
  | awaiting => exact ⟨id, nofun⟩

theorem taskTurn_loses (g : GroupMember) (reply : Reply) {index membership : Nat} {code : ErrorCode}
    (at_ : g.tasks index = .waiting membership) (answer : reply.beat = some code)
    (loss : declaresLoss code) : (g.taskTurn reply index).lostUnder = some membership := by
  unfold GroupMember.taskTurn
  rw [at_, answer]
  dsimp only
  split
  · contradiction
  · next same => cases same; cases loss
  · next same => cases same; cases loss
  · next same =>
    cases same
    split
    · rfl
    · split
      · next moved => simp [declaresLoss, moved] at loss
      · rfl

theorem taskTurn_unharmed (g : GroupMember) (reply : Reply) {index membership : Nat}
    {code : ErrorCode} (at_ : g.tasks index = .waiting membership)
    (answer : reply.beat = some code) (mild : declaresLoss code = false) :
    Unharmed g.coordinator (g.taskTurn reply index).coordinator := by
  unfold GroupMember.taskTurn
  rw [at_, answer]
  dsimp only
  split
  · contradiction
  · exact ⟨rfl, rfl, rfl⟩
  · split
    · obtain ⟨flight, round, rounds, spawned⟩ := spawnRejoin_eq (g.setTask index .ticking) false
      rw [spawned]
      exact ⟨rfl, rfl, rfl⟩
    · exact ⟨rfl, rfl, rfl⟩
  · next code' notNone notRebalance some_ =>
    cases some_
    have moved : isCoordinatorError code := by
      have others : code ≠ .none ∧ code ≠ .rebalanceInProgress := ⟨notNone, notRebalance⟩
      simpa [declaresLoss, others] using mild
    split
    · next unknown => rcases unknown with rfl | rfl <;> cases moved
    · exact ⟨rfl, rfl, rfl⟩

theorem OtherStep.quiet {input : GroupInput} (step : OtherStep g input g')
    (none_ : input.loses g = none) : Quiet g g' := by
  cases step with
  | calm calm | commits _ calm | spawns calm => exact .of_flag calm.invalidated rfl rfl
  | loses answers at_ answer lost =>
    subst answers
    simp [GroupInput.loses, at_, answer, declaresLoss, lost] at none_
  | subscribes =>
    obtain ⟨state, same⟩ := setSubscription_eq g.coordinator _
    exact .of_flag (by rw [same]) rfl rfl
  | leaves _ step => exact .of_flag step.invalidated rfl rfl
  | dropsPoll => exact ⟨id, nofun, rfl⟩
  | expires | needsRejoin | revokes | disowns | dropsCommit | operates => exact .of_flag rfl rfl rfl

theorem quiet_step (g : GroupMember) {input : GroupInput} (none_ : input.loses g = none) :
    Quiet g (g.step input) := by
  refine stepwise g input (.of_flag rfl rfl rfl) (fun _ step => quiet_roundStep step) fun turns => ?_
  by_cases polls : input = .poll
  · subst polls
    exact quiet_pollTurn g
  · exact (other_step g polls turns).quiet none_

end Steps

def Attested (g : GroupMember) : Prop := g.PendingLoss → g.lostUnder = some g.membership

namespace Attested

variable {g : GroupMember} {input : GroupInput}

theorem step (timely : Timely g input) (attested : Attested g) : Attested (g.step input) := by
  intro pending
  cases loss : input.loses g with
  | none =>
    have quiet := quiet_step g loss
    have before := quiet.pending pending
    have same : (g.step input).membership = g.membership := by
      by_contra begun
      exact timely.2 begun before
    rw [quiet.lostUnder, same]
    exact attested before
  | some membership =>
    obtain rfl := timely.1 membership loss
    cases input with
    | task index reply =>
      have kept : (g.step (.task index reply)).membership = g.membership :=
        (besides_step g fun _ same => by cases same).membership
      simp only [GroupInput.loses] at loss
      split at loss
      · next _ _ membership code at_ answer =>
        split at loss
        · next declared =>
          cases loss
          rw [kept]
          exact taskTurn_loses g reply at_ answer declared
        · cases loss
      · cases loss
    | _ => cases loss

theorem inert (timely : Timely g input) (attested : Attested g) : Inert g input where
  answer := by
    rintro index reply membership code rfl at_ answer - older
    cases loss : declaresLoss code with
    | true =>
      refine absurd (timely.1 membership ?_) older
      simp only [GroupInput.loses, at_, answer, loss]
      rfl
    | false => exact taskTurn_unharmed g reply at_ answer loss
  taken := fun _ takes => by
    rcases takes with ⟨-, invalidated⟩ | resetting
    · exact attested (.inl invalidated)
    · exact attested (.inr resetting)

end Attested

/-- An error answer to a heartbeat of an older membership is inert, under either protocol. -/
theorem superseded_heartbeats_are_inert (groupId : String) (isStatic : Bool)
    (strategy : PartitionAssignmentStrategy) (inputs : List GroupInput)
    (timely : Along GroupMember.step Timely (.fresh groupId isStatic strategy) inputs)
    (catalogue : Catalogue) (inputs' : List Consumer.GroupInput)
    (timely' : Along (Watched.step catalogue) (Watched.Timely catalogue) {} inputs') :
    Along GroupMember.step Inert (.fresh groupId isStatic strategy) inputs ∧
      Along (Watched.step catalogue) (Watched.Inert catalogue) {} inputs' := by
  refine ⟨?_, Watched.inert_run catalogue timely'⟩
  have start : Attested (GroupMember.fresh groupId isStatic strategy) := by
    rintro (h | h) <;> cases h
  exact timely.always Attested (fun _ _ timely attested => attested.step timely)
    (fun _ _ timely attested => attested.inert timely) start

/-! Two memberships -/

def sampleOverlap : List GroupInput :=
  sampleJoin ++
    [GroupInput.task 1 {}, .task 1 {}, .refuseOffsets .staleMemberEpoch, .joinNow] ++ roundSends ++
    roundSucceeds "m" 2 (AList.singleton "t" [0]) ++ roundEnds

def noTopics : Catalogue := ⟨[]⟩

def sampleOverlap848 : List Consumer.GroupInput :=
  List.replicate 16 (Consumer.GroupInput.poll { epoch := 1 }) ++
    List.replicate 3 (Consumer.GroupInput.task 1 {}) ++ [Consumer.GroupInput.setSubscription] ++
    List.replicate 10 (Consumer.GroupInput.poll { epoch := 2 })

/-- Then the first heartbeat is answered: the new membership's task is stopped, and its identity
reset. -/
theorem superseded_heartbeat_ends_membership :
    (let g := (GroupMember.fresh "g" false .range).run sampleOverlap
      let g' := g.run [.task 1 { beat := some .illegalGeneration }, .poll, .poll, .poll]
      g.tasks 1 = .waiting 1 ∧ g.membership = 2 ∧ g.coordinator.running ∧
        g.coordinator.identity = ⟨"m", 2⟩ ∧ g'.coordinator.running = false ∧
        g'.coordinator.identity = {}) ∧
      let w := sampleOverlap848.foldl (Watched.step noTopics) {}
      let w' := w.step noTopics (.task 1 { answer := .fenced })
      w.sentUnder (.task 1) = 1 ∧ w.membership = 2 ∧ w.member.coordinator.running ∧
        w.member.coordinator.memberEpoch = 2 ∧ w'.member.coordinator.running = false ∧
        w'.member.coordinator.memberEpoch = 0 ∧ w'.member.coordinator.membershipLost := by
  decide +kernel

theorem sampleOverlap_is_inert :
    Along GroupMember.step Inert (.fresh "g" false .range)
        (sampleOverlap ++ [.task 1 { beat := some .notCoordinator }]) ∧
      Along (Watched.step noTopics) (Watched.Inert noTopics) {}
        (sampleOverlap848 ++ [.task 1 { answer := .refused }]) :=
  superseded_heartbeats_are_inert "g" false .range _ (by decide +kernel) noTopics _
    (by decide +kernel)

end Krafka.Consumer.Classic
