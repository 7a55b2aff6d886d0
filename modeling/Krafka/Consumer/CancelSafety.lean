import Krafka.Consumer.Cooperation
import Krafka.Consumer.Followed
import Krafka.Consumer.Ownership

/-! Dropped polls. A poll takes an assignment out of its slot before it applies it, and waits
for a commit and a callback in between. -/

namespace Krafka.Consumer.Classic

open Runs

def PollStage.Leads (s : SubscriptionState) (keys : List PartitionKey) : PollStage → Prop
  | .comparing apply => ∀ key, key ∈ apply.new ↔ key ∈ keys
  | .revoking apply => ExactlyAfter s apply.revoked apply.added keys
  | .adding apply => ExactlyWith s apply.added keys
  | _ => Exactly s keys

def PollStage.plain : PollStage → Bool
  | .comparing _ | .revoking _ | .adding _ => false
  | _ => true

def PollStage.passed : PollStage → Bool
  | .idle | .dropping _ | .disowning _ | .losing _ | .checkingLost | .resetting | .checkingFatal
  | .committing | .taking => false
  | _ => true

def PollStage.early : PollStage → Bool
  | .idle | .checkingFatal | .committing => true
  | _ => false

def Completes (g : GroupMember) (input : GroupInput) : Prop :=
  input.polls ∧ g.poll.early = false ∧ (g.step input).poll = .idle

instance (g : GroupMember) (input : GroupInput) : Decidable (Completes g input) :=
  inferInstanceAs (Decidable (_ ∧ _ ∧ _))

/-- What was delivered last is what is assigned; or it was parked while the last poll was under
way, and is still there. -/
def Settled (g : GroupMember) : Prop :=
  ∀ keys, g.delivered = some keys →
    Exactly g.state keys ∨ g.untaken = some keys ∧ g.parkedIn = g.polls

def PollStage.isRevoking : PollStage → Bool
  | .revoking _ => true
  | _ => false

def GroupInput.drops : GroupInput → Bool
  | .dropPoll => true
  | _ => false

def Round.parksError (round : Round) : Bool :=
  match round.stage with
  | .parking (.error _) => true
  | _ => false

/-- No poll is dropped where it waits before a revocation, and no failure is parked over an
assignment. -/
def Patient (g : GroupMember) (input : GroupInput) : Prop :=
  (input.drops → g.poll.isRevoking = false) ∧
    ∀ round ∈ input.turns g, round.parksError → g.untaken = none

instance (g : GroupMember) (input : GroupInput) : Decidable (Patient g input) :=
  inferInstanceAs (Decidable (_ ∧ _))

variable {poll : PollStage}

theorem PollStage.leads_of_plain {s : SubscriptionState} {keys : List PartitionKey}
    (plain : poll.plain) : poll.Leads s keys ↔ Exactly s keys := by
  cases poll <;> first | exact .rfl | cases plain

theorem PollStage.plain_of_awaits (awaits : poll.awaits)
    (other : poll.isRevoking = false) : poll.plain := by
  cases poll <;> first | rfl | (cases other; done) | cases awaits

theorem PollStage.leads_congr {s s' : SubscriptionState} {keys : List PartitionKey}
    (same : SameKeys s s') (leads : poll.Leads s keys) : poll.Leads s' keys := by
  cases poll with
  | comparing => exact leads
  | revoking => exact ExactlyAfter.congr same leads
  | adding => exact ExactlyWith.congr same leads
  | _ => exact Exactly.congr same leads

structure Held (g : GroupMember) : Prop where
  parked : ∀ keys, g.untaken = some keys → g.delivered = some keys
  applied : g.untaken = none → ∀ keys, g.delivered = some keys → g.poll.Leads g.state keys
  late : g.coordinator.pendingRebalance.isSome → g.poll.passed →
    g.parkedIn = g.polls

namespace Held

variable {g g' : GroupMember}

/-! Polls -/

theorem plain (held : Held g) (before : g.poll.plain) (after : g'.poll.plain)
    (state : g'.state = g.state) (delivered : g'.delivered = g.delivered)
    (pending : g'.coordinator.pendingRebalance = g.coordinator.pendingRebalance)
    (parkedIn : g'.parkedIn = g.parkedIn) (late : g'.poll.passed → g'.polls = g.polls ∧
      (g.poll.passed ∨ g.coordinator.pendingRebalance = none)) : Held g' where
  parked := fun keys untaken => by
    rw [GroupMember.untaken, pending] at untaken
    rw [delivered]
    exact held.parked keys untaken
  applied := fun untaken keys at_ => by
    rw [GroupMember.untaken, pending] at untaken
    rw [delivered] at at_
    rw [PollStage.leads_of_plain after, state, ← PollStage.leads_of_plain before]
    exact held.applied untaken keys at_
  late := fun filled passed => by
    rw [pending] at filled
    obtain ⟨polls, had | nothing⟩ := late passed
    · rw [parkedIn, polls]
      exact held.late filled had
    · rw [nothing] at filled
      cases filled

theorem givenUp (delivered : g'.delivered = g.untaken)
    (pending : g'.coordinator.pendingRebalance = g.coordinator.pendingRebalance)
    (late : g'.coordinator.pendingRebalance.isSome → g'.poll.passed →
      g'.parkedIn = g'.polls) : Held g' where
  parked := fun keys untaken => by
    rw [GroupMember.untaken, pending] at untaken
    rw [delivered]
    exact untaken
  applied := fun untaken keys at_ => by
    rw [GroupMember.untaken, pending] at untaken
    rw [delivered, GroupMember.untaken, untaken] at at_
    cases at_
  late := late

theorem applyJoin (held : Held g) (before : g.poll.plain) {outcome : Outcome}
    (filled : g.coordinator.pendingRebalance = some outcome) (again : Bool) :
    Held (g.takePending.applyJoin outcome again) := by
  cases outcome with
  | ok assignment =>
    refine ⟨nofun, fun _ keys at_ key => ?_, nofun⟩
    have delivered := held.parked assignment.allPartitions (by rw [GroupMember.untaken, filled]; rfl)
    obtain rfl : assignment.allPartitions = keys := Option.some.inj (delivered.symm.trans at_)
    exact List.mem_dedup
  | error error =>
    refine ⟨nofun, fun _ keys at_ => ?_, nofun⟩
    have plain : (g.takePending.applyJoin (.error error) again).poll.plain := by
      simp only [GroupMember.applyJoin]
      split <;> rfl
    rw [PollStage.leads_of_plain plain]
    exact (PollStage.leads_of_plain before).mp
      (held.applied (by rw [GroupMember.untaken, filled]; rfl) keys at_)

theorem pollTurn (held : Held g) : Held g.pollTurn := by
  have still {c : GroupCoordinator} {poll : PollStage} (before : g.poll.plain)
      (after : poll.plain)
      (pending : c.pendingRebalance = g.coordinator.pendingRebalance)
      (late : poll.passed → g.poll.passed) :
      Held { g with coordinator := c, poll } :=
    held.plain before after rfl rfl pending rfl fun passed => ⟨rfl, .inl (late passed)⟩
  unfold GroupMember.pollTurn
  cases stage : g.poll with
  | idle =>
    refine held.plain (stage ▸ rfl) ?_ rfl rfl rfl rfl ?_ <;> dsimp only <;> split <;>
      first | rfl | exact nofun
  | dropping => exact givenUp rfl rfl fun _ => nofun
  | losing expired => cases expired <;> exact still (stage ▸ rfl) rfl rfl nofun
  | checkingLost | checkingFatal | committing =>
    refine still (stage ▸ rfl) ?_ rfl ?_ <;> split <;> first | rfl | exact nofun
  | taking =>
    dsimp only
    split
    · next outcome filled => exact held.applyJoin (stage ▸ rfl) filled false
    · next empty =>
      exact held.plain (stage ▸ rfl) rfl rfl rfl rfl rfl fun _ => ⟨rfl, .inr empty⟩
  | takingAgain =>
    dsimp only
    split
    · next outcome filled => exact held.applyJoin (stage ▸ rfl) filled true
    · exact still (stage ▸ rfl) rfl rfl nofun
  | comparing =>
    have before := held.applied
    have late := held.late
    rw [stage] at before late
    refine ⟨held.parked, fun untaken keys at_ => ?_, fun filled _ => late filled rfl⟩
    have after := exactlyAfter_difference g.state (before untaken keys at_)
    dsimp only
    split
    · next none_ => exact ExactlyAfter.of_isEmpty none_ after
    · exact after
  | revoking =>
    have before := held.applied
    have late := held.late
    rw [stage] at before late
    exact ⟨held.parked, fun untaken keys at_ => (before untaken keys at_).revoke,
      fun filled _ => late filled rfl⟩
  | adding =>
    have before := held.applied
    have late := held.late
    rw [stage] at before late
    exact ⟨held.parked, fun untaken keys at_ => (before untaken keys at_).add,
      fun filled _ => late filled rfl⟩
  | assigning =>
    refine still (stage ▸ rfl) ?_ ?_ fun _ => stage ▸ rfl
    · split <;> rfl
    · split <;> rfl
  | checkingFlight | checkingRound =>
    refine still (stage ▸ rfl) ?_ rfl fun _ => stage ▸ rfl
    split <;> rfl
  | checkingNeed =>
    refine still (stage ▸ rfl) ?_ (calm_needsRejoin _).pending fun _ => stage ▸ rfl
    dsimp only
    repeat' split
    all_goals rfl
  | revokingAll =>
    have late := held.late
    rw [stage] at late
    exact givenUp rfl rfl fun filled _ => late filled rfl
  | spawning =>
    obtain ⟨flight, round, rounds, same⟩ := spawnRejoin_eq g true
    dsimp only
    rw [same]
    exact held.plain (stage ▸ rfl) rfl rfl rfl rfl rfl
      fun _ => ⟨rfl, .inl (stage ▸ rfl)⟩
  | disowning | resetting => exact still (stage ▸ rfl) rfl rfl nofun
  | owning | disowningAll | awaiting =>
    exact still (stage ▸ rfl) rfl rfl fun _ => stage ▸ rfl

end Held

/-! Everything else -/

inductive Handling (g g' : GroupMember) : Prop where
  | keeps (pending : g'.coordinator.pendingRebalance = g.coordinator.pendingRebalance)
      (delivered : g'.delivered = g.delivered) (state : SameKeys g.state g'.state)
  | givesUp (pending : g'.coordinator.pendingRebalance = g.coordinator.pendingRebalance)
      (delivered : g'.delivered = g.untaken)
  | withdraws (pending : g'.coordinator.pendingRebalance = none)
      (delivered : g'.delivered = if g.untaken.isSome then none else g.delivered)
      (state : SameKeys g.state g'.state)

structure Handled (g g' : GroupMember) : Prop where
  poll : g'.poll = g.poll ∨ g.poll.plain ∧ g'.poll = .idle
  polls : g'.polls = g.polls
  parkedIn : g'.parkedIn = g.parkedIn
  slot : Handling g g'

section Handled

variable {g g' : GroupMember}

theorem Handled.held (handled : Handled g g') (held : Held g) : Held g' := by
  have leads {keys : List PartitionKey} (before : g.poll.Leads g.state keys)
      (state : SameKeys g.state g'.state) : g'.poll.Leads g'.state keys := by
    rcases handled.poll with same | ⟨plain, idle⟩
    · rw [same]
      exact PollStage.leads_congr state before
    · rw [idle]
      exact ((PollStage.leads_of_plain plain).mp before).congr state
  have late (filled : g.coordinator.pendingRebalance.isSome) (passed : g'.poll.passed) :
      g'.parkedIn = g'.polls := by
    rcases handled.poll with same | ⟨-, idle⟩
    · rw [handled.parkedIn, handled.polls]
      exact held.late filled (same ▸ passed)
    · rw [idle] at passed
      cases passed
  cases handled.slot with
  | keeps pending delivered state =>
    refine ⟨fun keys untaken => ?_, fun untaken keys at_ => ?_, fun filled => late (pending ▸ filled)⟩
    · rw [GroupMember.untaken, pending] at untaken
      exact delivered.trans (held.parked keys untaken)
    · rw [GroupMember.untaken, pending] at untaken
      exact leads (held.applied untaken keys (delivered ▸ at_)) state
  | givesUp pending delivered =>
    exact .givenUp delivered pending fun filled => late (pending ▸ filled)
  | withdraws pending delivered state =>
    have empty : g'.untaken = none := by rw [GroupMember.untaken, pending]; rfl
    refine ⟨fun keys untaken => ?_, fun _ keys at_ => ?_, fun filled => ?_⟩
    · rw [empty] at untaken
      cases untaken
    · rw [delivered] at at_
      split at at_
      · cases at_
      · next nothing =>
        exact leads (held.applied (Option.not_isSome_iff_eq_none.mp nothing) keys at_) state
    · rw [pending] at filled
      cases filled

theorem Handled.of_pending (poll : g'.poll = g.poll) (polls : g'.polls = g.polls)
    (parkedIn : g'.parkedIn = g.parkedIn) (state : g'.state = g.state)
    (delivered : g'.delivered = g.delivered)
    (pending : g'.coordinator.pendingRebalance = g.coordinator.pendingRebalance) : Handled g g' :=
  ⟨.inl poll, polls, parkedIn, .keeps pending delivered (state ▸ .refl _)⟩

theorem OtherStep.handled {input : GroupInput} (step : OtherStep g input g')
    (drops : input.drops → g.poll.isRevoking = false) : Handled g g' := by
  cases step with
  | calm calm | commits _ calm | spawns calm => exact .of_pending rfl rfl rfl rfl rfl calm.pending
  | revokes => exact ⟨.inl rfl, rfl, rfl, .givesUp rfl rfl⟩
  | subscribes =>
    obtain ⟨state, same⟩ := setSubscription_eq g.coordinator _
    exact .of_pending rfl rfl rfl rfl rfl (by rw [same])
  | leaves _ step withdraws =>
    rcases withdraws with ⟨kept, -, same⟩ | ⟨empty, -, -, withdrawn⟩
    · exact .of_pending rfl rfl rfl rfl same kept
    · exact ⟨.inl rfl, rfl, rfl, .withdraws empty withdrawn (.refl _)⟩
  | dropsPoll at_ awaits =>
    subst at_
    refine ⟨.inr ⟨?_, rfl⟩, rfl, rfl, .keeps rfl rfl (.refl _)⟩
    exact PollStage.plain_of_awaits awaits (drops rfl)
  | operates keys => exact ⟨.inl rfl, rfl, rfl, .keeps rfl rfl keys⟩
  | expires | needsRejoin | loses | disowns | dropsCommit =>
    exact .of_pending rfl rfl rfl rfl rfl rfl

end Handled

namespace Held

variable {g g' : GroupMember}

theorem roundStep {round : Round} (held : Held g) (step : RoundStep g round g')
    (errors : round.parksError → g.untaken = none) : Held g' := by
  have handled : ∀ {g' : GroupMember}, Handled g g' → Held g' := fun handled => handled.held held
  cases step with
  | goesOn follows calm | fails error fallible calm =>
    exact handled (.of_pending rfl rfl rfl rfl rfl calm.pending)
  | @parks outcome stage =>
    cases outcome with
    | ok =>
      refine ⟨fun keys untaken => ?_, nofun, fun _ _ => rfl⟩
      exact untaken
    | error =>
      have before := errors (by simp only [Round.parksError, stage])
      refine ⟨nofun, fun _ keys at_ => ?_, fun _ _ => rfl⟩
      exact held.applied before keys at_
  | starts | readsTopics | readsOwned | announces | joins | syncs | keeps | discards | beats
  | clears => exact handled (.of_pending rfl rfl rfl rfl rfl rfl)

theorem step {input : GroupInput} (patient : Patient g input) (held : Held g) :
    Held (g.step input) := by
  by_cases round : ∃ reply, input = .round reply
  · obtain ⟨reply, rfl⟩ := round
    exact stepwise g _ held (fun at_ step => held.roundStep step (patient.2 _ at_))
      fun other => absurd rfl (other reply)
  · cases poll : input.polls with
    | true =>
      cases input with
      | poll => exact held.pollTurn
      | _ => cases poll
    | false =>
      have other : input ≠ .poll := by
        rintro rfl
        cases poll
      have step := other_step g other fun reply same => round ⟨reply, same⟩
      exact (step.handled patient.1).held held

theorem parked_late (held : Held g) (late : g.poll.early = false) (ends : g.pollTurn.poll = .idle)
    {keys : List PartitionKey} (untaken : g.pollTurn.untaken = some keys) :
    g.pollTurn.parkedIn = g.pollTurn.polls := by
  have filled (same : g.pollTurn.untaken = g.untaken) :
      g.coordinator.pendingRebalance.isSome := by
    rw [same, GroupMember.untaken, Option.bind_eq_some_iff] at untaken
    obtain ⟨outcome, at_, -⟩ := untaken
    rw [at_]
    rfl
  have taken {outcome : Outcome} {again : Bool}
      (same : g.pollTurn = g.takePending.applyJoin outcome again) : False := by
    have empty : g.pollTurn.untaken = none := by
      rw [same]
      cases outcome <;> rfl
    rw [empty] at untaken
    cases untaken
  have ended (passed : g.poll.passed) (same : g.pollTurn.untaken = g.untaken)
      (parkedIn : g.pollTurn.parkedIn = g.parkedIn) (polls : g.pollTurn.polls = g.polls) :
      g.pollTurn.parkedIn = g.pollTurn.polls := by
    rw [parkedIn, polls]
    exact held.late (filled same) passed
  cases stage : g.poll with
  | idle | checkingFatal | committing => rw [stage] at late; cases late
  | taking =>
    cases pending : g.coordinator.pendingRebalance with
    | none => simp only [GroupMember.pollTurn, stage, pending, reduceCtorEq] at ends
    | some => exact (taken (by simp only [GroupMember.pollTurn, stage, pending]; rfl)).elim
  | takingAgain =>
    cases pending : g.coordinator.pendingRebalance with
    | none =>
      refine ended (stage ▸ rfl) ?_ ?_ ?_ <;>
        simp only [GroupMember.pollTurn, stage, pending, GroupMember.untaken]
    | some => exact (taken (by simp only [GroupMember.pollTurn, stage, pending]; rfl)).elim
  | assigning =>
    refine ended (stage ▸ rfl) ?_ ?_ ?_ <;>
      simp only [GroupMember.pollTurn, stage, GroupMember.untaken]
    split <;> rfl
  | checkingRound =>
    refine ended (stage ▸ rfl) ?_ ?_ ?_ <;>
      simp only [GroupMember.pollTurn, stage, GroupMember.untaken]
  | losing expired =>
    cases expired <;> simp only [GroupMember.pollTurn, stage, reduceCtorEq] at ends
  | checkingLost | comparing | checkingFlight | checkingNeed =>
    simp only [GroupMember.pollTurn, stage] at ends
    repeat' split at ends
    all_goals cases ends
  | _ => simp only [GroupMember.pollTurn, stage, reduceCtorEq] at ends

theorem settled (held : Held g) {input : GroupInput} (completes : Completes g input)
    (after : Held (g.step input)) : Settled (g.step input) := by
  obtain ⟨polls, late, ends⟩ := completes
  intro keys delivered
  cases input with
  | poll =>
    cases untaken : g.pollTurn.untaken with
    | none =>
      refine .inl ?_
      have leads := after.applied untaken keys delivered
      rw [ends] at leads
      exact leads
    | some keys' =>
      obtain rfl := Option.some.inj ((after.parked keys' untaken).symm.trans delivered)
      exact .inr ⟨untaken, held.parked_late late ends untaken⟩
  | _ => cases polls

theorem run (groupId : String) (isStatic : Bool) (strategy : PartitionAssignmentStrategy)
    {inputs : List GroupInput}
    (patient : Along GroupMember.step Patient (.fresh groupId isStatic strategy) inputs) :
    Along GroupMember.step (fun g input => Completes g input → Settled (g.step input))
      (.fresh groupId isStatic strategy) inputs :=
  patient.always Held (fun _ _ patient held => held.step patient)
    (fun _ _ patient held completes => held.settled completes (held.step patient))
    ⟨nofun, fun _ => nofun, nofun⟩

end Held

/-- Under either protocol, a poll that runs to completion leaves the member with the assignment
delivered last, unless that one came while the poll was under way. -/
theorem completed_polls_settle (groupId : String) (isStatic : Bool)
    (strategy : PartitionAssignmentStrategy) (inputs : List GroupInput)
    (patient : Along GroupMember.step Patient (.fresh groupId isStatic strategy) inputs)
    (catalogue : Catalogue) (inputs' : List Consumer.GroupInput)
    (patient' : Along (Followed.step catalogue) Followed.Patient {} inputs') :
    Along GroupMember.step (fun g input => Completes g input → Settled (g.step input))
        (.fresh groupId isStatic strategy) inputs ∧
      Along (Followed.step catalogue)
        (fun f input => f.Completes catalogue input → (f.step catalogue input).Settled) {} inputs' :=
  ⟨Held.run groupId isStatic strategy patient, Followed.Held.run catalogue patient'⟩

/-! A poll dropped before a revocation -/

def sampleRevoking : List GroupInput :=
  sampleRejoin ++ roundSucceeds "m" 2 (AList.singleton "t" [1]) ++
    List.replicate 3 (GroupInput.round {}) ++ List.replicate 6 GroupInput.poll

def sampleRevoking848 : List Consumer.GroupInput :=
  List.replicate 18 (Consumer.GroupInput.poll (assigns 1 [0])) ++
    List.replicate 8 (Consumer.GroupInput.task 1 (assigns 2 [1])) ++
    List.replicate 8 (Consumer.GroupInput.poll {})

/-- The poll is dropped, and the next one completes. -/
theorem dropped_poll_loses_assignment :
    let g := (GroupMember.fresh "g" false .cooperativeSticky).run
      (sampleRevoking ++ .dropPoll :: List.replicate 7 .poll)
    let f := List.foldl (Followed.step memberCatalogue) {}
      (sampleRevoking848 ++ .dropPoll :: List.replicate 5 (.poll {}))
    (Completes g .poll ∧ (g.step .poll).delivered = some [("t", 1)] ∧
        (g.step .poll).untaken = none ∧ (g.step .poll).state.assignedKeys = [("t", 0)]) ∧
      f.Completes memberCatalogue (.poll {}) ∧
        (f.step memberCatalogue (.poll {})).delivered = some [("t", 1)] ∧
        (f.step memberCatalogue (.poll {})).member.coordinator.assignmentChanged = false ∧
        (f.step memberCatalogue (.poll {})).member.state.assignedKeys = [("t", 0)] := by
  decide +kernel

/-- A poll dropped where it waits for a round, or for the callback after partitions were added,
loses nothing. -/
theorem sampleRevoking_settles :
    Along GroupMember.step (fun g input => Completes g input → Settled (g.step input))
        (.fresh "g" false .cooperativeSticky)
        (sampleRevoking ++ List.replicate 3 .poll ++ .dropPoll :: List.replicate 8 .poll) ∧
      Along (Followed.step memberCatalogue) (fun f input => f.Completes memberCatalogue input →
          (f.step memberCatalogue input).Settled) {}
        (sampleRevoking848 ++ List.replicate 2 (.poll {}) ++ .dropPoll ::
          List.replicate 6 (.poll {})) :=
  completed_polls_settle "g" false .cooperativeSticky _ (by decide +kernel) memberCatalogue _
    (by decide +kernel)

end Krafka.Consumer.Classic
