import Krafka.Consumer.Assigned
import Krafka.Consumer.Watched
import Mathlib.Data.List.Dedup

/-! A KIP-848 member and what it was delivered. A heartbeat that is answered with an assignment
raises a flag; a poll takes the flag down before it applies the assignment. -/

namespace Krafka.Consumer

open Runs GroupMember

def GroupCoordinator.delivers (c : GroupCoordinator) (catalogue : Catalogue) (reply : Reply)
    (beat : Beat) : Bool :=
  ({ c with assignmentChanged := false }.beat catalogue reply beat).1.assignmentChanged

def GroupInput.delivers (catalogue : Catalogue) (g : GroupMember) (input : GroupInput) : Bool :=
  input.turn.any fun (beater, reply) =>
    (g.beatOf beater).any (g.coordinator.delivers catalogue reply)

namespace PollStage

def Leads (s : SubscriptionState) (keys : List PartitionKey) : PollStage → Prop
  | .applying => True
  | .comparing new => ∀ key, key ∈ new ↔ key ∈ keys
  | .revoking _ revoked added => ExactlyAfter s revoked added keys
  | .adding _ added => ExactlyWith s added keys
  | _ => Exactly s keys

def plain : PollStage → Bool
  | .applying | .comparing _ | .revoking .. | .adding .. => false
  | _ => true

def passed : PollStage → Bool
  | .applying | .comparing _ | .revoking .. | .adding .. | .assigning .. | .acknowledging .. => true
  | _ => false

def early : PollStage → Bool
  | .idle | .checkingFatal | .committing | .entering | .joining .. => true
  | _ => false

def isDropping : PollStage → Bool
  | .dropping _ => true
  | _ => false

theorem leads_of_plain {s : SubscriptionState} {keys : List PartitionKey} {poll : PollStage}
    (plain : poll.plain) : poll.Leads s keys ↔ Exactly s keys := by
  cases poll <;> first | exact .rfl | cases plain

end PollStage

def GroupInput.polls : GroupInput → Bool
  | .poll _ => true
  | _ => false

def GroupInput.drops : GroupInput → Bool
  | .dropPoll => true
  | _ => false

structure Followed where
  member : GroupMember := {}
  delivered : Option (List PartitionKey) := none
  polls : Nat := 0
  flaggedIn : Nat := 0

namespace Followed

variable (catalogue : Catalogue) (f : Followed)

def step (input : GroupInput) : Followed :=
  let before := f.member.coordinator
  let after := (f.member.step catalogue input).coordinator
  let delivers := input.delivers catalogue f.member
  { member := f.member.step catalogue input
    delivered :=
      if delivers then some after.assignment.allPartitions
      -- a member that is reset has no assignment any more
      else if after.assignment.entries ≠ before.assignment.entries then none
      else if input.polls && f.member.poll.isDropping && !before.assignmentChanged then none
      else f.delivered
    polls := if input.polls && f.member.poll = .idle then f.polls + 1 else f.polls
    flaggedIn := if delivers then f.polls else f.flaggedIn }

def Completes (input : GroupInput) : Prop :=
  input.polls ∧ f.member.poll.early = false ∧ (f.step catalogue input).member.poll = .idle

instance (input : GroupInput) : Decidable (f.Completes catalogue input) :=
  inferInstanceAs (Decidable (_ ∧ _ ∧ _))

/-- What was delivered last is what is assigned; or it came while the last poll was under way,
and the flag is still up. -/
def Settled : Prop :=
  ∀ keys, f.delivered = some keys →
    Exactly f.member.state keys ∨
      f.member.coordinator.assignmentChanged ∧ f.flaggedIn = f.polls

/-- No poll is dropped between taking the flag down and adding the partitions. -/
def Patient (input : GroupInput) : Prop := input.drops → f.member.poll.plain = true

instance (input : GroupInput) : Decidable (f.Patient input) := inferInstanceAs (Decidable (_ → _))

end Followed

/-! The flag -/

namespace GroupCoordinator

variable (c : GroupCoordinator) (catalogue : Catalogue) (reply : Reply)

theorem assignmentChanged_beat (beat : Beat) :
    (c.beat catalogue reply beat).1.assignmentChanged =
      (c.delivers catalogue reply beat || c.assignmentChanged) := by
  unfold delivers
  cases beat with
  | connecting => simp only [GroupCoordinator.beat, Bool.false_or]
  | waiting =>
    simp only [GroupCoordinator.beat]
    cases reply.answer with
    | fatal =>
      dsimp only
      split <;> rfl
    | ok | fenced | refused | lost => rfl
  | storing epoch assignment =>
    cases assignment with
    | none =>
      simp only [GroupCoordinator.beat]
      split
      · split <;> rfl
      · rfl
    | some => rfl
  | resolving | naming => simp only [GroupCoordinator.beat, Bool.false_or]
  | installing =>
    simp only [GroupCoordinator.beat, install]
    split <;> rfl

theorem assignmentChanged_acknowledge (target : List TopicPartitions) :
    (c.acknowledge target).assignmentChanged = c.assignmentChanged := by
  simp only [acknowledge]
  split
  · split <;> rfl
  · rfl

theorem assignmentChanged_taskTurn (index : Nat) :
    (c.taskTurn catalogue reply index).assignmentChanged =
      ((GroupInput.task index reply).delivers catalogue { coordinator := c } || c.assignmentChanged) := by
  have silent (none_ : beatOf { coordinator := c } (.task index) = none) :
      (GroupInput.task index reply).delivers catalogue { coordinator := c } = false := by
    simp only [GroupInput.delivers, GroupInput.turn, Option.any_some, none_, Option.any_none]
  cases task : c.tasks index with
  | ended =>
    rw [silent (by simp only [beatOf, task])]
    simp only [taskTurn, task, Bool.false_or]
  | leaving =>
    rw [silent (by simp only [beatOf, task])]
    simp only [taskTurn, task, Bool.false_or]
    split <;> rfl
  | left =>
    rw [silent (by simp only [beatOf, task])]
    simp only [taskTurn, task, Bool.false_or]
    rfl
  | task sendFull commands beat =>
    cases beat with
    | none =>
      rw [silent (by simp only [beatOf, task])]
      simp only [taskTurn, task, Bool.false_or]
      repeat' split
      all_goals rfl
    | some beat =>
      have delivers : (GroupInput.task index reply).delivers catalogue { coordinator := c } =
          c.delivers catalogue reply beat := by
        simp only [GroupInput.delivers, GroupInput.turn, Option.any_some, beatOf, task]
      rw [delivers, ← c.assignmentChanged_beat]
      simp only [taskTurn, task]
      generalize c.beat catalogue reply beat = result
      obtain ⟨c', next⟩ := result
      cases next with
      | inl => rfl
      | inr ended => cases ended <;> rfl

end GroupCoordinator

theorem step_raises (catalogue : Catalogue) (g : GroupMember) (input : GroupInput)
    (delivers : input.delivers catalogue g) :
    (g.step catalogue input).coordinator.assignmentChanged := by
  cases input with
  | poll reply =>
    simp only [GroupInput.delivers, GroupInput.turn, Option.any_some, beatOf] at delivers
    split at delivers
    · next owned beat stage =>
      rw [Option.any_some] at delivers
      have raised := g.coordinator.assignmentChanged_beat catalogue reply beat
      rw [delivers, Bool.true_or] at raised
      simp only [GroupMember.step, GroupMember.pollTurn, stage]
      generalize g.coordinator.beat catalogue reply beat = result at raised ⊢
      obtain ⟨c, next⟩ := result
      cases next with
      | inl => exact raised
      | inr ended => cases ended <;> exact raised
    · cases delivers
  | task index reply =>
    show (g.coordinator.taskTurn catalogue reply index).assignmentChanged = true
    rw [g.coordinator.assignmentChanged_taskTurn]
    exact Bool.or_eq_true_iff.mpr (.inl delivers)
  | dropPoll | setSubscription => cases delivers

/-! What was delivered -/

namespace Followed

theorem ends_passed {catalogue : Catalogue} {f : Followed} {reply : Reply}
    (late : f.member.poll.early = false)
    (ends : (f.step catalogue (.poll reply)).member.poll = .idle)
    (up : (f.step catalogue (.poll reply)).member.coordinator.assignmentChanged = true) :
    ∃ new added target, f.member.poll = .acknowledging new added target := by
  change (f.member.pollTurn catalogue reply).poll = .idle at ends
  change (f.member.pollTurn catalogue reply).coordinator.assignmentChanged = true at up
  cases stage : f.member.poll with
  | acknowledging new added target => exact ⟨new, added, target, rfl⟩
  | changing =>
    simp only [GroupMember.pollTurn, stage] at up
    cases up
  | idle | checkingFatal | committing | entering | joining =>
    rw [stage] at late
    cases late
  | losing expired => cases expired <;> simp only [GroupMember.pollTurn, stage, reduceCtorEq] at ends
  | checkingMembership | comparing =>
    simp only [GroupMember.pollTurn, stage] at ends
    split at ends <;> cases ends
  | _ => simp only [GroupMember.pollTurn, stage, reduceCtorEq] at ends

structure Held (f : Followed) : Prop where
  current : ∀ keys, f.delivered = some keys →
    f.member.coordinator.assignment.allPartitions = keys
  applied : f.member.coordinator.assignmentChanged = false → ∀ keys, f.delivered = some keys →
    f.member.poll.Leads f.member.state keys
  late : f.member.coordinator.assignmentChanged → f.member.poll.passed →
    f.flaggedIn = f.polls

namespace Held

variable {catalogue : Catalogue} {f : Followed} {input : GroupInput}

theorem of_step {g : GroupMember} (held : Held f) (steps : f.member.step catalogue input = g)
    (leads : g.coordinator.assignmentChanged = false → input.delivers catalogue f.member = false →
      (input.polls && f.member.poll.isDropping && !f.member.coordinator.assignmentChanged) = false →
      g.coordinator.assignment = f.member.coordinator.assignment →
      ∀ keys, f.delivered = some keys → g.poll.Leads g.state keys)
    (late : g.coordinator.assignmentChanged → g.poll.passed →
      (input.polls && f.member.poll = .idle) = false ∧
        (input.delivers catalogue f.member ∨
          f.member.coordinator.assignmentChanged ∧ f.member.poll.passed = true)) :
    Held (f.step catalogue input) := by
  have kept {keys : List PartitionKey} (at_ : (f.step catalogue input).delivered = some keys)
      (silent : input.delivers catalogue f.member = false) :
      g.coordinator.assignment = f.member.coordinator.assignment ∧
        (input.polls && f.member.poll.isDropping && !f.member.coordinator.assignmentChanged) =
          false ∧ f.delivered = some keys := by
    simp only [Followed.step, silent, steps] at at_
    rw [if_neg Bool.false_ne_true] at at_
    split at at_
    · cases at_
    · next same =>
      split at at_
      · cases at_
      · next holds => exact ⟨AList.ext (not_not.mp same), Bool.eq_false_of_not_eq_true holds, at_⟩
  subst steps
  refine ⟨fun keys at_ => ?_, fun down keys at_ => ?_, fun up passed => ?_⟩
  · cases delivers : input.delivers catalogue f.member with
    | true =>
      simp only [Followed.step, delivers, if_true, Option.some.injEq] at at_
      exact at_
    | false =>
      obtain ⟨same, -, before⟩ := kept at_ delivers
      show (f.member.step catalogue input).coordinator.assignment.allPartitions = keys
      rw [same]
      exact held.current keys before
  · cases delivers : input.delivers catalogue f.member with
    | true =>
      have raised := step_raises catalogue f.member input delivers
      rw [show (f.member.step catalogue input).coordinator.assignmentChanged = false from down]
        at raised
      cases raised
    | false =>
      obtain ⟨same, holds, before⟩ := kept at_ delivers
      exact leads down delivers holds same keys before
  · obtain ⟨under, raised | ⟨was, had⟩⟩ := late up passed
    · simp only [Followed.step, raised, under, if_true, Bool.false_eq_true, if_false]
    · simp only [Followed.step, under, Bool.false_eq_true, if_false, held.late was had, ite_self]

/-- A step after which the poll path leads where it led before, and that raises the flag only with
an assignment. -/
theorem steady {g : GroupMember} (held : Held f) (steps : f.member.step catalogue input = g)
    (leads : ∀ keys, f.member.poll.Leads f.member.state keys → g.poll.Leads g.state keys)
    (unpassed : g.poll.passed →
      f.member.poll.passed ∧ (input.polls && f.member.poll = .idle) = false)
    (flag : g.coordinator.assignmentChanged =
      (input.delivers catalogue f.member || f.member.coordinator.assignmentChanged)) :
    Held (f.step catalogue input) := by
  refine held.of_step steps (fun down silent _ _ keys at_ => ?_) fun up passed => ?_
  · rw [down, silent, Bool.false_or] at flag
    exact leads keys (held.applied flag.symm keys at_)
  · obtain ⟨had, under⟩ := unpassed passed
    rw [up, eq_comm, Bool.or_eq_true_iff] at flag
    exact ⟨under, flag.imp_right fun was => ⟨was, had⟩⟩

theorem plain {g : GroupMember} (held : Held f) (steps : f.member.step catalogue input = g)
    (before : f.member.poll.plain) (after : g.poll.plain) (unpassed : g.poll.passed →
      f.member.poll.passed ∧ (input.polls && f.member.poll = .idle) = false)
    (state : g.state = f.member.state) (flag : g.coordinator.assignmentChanged =
      (input.delivers catalogue f.member || f.member.coordinator.assignmentChanged)) :
    Held (f.step catalogue input) := by
  refine held.steady steps (fun keys leads => ?_) unpassed flag
  rw [PollStage.leads_of_plain after, state]
  exact (PollStage.leads_of_plain before).mp leads

theorem poll (held : Held f) (reply : Reply) : Held (f.step catalogue (.poll reply)) := by
  have silent (none_ : f.member.beatOf .poll = none) :
      (GroupInput.poll reply).delivers catalogue f.member = false := by
    simp only [GroupInput.delivers, GroupInput.turn, Option.any_some, none_, Option.any_none]
  have turn : f.member.step catalogue (.poll reply) = f.member.pollTurn catalogue reply := rfl
  have still {g : GroupMember} (steps : f.member.step catalogue (.poll reply) = g)
      (before : f.member.poll.plain) (quiet : f.member.beatOf .poll = none)
      (after : g.poll.plain)
      (unpassed : g.poll.passed → f.member.poll.passed ∧ f.member.poll ≠ .idle)
      (state : g.state = f.member.state)
      (flag : g.coordinator.assignmentChanged = f.member.coordinator.assignmentChanged) :
      Held (f.step catalogue (.poll reply)) := by
    refine held.plain steps before after (fun passed => ?_) state ?_
    · obtain ⟨had, busy⟩ := unpassed passed
      exact ⟨had, by simp [busy]⟩
    · rw [silent quiet, Bool.false_or]
      exact flag
  obtain ⟨⟨coordinator, state, stage, sent⟩, delivered, polls, flaggedIn⟩ := f
  cases stage <;> simp only [GroupMember.pollTurn] at turn
  case idle =>
    refine still turn rfl rfl ?_ ?_ rfl rfl <;> dsimp only <;> split <;> first | rfl | rintro ⟨⟩
  case dropping =>
    refine held.of_step turn (fun down _ holds _ => ?_) fun _ => by rintro ⟨⟩
    -- what is dropped was given up, unless the flag is up
    change (!coordinator.assignmentChanged) = false at holds
    rw [show coordinator.assignmentChanged = false from down] at holds
    cases holds
  case losing expired =>
    cases expired <;> exact still turn rfl rfl rfl (by rintro ⟨⟩) rfl rfl
  case checkingInvalidated =>
    refine still turn rfl rfl rfl (by rintro ⟨⟩) rfl ?_
    dsimp only
    split <;> rfl
  case checkingMembership | checkingFatal | committing | entering =>
    refine still turn rfl rfl ?_ ?_ rfl rfl <;> dsimp only <;> repeat' split
    all_goals first | rfl | rintro ⟨⟩
  case readingOwned =>
    exact still turn rfl rfl rfl (by rintro ⟨⟩) rfl rfl
  case joining owned beat =>
    have flag : (coordinator.beat catalogue reply beat).1.assignmentChanged =
        ((GroupInput.poll reply).delivers catalogue ⟨coordinator, state, .joining owned beat, sent⟩ ||
          coordinator.assignmentChanged) := coordinator.assignmentChanged_beat catalogue reply beat
    generalize coordinator.beat catalogue reply beat = result at flag turn
    obtain ⟨c, next⟩ := result
    cases next with
    | inl => exact held.plain turn rfl rfl (by rintro ⟨⟩) rfl flag
    | inr ended =>
      cases ended with
      | ok => exact held.plain turn rfl rfl (by rintro ⟨⟩) rfl flag
      | fenced | fatal | refused | lost =>
        refine held.plain turn rfl ?_ ?_ rfl flag <;> dsimp only <;> split <;>
          first | rfl | rintro ⟨⟩
  case changing =>
    refine held.of_step turn (fun _ _ _ _ keys at_ => ?_) (by rintro ⟨⟩)
    dsimp only
    split
    · trivial
    · next down => exact held.applied (Bool.eq_false_of_not_eq_true down) keys at_
  case applying =>
    refine held.of_step turn (fun _ _ _ _ keys at_ key => ?_) fun up _ => ?_
    · rw [List.mem_dedup, held.current keys at_]
    · exact ⟨rfl, .inr ⟨up, rfl⟩⟩
  case comparing =>
    refine held.of_step turn (fun down _ _ _ keys at_ => ?_) fun up _ => ?_
    · have after := exactlyAfter_difference state (held.applied down keys at_)
      dsimp only
      split
      · next none_ => exact ExactlyAfter.of_isEmpty none_ after
      · exact after
    · exact ⟨rfl, .inr ⟨up, rfl⟩⟩
  case revoking =>
    refine held.of_step turn (fun down _ _ _ keys at_ => ?_) fun up _ => ?_
    · exact ExactlyAfter.revoke (held.applied down keys at_)
    · exact ⟨rfl, .inr ⟨up, rfl⟩⟩
  case adding =>
    refine held.of_step turn (fun down _ _ _ keys at_ => ?_) fun up _ => ?_
    · exact ExactlyWith.add (held.applied down keys at_)
    · exact ⟨rfl, .inr ⟨up, rfl⟩⟩
  case assigning =>
    exact still turn rfl rfl rfl (fun _ => ⟨rfl, by rintro ⟨⟩⟩) rfl rfl
  case acknowledging new added target =>
    refine still turn rfl rfl rfl (by rintro ⟨⟩) rfl ?_
    exact GroupCoordinator.assignmentChanged_acknowledge _ target

theorem step (patient : f.Patient input) (held : Held f) : Held (f.step catalogue input) := by
  cases input with
  | poll reply => exact held.poll reply
  | dropPoll => exact held.plain rfl (patient rfl) rfl nofun rfl rfl
  | task index reply =>
    exact held.steady rfl (fun _ => id) (fun passed => ⟨passed, rfl⟩)
      (f.member.coordinator.assignmentChanged_taskTurn catalogue reply index)
  | setSubscription =>
    refine held.steady rfl (fun _ => id) (fun passed => ⟨passed, rfl⟩) ?_
    simp only [GroupMember.step, GroupCoordinator.setSubscription]
    split <;> rfl

theorem settled (held : Held f) (completes : f.Completes catalogue input)
    (after : Held (f.step catalogue input)) : (f.step catalogue input).Settled := by
  obtain ⟨polls, late, ends⟩ := completes
  intro keys delivered
  cases up : (f.step catalogue input).member.coordinator.assignmentChanged with
  | false =>
    refine .inl ?_
    have leads := after.applied up keys delivered
    rw [ends] at leads
    exact leads
  | true =>
    refine .inr ⟨rfl, ?_⟩
    cases input with
    | poll reply =>
      obtain ⟨new, added, target, stage⟩ := ends_passed late ends up
      have silent : (GroupInput.poll reply).delivers catalogue f.member = false := by
        simp only [GroupInput.delivers, GroupInput.turn, Option.any_some, beatOf, stage,
          Option.any_none]
      have was : f.member.coordinator.assignmentChanged := by
        rw [← f.member.coordinator.assignmentChanged_acknowledge target, ← up]
        simp only [Followed.step, GroupMember.step, GroupMember.pollTurn, stage]
      have raised := held.late was (by rw [stage]; rfl)
      simp [Followed.step, silent, stage, raised]
    | _ => cases polls

theorem run (catalogue : Catalogue) {inputs : List GroupInput}
    (patient : Along (Followed.step catalogue) Patient {} inputs) :
    Along (Followed.step catalogue)
      (fun f input => f.Completes catalogue input → (f.step catalogue input).Settled) {} inputs :=
  patient.always Held (fun _ _ patient held => held.step patient)
    (fun _ _ patient held completes => held.settled completes (held.step patient))
    ⟨nofun, fun _ => nofun, nofun⟩

end Held

end Followed

end Krafka.Consumer
