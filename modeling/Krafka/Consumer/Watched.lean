import Krafka.Consumer.Group
import Krafka.Library.Runs

/-! A KIP-848 member watched from outside: which membership each heartbeat was sent under, and
which one an answer declares lost. A membership begins when the coordinator answers with another
epoch than the member has. -/

namespace Krafka.Consumer

open Function Runs GroupCoordinator

inductive Beater where
  | poll
  | task (index : Nat)
  deriving DecidableEq

def GroupMember.beatOf (g : GroupMember) : Beater → Option Beat
  | .poll =>
    match g.poll with
    | .joining _ beat => some beat
    | _ => none
  | .task index =>
    match g.coordinator.tasks index with
    | .task _ _ beat => beat
    | _ => none

def GroupInput.turn : GroupInput → Option (Beater × Reply)
  | .poll reply => some (.poll, reply)
  | .task index reply => some (.task index, reply)
  | _ => none

def GroupInput.sends (g : GroupMember) (input : GroupInput) : Option Beater :=
  input.turn.bind fun (beater, reply) =>
    match g.beatOf beater with
    | some (.connecting _) => if reply.connected then some beater else none
    | _ => none

def GroupInput.answers (g : GroupMember) (input : GroupInput) : Option (Beater × Reply) :=
  input.turn.bind fun (beater, reply) =>
    match g.beatOf beater with
    | some (.waiting _) => some (beater, reply)
    | _ => none

def loses : Beater → BeatEnd → Bool
  | _, .fenced => true
  | .task _, .fatal => true
  | _, _ => false

structure Watched where
  member : GroupMember := {}
  membership : Nat := 0
  sentUnder : Beater → Nat := fun _ => 0
  lostUnder : Option Nat := none

namespace Watched

variable (catalogue : Catalogue) (w : Watched)

def adopts (reply : Reply) : Bool :=
  reply.answer = .ok && reply.epoch ≠ w.member.coordinator.memberEpoch

def step (input : GroupInput) : Watched where
  member := w.member.step catalogue input
  membership :=
    if (input.answers w.member).any fun (_, reply) => w.adopts reply then w.membership + 1
    else w.membership
  sentUnder :=
    match input.sends w.member with
    | some beater => update w.sentUnder beater w.membership
    | none => w.sentUnder
  lostUnder :=
    match input.answers w.member with
    | some (beater, reply) =>
      if loses beater reply.answer then some (w.sentUnder beater) else w.lostUnder
    | none => w.lostUnder

end Watched

/-! What a step does to the flags a loss is reported with -/

def GroupMember.PendingLoss (g : GroupMember) : Prop :=
  g.coordinator.membershipLost ∨ g.coordinator.memberInvalidated ∨
    g.poll = .checkingMembership true

instance (g : GroupMember) : Decidable g.PendingLoss := inferInstanceAs (Decidable (_ ∨ _ ∨ _))

namespace GroupCoordinator

structure SameFlags (c c' : GroupCoordinator) : Prop where
  lost : c'.membershipLost = c.membershipLost
  invalidated : c'.memberInvalidated = c.memberInvalidated
  running : c'.running = c.running
  tasks : c'.tasks = c.tasks

variable {c : GroupCoordinator} {catalogue : Catalogue} {reply : Reply}

inductive BeatStep (c : GroupCoordinator) (reply : Reply) : Beat → GroupCoordinator →
    Beat ⊕ BeatEnd → Prop where
  | fenced {owned : Option (List TopicPartitions)} (answer : reply.answer = .fenced) :
      BeatStep c reply (.waiting owned) { c.resetForKip848Fencing with membershipLost := true }
        (.inr .fenced)
  | fatal {owned : Option (List TopicPartitions)} {c' : GroupCoordinator}
      (answer : reply.answer = .fatal) (flags : SameFlags c c')
      (epoch : c'.memberEpoch = c.memberEpoch) :
      BeatStep c reply (.waiting owned) c' (.inr .fatal)
  | refused {owned : Option (List TopicPartitions)} {ended : BeatEnd} (answer : reply.answer = ended)
      (mild : ended = .refused ∨ ended = .lost) : BeatStep c reply (.waiting owned) c (.inr ended)
  | lost {owned : Option (List TopicPartitions)} :
      BeatStep c reply (.connecting owned) c (.inr .lost)
  | ok {beat : Beat} {c' : GroupCoordinator} (answer : (∃ owned, beat = .waiting owned) →
        reply.answer = .ok) (flags : SameFlags c c') : BeatStep c reply beat c' (.inr .ok)
  | goesOn {beat beat' : Beat} {c' : GroupCoordinator} (answer : (∃ owned, beat = .waiting owned) →
        reply.answer = .ok) (flags : SameFlags c c') : BeatStep c reply beat c' (.inl beat')

theorem beat_step (c : GroupCoordinator) (catalogue : Catalogue) (reply : Reply) (beat : Beat) :
    BeatStep c reply beat (c.beat catalogue reply beat).1 (c.beat catalogue reply beat).2 := by
  cases beat with
  | connecting =>
    simp only [beat]
    split
    · exact .goesOn nofun ⟨rfl, rfl, rfl, rfl⟩
    · exact .lost
  | waiting =>
    cases answer : reply.answer with
    | ok =>
      simp only [beat, answer]
      exact .goesOn (fun _ => answer) ⟨rfl, rfl, rfl, rfl⟩
    | fenced =>
      simp only [beat, answer]
      exact .fenced answer
    | fatal =>
      simp only [beat, answer]
      split <;> exact .fatal answer ⟨rfl, rfl, rfl, rfl⟩ rfl
    | refused =>
      simp only [beat, answer]
      exact .refused answer (.inl rfl)
    | lost =>
      simp only [beat, answer]
      exact .refused answer (.inr rfl)
  | storing epoch assignment =>
    cases assignment with
    | none =>
      simp only [beat]
      split
      · refine .ok nofun ?_
        split <;> exact ⟨rfl, rfl, rfl, rfl⟩
      · exact .goesOn nofun ⟨rfl, rfl, rfl, rfl⟩
    | some => exact .goesOn nofun ⟨rfl, rfl, rfl, rfl⟩
  | resolving | naming => exact .goesOn nofun ⟨rfl, rfl, rfl, rfl⟩
  | installing last unresolved assignment =>
    have flags : SameFlags c (c.install assignment) := by
      unfold install
      split <;> exact ⟨rfl, rfl, rfl, rfl⟩
    simp only [beat]
    split
    · exact .goesOn nofun flags
    · exact .ok nofun flags

theorem acknowledge_flags (c : GroupCoordinator) (target : List TopicPartitions) :
    (c.acknowledge target).membershipLost = c.membershipLost ∧
      (c.acknowledge target).memberInvalidated = c.memberInvalidated := by
  simp only [acknowledge]
  split
  · split <;> exact ⟨rfl, rfl⟩
  · exact ⟨rfl, rfl⟩

end GroupCoordinator

open GroupCoordinator

section Steps

variable (catalogue : Catalogue) (g : GroupMember)

variable {beater : Beater} {reply : Reply} {input : GroupInput}

theorem answers_of_waiting
    (owned : Option (List TopicPartitions)) (turn : input.turn = some (beater, reply))
    (beat : g.beatOf beater = some (.waiting owned)) : input.answers g = some (beater, reply) := by
  simp only [GroupInput.answers, turn, Option.bind_some, beat]

theorem answers_eq_some
    (answers : input.answers g = some (beater, reply)) :
    input.turn = some (beater, reply) ∧ ∃ owned, g.beatOf beater = some (.waiting owned) := by
  unfold GroupInput.answers at answers
  obtain ⟨⟨beater', reply'⟩, turn, found⟩ := Option.bind_eq_some_iff.mp answers
  dsimp only at found
  split at found
  · next owned beat =>
    cases found
    exact ⟨turn, owned, beat⟩
  · cases found

structure Quiet (g g' : GroupMember) : Prop where
  lost : g'.coordinator.membershipLost → g.coordinator.membershipLost = true
  invalidated : g'.coordinator.memberInvalidated → g.coordinator.memberInvalidated = true
  poll : g'.poll = .checkingMembership true → g.PendingLoss

theorem Quiet.pending {g g' : GroupMember} (quiet : Quiet g g') (pending : g'.PendingLoss) :
    g.PendingLoss := by
  rcases pending with lost | invalidated | taken
  · exact .inl (quiet.lost lost)
  · exact .inr (.inl (quiet.invalidated invalidated))
  · exact quiet.poll taken

def GroupInput.Declares (g : GroupMember) (input : GroupInput) : Prop :=
  ∃ beater reply, input.answers g = some (beater, reply) ∧ loses beater reply.answer = true

theorem taskTurn_flags (index : Nat) (reply : Reply) :
    Quiet g (g.step catalogue (.task index reply)) ∨ (GroupInput.task index reply).Declares g := by
  have answers {sendFull : Bool} {commands : Nat} {owned : Option (List TopicPartitions)}
      (at_ : g.coordinator.tasks index = .task sendFull commands (some (.waiting owned))) :
      (GroupInput.task index reply).answers g = some (.task index, reply) := by
    refine answers_of_waiting g owned rfl ?_
    simp only [GroupMember.beatOf, at_]
  have same {c : GroupCoordinator} {sent : List SentBeat}
      (lost : c.membershipLost = g.coordinator.membershipLost)
      (invalidated : c.memberInvalidated = g.coordinator.memberInvalidated) :
      Quiet g { g with coordinator := c, sent } :=
    ⟨fun h => lost ▸ h, fun h => invalidated ▸ h, fun h => .inr (.inr h)⟩
  simp only [GroupMember.step, taskTurn]
  cases task : g.coordinator.tasks index with
  | ended | left => exact .inl (same rfl rfl)
  | leaving =>
    dsimp only
    split <;> exact .inl (same rfl rfl)
  | task sendFull commands beat =>
    cases beat with
    | some beat =>
      have step := g.coordinator.beat_step catalogue reply beat
      dsimp only
      generalize g.coordinator.beat catalogue reply beat = result at step ⊢
      obtain ⟨c, next⟩ := result
      cases step with
      | fenced answer | fatal answer => exact .inr ⟨_, _, answers task, by rw [answer]; rfl⟩
      | refused answer mild => rcases mild with rfl | rfl <;> exact .inl (same rfl rfl)
      | lost => exact .inl (same rfl rfl)
      | ok answer flags | goesOn answer flags => exact .inl (same flags.lost flags.invalidated)
    | none =>
      dsimp only
      repeat' split
      all_goals exact .inl (same rfl rfl)

theorem pollTurn_flags (reply : Reply) :
    Quiet g (g.pollTurn catalogue reply) ∨ (GroupInput.poll reply).Declares g := by
  have plain {g' : GroupMember}
      (lost : g'.coordinator.membershipLost = g.coordinator.membershipLost)
      (invalidated : g'.coordinator.memberInvalidated = g.coordinator.memberInvalidated)
      (poll : g'.poll ≠ .checkingMembership true) : Quiet g g' :=
    ⟨fun h => lost ▸ h, fun h => invalidated ▸ h, fun h => absurd h poll⟩
  unfold GroupMember.pollTurn
  cases stage : g.poll with
  | losing expired => cases expired <;> exact .inl (plain rfl rfl nofun)
  | checkingInvalidated =>
    -- the flag moves into the stage
    refine .inl ⟨?_, ?_, fun taken => ?_⟩
    · dsimp only
      split <;> exact id
    · dsimp only
      split
      · exact nofun
      · exact id
    · injection taken with invalidated
      exact .inr (.inl invalidated)
  | checkingMembership =>
    refine .inl ⟨nofun, id, ?_⟩
    dsimp only
    split <;> exact nofun
  | joining owned beat =>
    have step := g.coordinator.beat_step catalogue reply beat
    dsimp only
    generalize g.coordinator.beat catalogue reply beat = result at step ⊢
    obtain ⟨c, next⟩ := result
    cases step with
    | @fenced sent answer =>
      refine .inr ⟨.poll, reply, answers_of_waiting g sent rfl ?_, by rw [answer]; rfl⟩
      simp only [GroupMember.beatOf, stage]
    | fatal answer flags =>
      refine .inl (plain flags.lost flags.invalidated ?_)
      dsimp only
      split <;> exact nofun
    | refused answer mild =>
      rcases mild with rfl | rfl <;>
      · refine .inl (plain rfl rfl ?_)
        dsimp only
        split <;> exact nofun
    | lost =>
      refine .inl (plain rfl rfl ?_)
      dsimp only
      split <;> exact nofun
    | ok answer flags => exact .inl ⟨fun h => flags.lost ▸ h, nofun, nofun⟩
    | goesOn answer flags => exact .inl (plain flags.lost flags.invalidated nofun)
  | acknowledging new added target =>
    obtain ⟨tasks, same⟩ := acknowledge_flags g.coordinator target
    exact .inl (plain tasks same nofun)
  | idle | checkingFatal | changing | comparing | committing | entering =>
    refine .inl (plain rfl rfl ?_)
    dsimp only
    repeat' split
    all_goals exact nofun
  | dropping | readingOwned | applying | revoking | adding | assigning =>
    exact .inl (plain rfl rfl nofun)

theorem step_flags (input : GroupInput) : Quiet g (g.step catalogue input) ∨ input.Declares g := by
  cases input with
  | poll reply => exact pollTurn_flags catalogue g reply
  | dropPoll => exact .inl ⟨id, id, nofun⟩
  | task index reply => exact taskTurn_flags catalogue g index reply
  | setSubscription =>
    refine .inl ⟨?_, ?_, fun h => .inr (.inr h)⟩ <;>
      simp only [GroupMember.step, setSubscription] <;> split <;> exact id

structure Unharmed (c c' : GroupCoordinator) : Prop where
  epoch : c'.memberEpoch = c.memberEpoch
  running : c'.running = c.running
  lost : c'.membershipLost = c.membershipLost
  invalidated : c'.memberInvalidated = c.memberInvalidated

theorem unharmed_of_answer
    (answers : input.answers g = some (beater, reply)) (error : reply.answer ≠ .ok)
    (mild : loses beater reply.answer = false) :
    Unharmed g.coordinator (g.step catalogue input).coordinator := by
  obtain ⟨turn, owned, beat⟩ := answers_eq_some g answers
  have step := g.coordinator.beat_step catalogue reply (.waiting owned)
  cases input with
  | poll =>
    cases turn
    simp only [GroupMember.beatOf] at beat
    split at beat
    · next stage =>
      cases beat
      simp only [GroupMember.step, GroupMember.pollTurn, stage]
      generalize g.coordinator.beat catalogue reply (.waiting owned) = result at step ⊢
      obtain ⟨c, next⟩ := result
      cases step with
      | fenced answer => rw [answer] at mild; cases mild
      | fatal answer flags epoch => exact ⟨epoch, flags.running, flags.lost, flags.invalidated⟩
      | refused answer kind => rcases kind with rfl | rfl <;> exact ⟨rfl, rfl, rfl, rfl⟩
      | ok answer | goesOn answer => exact absurd (answer ⟨owned, rfl⟩) error
    · cases beat
  | task =>
    cases turn
    simp only [GroupMember.beatOf] at beat
    split at beat
    · next task =>
      subst beat
      simp only [GroupMember.step, taskTurn, task]
      generalize g.coordinator.beat catalogue reply (.waiting owned) = result at step ⊢
      obtain ⟨c, next⟩ := result
      cases step with
      | fenced answer | fatal answer => rw [answer] at mild; cases mild
      | refused answer kind => rcases kind with rfl | rfl <;> exact ⟨rfl, rfl, rfl, rfl⟩
      | ok answer | goesOn answer => exact absurd (answer ⟨owned, rfl⟩) error
    · cases beat
  | dropPoll | setSubscription => cases turn

end Steps

namespace Watched

variable {catalogue : Catalogue} {w : Watched} {input : GroupInput}

def Timely (catalogue : Catalogue) (w : Watched) (input : GroupInput) : Prop :=
  (∀ answer ∈ input.answers w.member, loses answer.1 answer.2.answer →
      w.sentUnder answer.1 = w.membership) ∧
    ((w.step catalogue input).membership ≠ w.membership → ¬ w.member.PendingLoss)

instance : Decidable (Timely catalogue w input) := inferInstanceAs (Decidable (_ ∧ _))

def TakesLoss (g : GroupMember) : Prop :=
  g.poll = .checkingInvalidated ∧ g.coordinator.memberInvalidated ∨
    g.poll = .checkingMembership true ∨
    g.poll = .checkingMembership false ∧ g.coordinator.membershipLost = true

structure Inert (catalogue : Catalogue) (w : Watched) (input : GroupInput) : Prop where
  answer : ∀ beater reply, input.answers w.member = some (beater, reply) → reply.answer ≠ .ok →
    w.sentUnder beater ≠ w.membership →
      Unharmed w.member.coordinator (w.step catalogue input).member.coordinator
  taken : ∀ reply, input = .poll reply → TakesLoss w.member → w.lostUnder = some w.membership

def Attested (w : Watched) : Prop := w.member.PendingLoss → w.lostUnder = some w.membership

theorem Attested.step (timely : Timely catalogue w input) (attested : Attested w) :
    Attested (w.step catalogue input) := by
  intro pending
  by_cases declared : input.Declares w.member
  · obtain ⟨beater, reply, answers, loss⟩ := declared
    have refused : w.adopts reply = false := by
      unfold Watched.adopts
      cases answer : reply.answer <;> simp_all [loses]
    have current := timely.1 _ answers loss
    simp only [Watched.step, answers, Option.any_some, refused, loss, if_true, current]
    rfl
  · rcases step_flags catalogue w.member input with quiet | now
    · have before := quiet.pending pending
      have kept : (w.step catalogue input).lostUnder = w.lostUnder := by
        simp only [Watched.step]
        split
        · next beater reply answers =>
          exact if_neg fun loss => declared ⟨beater, reply, answers, loss⟩
        · rfl
      have same : (w.step catalogue input).membership = w.membership := by
        by_contra begun
        exact timely.2 begun before
      rw [kept, same]
      exact attested before
    · exact absurd now declared

theorem Attested.inert (timely : Timely catalogue w input) (attested : Attested w) :
    Inert catalogue w input where
  answer := fun beater reply answers error older => by
    refine unharmed_of_answer catalogue w.member answers error ?_
    by_contra loss
    exact older (timely.1 _ answers (by simpa using loss))
  taken := fun _ _ takes => by
    rcases takes with ⟨-, invalidated⟩ | taken | ⟨-, lost⟩
    · exact attested (.inr (.inl invalidated))
    · exact attested (.inr (.inr taken))
    · exact attested (.inl lost)

theorem inert_run (catalogue : Catalogue) {inputs : List GroupInput}
    (timely : Along (step catalogue) (Timely catalogue) {} inputs) :
    Along (step catalogue) (Inert catalogue) {} inputs :=
  timely.always Attested (fun _ _ timely attested => attested.step timely)
    (fun _ _ timely attested => attested.inert timely)
    (by rintro (h | h | h) <;> cases h)

end Watched

end Krafka.Consumer
