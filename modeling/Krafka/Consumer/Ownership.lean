import Krafka.Consumer.Assigned
import Krafka.Consumer.Group

/-! What a group member reports as owned against what it has. A list of owned partitions must
cover the partitions the consumer still fetches, or the coordinator hands one of them to
another member. -/

namespace Krafka.Consumer

open Function

variable {catalogue : Catalogue}

def Covers (catalogue : Catalogue) (owned : List TopicPartitions) (keys : PartitionKey → Prop) :
    Prop :=
  ∀ key, keys key → ∃ tp ∈ owned, catalogue.name tp.topicId = some key.1 ∧ key.2 ∈ tp.partitions

theorem Covers.mono {owned : List TopicPartitions} {keys keys' : PartitionKey → Prop}
    (covers : Covers catalogue owned keys) (fewer : ∀ key, keys' key → keys key) :
    Covers catalogue owned keys' :=
  fun key mem => covers key (fewer key mem)

/-! What the coordinator's own steps do to the epoch and the owned list -/

namespace GroupCoordinator

variable {c : GroupCoordinator}

/-- Above epoch 0 the owned list is the one it was, and so was the membership unless an answer
has just begun it. -/
def Steady (c c' : GroupCoordinator) (begins : Prop) : Prop :=
  0 < c'.memberEpoch → begins ∨ c'.ownedAssignment = c.ownedAssignment ∧ 0 < c.memberEpoch

def Beat.Begins (c : GroupCoordinator) (reply : Reply) : Beat → Prop
  | .waiting _ => reply.answer = .ok ∧ c.memberEpoch ≤ 0 ∧ 0 < reply.epoch
  | _ => False

theorem beat_steady (c : GroupCoordinator) (catalogue : Catalogue) (reply : Reply) (b : Beat) :
    Steady c (c.beat catalogue reply b).1 (Beat.Begins c reply b) ∧
      (c.beat catalogue reply b).1.tasks = c.tasks ∧
      ∀ owned, (c.beat catalogue reply b).2 ≠ .inl (.connecting owned) := by
  have same {c' : GroupCoordinator} {next : Beat ⊕ BeatEnd} {begins : Prop}
      (epoch : c'.memberEpoch = c.memberEpoch) (owned : c'.ownedAssignment = c.ownedAssignment)
      (tasks : c'.tasks = c.tasks) (later : ∀ owned, next ≠ .inl (.connecting owned)) :
      Steady c c' begins ∧ c'.tasks = c.tasks ∧ ∀ owned, next ≠ .inl (.connecting owned) :=
    ⟨fun positive => .inr ⟨owned, epoch ▸ positive⟩, tasks, later⟩
  cases b with
  | connecting =>
    refine same rfl rfl rfl fun owned' => ?_
    simp only [beat]
    split <;> simp
  | waiting owned =>
    cases answer : reply.answer with
    | ok =>
      simp only [beat, answer]
      refine ⟨fun positive => ?_, trivial, by simp⟩
      by_cases member : 0 < c.memberEpoch
      · exact .inr ⟨rfl, member⟩
      · exact .inl ⟨answer, not_lt.mp member, positive⟩
    | fenced =>
      simp only [beat, answer]
      exact ⟨fun positive => absurd positive (lt_irrefl 0), rfl, by simp⟩
    | fatal =>
      simp only [beat, answer]
      split <;> exact same rfl rfl rfl (by simp)
    | refused =>
      rw [show c.beat catalogue reply (.waiting owned) = (c, .inr .refused) by simp only [beat, answer]]
      exact same rfl rfl rfl (by simp)
    | lost =>
      rw [show c.beat catalogue reply (.waiting owned) = (c, .inr .lost) by simp only [beat, answer]]
      exact same rfl rfl rfl (by simp)
  | storing epoch assignment =>
    cases assignment with
    | none =>
      simp only [beat]
      split
      · split <;> exact same rfl rfl rfl (by simp)
      · exact same rfl rfl rfl (by simp)
    | some => exact same rfl rfl rfl (by simp [beat])
  | resolving | naming => exact same rfl rfl rfl (by simp [beat])
  | installing last unresolved =>
    simp only [beat, install]
    split <;> refine same rfl rfl rfl fun owned' => ?_ <;> split <;> simp

def Unsent (c : GroupCoordinator) (index : Nat) (owned : List TopicPartitions) : Prop :=
  ∃ sendFull commands, c.tasks index = .task sendFull commands (some (.connecting (some owned)))

def TaskBegins (c : GroupCoordinator) (reply : Reply) (index : Nat) : Prop :=
  ∃ sendFull commands b, c.tasks index = .task sendFull commands (some b) ∧ Beat.Begins c reply b

/-- The tick of a task is taken, and a full heartbeat reads the owned list. -/
def ReadsOwned (c : GroupCoordinator) (reply : Reply) (index : Nat) : Prop :=
  ∃ commands, c.tasks index = .task true commands none ∧ (0 < commands → reply.ticks)

theorem unsent_setTask {index i : Nat} {task : HeartbeatTask} {owned : List TopicPartitions}
    (unsent : (c.setTask index task).Unsent i owned) :
    (i = index ∧ ∃ sendFull commands, task = .task sendFull commands (some (.connecting (some owned)))) ∨
      c.Unsent i owned := by
  obtain ⟨sendFull, commands, at_⟩ := unsent
  by_cases here : i = index
  · subst here
    exact .inl ⟨rfl, sendFull, commands, by simpa [setTask] using at_⟩
  · exact .inr ⟨sendFull, commands, by simpa [setTask, here] using at_⟩

section Silent

variable {reads : Prop} {c' : GroupCoordinator} {index : Nat} (task : HeartbeatTask)
  (tasks : c'.tasks = update c.tasks index task)
  (silent : ∀ sendFull commands owned,
    task ≠ .task sendFull commands (some (.connecting (some owned))))
  (i : Nat) (owned : List TopicPartitions) (unsent : c'.Unsent i owned)
include tasks silent unsent

theorem unsent_of_silent : c.Unsent i owned := by
  obtain ⟨sendFull, commands, at_⟩ := unsent
  rw [tasks] at at_
  rcases unsent_setTask (c := c) ⟨sendFull, commands, at_⟩ with ⟨-, sendFull, commands, same⟩ | old
  · exact absurd same (silent _ _ _)
  · exact old

theorem quiet : c.Unsent i owned ∨ owned = c.ownedAssignment ∧ reads :=
  .inl (unsent_of_silent task tasks silent i owned unsent)

end Silent

theorem endBeat_eq (c : GroupCoordinator) (index commands : Nat) (ended : BeatEnd) :
    (c.endBeat index commands ended).memberEpoch = c.memberEpoch ∧
      (c.endBeat index commands ended).ownedAssignment = c.ownedAssignment ∧
      ∀ i owned, (c.endBeat index commands ended).Unsent i owned → c.Unsent i owned := by
  cases ended with
  | ok => exact ⟨rfl, rfl, unsent_of_silent (.task false commands none) rfl (by simp)⟩
  | refused | lost => exact ⟨rfl, rfl, unsent_of_silent (.task true commands none) rfl (by simp)⟩
  | fenced | fatal => exact ⟨rfl, rfl, unsent_of_silent .ended rfl (by simp)⟩

theorem taskTurn_steady (c : GroupCoordinator) (catalogue : Catalogue) (reply : Reply)
    (index : Nat) :
    Steady c (c.taskTurn catalogue reply index) (c.TaskBegins reply index) ∧
      ∀ i owned, (c.taskTurn catalogue reply index).Unsent i owned →
        c.Unsent i owned ∨ owned = c.ownedAssignment ∧ c.ReadsOwned reply index := by
  unfold taskTurn
  split
  · exact ⟨fun positive => .inr ⟨rfl, positive⟩, fun i owned unsent => .inl unsent⟩
  · split
    · exact ⟨fun positive => absurd positive (lt_irrefl 0), quiet .ended rfl (by simp)⟩
    · exact ⟨fun positive => absurd positive (show ¬ (0 : Int) < -1 by decide),
        quiet .left rfl (by simp)⟩
  · exact ⟨fun positive => absurd positive (lt_irrefl 0), quiet .ended rfl (by simp)⟩
  · rename_i sendFull commands b at_
    obtain ⟨steady, tasks, later⟩ := c.beat_steady catalogue reply b
    have steady' : Steady c (c.beat catalogue reply b).1 (c.TaskBegins reply index) :=
      fun positive => (steady positive).imp (fun begins => ⟨sendFull, commands, b, at_, begins⟩) id
    split
    · rename_i c' b' moved
      rw [moved] at steady' tasks later
      refine ⟨steady', fun i owned unsent => ?_⟩
      rcases unsent_setTask unsent with ⟨-, _, _, same⟩ | ⟨_, _, old⟩
      · simp only [HeartbeatTask.task.injEq, Option.some.injEq] at same
        exact absurd (congrArg Sum.inl same.2.2) (later _)
      · exact .inl ⟨_, _, tasks ▸ old⟩
    · rename_i c' ended moved
      rw [moved] at steady' tasks
      obtain ⟨epoch, owns, unsent'⟩ := c'.endBeat_eq index commands ended
      refine ⟨fun positive => ?_, fun i owned unsent => ?_⟩
      · rw [owns]
        exact steady' (epoch ▸ positive)
      · obtain ⟨_, _, old⟩ := unsent' i owned unsent
        exact .inl ⟨_, _, tasks ▸ old⟩
  · rename_i sendFull commands at_
    have steady {c' : GroupCoordinator} (epoch : c'.memberEpoch = c.memberEpoch)
        (owned : c'.ownedAssignment = c.ownedAssignment) : Steady c c' (c.TaskBegins reply index) :=
      fun positive => .inr ⟨owned, epoch ▸ positive⟩
    split_ifs with waits stopped expired left full
    · exact ⟨steady rfl rfl, quiet (.task true (commands - 1) none) rfl (by simp)⟩
    · exact ⟨steady rfl rfl, quiet .ended rfl (by simp)⟩
    · exact ⟨steady rfl rfl, quiet .ended rfl (by simp)⟩
    · exact ⟨steady rfl rfl, quiet .leaving rfl (by simp)⟩
    · subst full
      refine ⟨steady rfl rfl, fun i owned unsent => ?_⟩
      rcases unsent_setTask unsent with ⟨-, _, _, same⟩ | old
      · simp only [HeartbeatTask.task.injEq, Option.some.injEq, Beat.connecting.injEq] at same
        exact .inr ⟨same.2.2.symm, commands, at_, fun some_ => by simpa [some_] using waits⟩
      · exact .inl old
    · exact ⟨steady rfl rfl, quiet (.task sendFull commands (some (.connecting none))) rfl (by simp)⟩

theorem acknowledge_eq (c : GroupCoordinator) (target : List TopicPartitions) :
    (c.acknowledge target).memberEpoch = c.memberEpoch ∧
      (c.acknowledge target).ownedAssignment = target ∧
      ∀ i owned, (c.acknowledge target).Unsent i owned → c.Unsent i owned := by
  simp only [acknowledge]
  split
  · rename_i sendFull commands b at_
    split
    · refine ⟨rfl, rfl, fun i owned unsent => ?_⟩
      rcases unsent_setTask unsent with ⟨rfl, _, _, same⟩ | old
      · simp only [HeartbeatTask.task.injEq] at same
        exact ⟨sendFull, commands, same.2.2 ▸ at_⟩
      · exact old
    · exact ⟨rfl, rfl, fun _ _ => id⟩
  · exact ⟨rfl, rfl, fun _ _ => id⟩

end GroupCoordinator

/-! Conforming runs -/

namespace GroupMember

variable {g : GroupMember}

def Settling (g : GroupMember) : Prop :=
  match g.poll with
  | .assigning _ added | .acknowledging _ added _ => added ≠ []
  | _ => False

/-- What the owned list rests on. An acknowledgement reads a target that still holds what was
applied; no owned list is read while added partitions are not acknowledged, or still to be
sent when they are added, and no poll is dropped there; a membership begins only once the
partitions of the one before are dropped. -/
def Conforms (catalogue : Catalogue) (g : GroupMember) : GroupInput → Prop
  | .poll reply =>
    match g.poll with
    | .adding _ added => added ≠ [] → ∀ index owned, ¬ g.coordinator.Unsent index owned
    | .assigning new _ => Covers catalogue g.coordinator.targetAssignment (· ∈ new)
    | .joining _ beat =>
      GroupCoordinator.Beat.Begins g.coordinator reply beat → ∀ key, key ∉ g.state.partitions
    | _ => True
  | .dropPoll => ¬ g.Settling
  | .task index reply =>
    (g.coordinator.ReadsOwned reply index → ¬ g.Settling) ∧
      (g.coordinator.TaskBegins reply index → ∀ key, key ∉ g.state.partitions)
  | .setSubscription => True

def Planned (catalogue : Catalogue) (g : GroupMember) : Prop :=
  match g.poll with
  | .revoking new revoked added =>
    (∀ key ∈ g.state.partitions, key ∈ revoked ∨ key ∈ new) ∧ ∀ key ∈ added, key ∈ new
  | .adding new added => (∀ key ∈ g.state.partitions, key ∈ new) ∧ ∀ key ∈ added, key ∈ new
  | .assigning new _ => ∀ key ∈ g.state.partitions, key ∈ new
  | .acknowledging new _ target =>
    (∀ key ∈ g.state.partitions, key ∈ new) ∧ Covers catalogue target (· ∈ new)
  | _ => True

structure Owns (catalogue : Catalogue) (g : GroupMember) : Prop where
  settled : 0 < g.coordinator.memberEpoch → ¬ g.Settling →
    Covers catalogue g.coordinator.ownedAssignment (· ∈ g.state.partitions)
  unsent : ∀ index owned, g.coordinator.Unsent index owned → 0 < g.coordinator.memberEpoch →
    Covers catalogue owned (· ∈ g.state.partitions)
  joining : ∀ owned beat, g.poll = .joining owned beat →
    (0 < g.coordinator.memberEpoch → Covers catalogue owned (· ∈ g.state.partitions)) ∧
      ∀ list, beat = .connecting list → list = some owned
  planned : g.Planned catalogue
  sent : ∀ beat ∈ g.sent, 0 < beat.epoch → ∀ owned, beat.owned = some owned →
    Covers catalogue owned (· ∈ beat.assigned)

namespace Owns

variable {g : GroupMember}

section Steady

variable {g' : GroupMember} (owns : Owns catalogue g)
  (fewer : ∀ key, key ∈ g'.state.partitions → key ∈ g.state.partitions)
  (joining : ∀ owned beat, g'.poll = .joining owned beat →
    (0 < g.coordinator.memberEpoch → Covers catalogue owned (· ∈ g.state.partitions)) ∧
      ∀ list, beat = .connecting list → list = some owned)
  (planned : g'.Planned catalogue)
include owns fewer joining planned

theorem of_steady {begins : Prop} (steady : g.coordinator.Steady g'.coordinator begins)
    (empty : begins → ∀ key, key ∉ g.state.partitions) (settling : g.Settling → g'.Settling)
    (unsent : ∀ index owned, g'.coordinator.Unsent index owned →
      g.coordinator.Unsent index owned ∨ owned = g.coordinator.ownedAssignment ∧ ¬ g.Settling)
    (sent : ∀ beat ∈ g'.sent, 0 < beat.epoch → ∀ owned, beat.owned = some owned →
      Covers catalogue owned (· ∈ beat.assigned)) : Owns catalogue g' := by
  have steps {owned : List TopicPartitions} (positive : 0 < g'.coordinator.memberEpoch)
      (before : 0 < g.coordinator.memberEpoch → Covers catalogue owned (· ∈ g.state.partitions)) :
      Covers catalogue owned (· ∈ g'.state.partitions) := by
    rcases steady positive with begin_ | ⟨-, member⟩
    · exact fun key mem => absurd (fewer key mem) (empty begin_ key)
    · exact (before member).mono fewer
  refine ⟨fun positive free => ?_, fun index owned holds positive => ?_, fun owned beat at_ => ?_,
    planned, sent⟩
  · rcases steady positive with begin_ | ⟨same, member⟩
    · exact fun key mem => absurd (fewer key mem) (empty begin_ key)
    · rw [same]
      exact (owns.settled member fun was => free (settling was)).mono fewer
  · refine steps positive fun member => ?_
    rcases unsent index owned holds with old | ⟨rfl, free⟩
    · exact owns.unsent index owned old member
    · exact owns.settled member free
  · exact ⟨fun positive => steps positive (joining owned beat at_).1, (joining owned beat at_).2⟩

theorem of_calm (steady : g.coordinator.Steady g'.coordinator False)
    (tasks : g'.coordinator.tasks = g.coordinator.tasks) (free : ¬ g.Settling)
    (sent : g'.sent = g.sent) : Owns catalogue g' :=
  owns.of_steady fewer joining planned steady False.elim (fun was => absurd was free)
    (fun _ _ ⟨sendFull, commands, at_⟩ => .inl ⟨sendFull, commands, tasks ▸ at_⟩)
    (sent ▸ owns.sent)

end Steady

theorem steady_refl (c : GroupCoordinator) (begins : Prop) : c.Steady c begins :=
  fun positive => .inr ⟨rfl, positive⟩

variable {reply : Reply}

theorem sends_covers {beat : Beat}
    (lists : ∀ owned, beat = .connecting (some owned) → 0 < g.coordinator.memberEpoch →
      Covers catalogue owned (· ∈ g.state.partitions)) :
    ∀ sent ∈ g.sends reply beat, 0 < sent.epoch → ∀ owned, sent.owned = some owned →
      Covers catalogue owned (· ∈ sent.assigned) := by
  cases beat with
  | connecting list =>
    simp only [sends]
    split
    · rintro _ (_ | ⟨_, ⟨⟩⟩) positive owned listed
      have same : list = some owned := listed
      refine (lists owned (by rw [same]) positive).mono fun key mem => ?_
      exact SubscriptionState.mem_assignedKeys.mp mem
    · simp
  | waiting | storing | resolving | naming | installing => simp [sends]

theorem task (owns : Owns catalogue g) {index : Nat}
    (conforms : g.Conforms catalogue (.task index reply)) :
    Owns catalogue (g.step catalogue (.task index reply)) := by
  obtain ⟨steady, unsent⟩ := g.coordinator.taskTurn_steady catalogue reply index
  refine owns.of_steady (fun _ => id) owns.joining owns.planned steady conforms.2 id
    (fun i owned holds => ?_) fun beat mem => ?_
  · rcases unsent i owned holds with old | ⟨same, at_⟩
    · exact .inl old
    · exact .inr ⟨same, conforms.1 at_⟩
  · rcases List.mem_append.mp mem with old | new
    · exact owns.sent beat old
    · split at new
      · rename_i sendFull commands b at_
        exact sends_covers (fun owned connecting => owns.unsent index owned
          ⟨sendFull, commands, connecting ▸ at_⟩) beat new
      · cases new

theorem of_flags (owns : Owns catalogue g) (free : ¬ g.Settling) {c : GroupCoordinator}
    (steady : g.coordinator.Steady c False) (tasks : c.tasks = g.coordinator.tasks)
    {stage : PollStage} (elsewhere : ∀ owned beat, stage ≠ .joining owned beat)
    (planned : ({ g with coordinator := c, poll := stage } : GroupMember).Planned catalogue) :
    Owns catalogue { g with coordinator := c, poll := stage } :=
  owns.of_calm (fun _ => id) (fun owned beat at_ => absurd at_ (elsewhere owned beat)) planned
    steady tasks free rfl

theorem of_look (owns : Owns catalogue g) (free : ¬ g.Settling) {stage : PollStage}
    (elsewhere : ∀ owned beat, stage ≠ .joining owned beat)
    (planned : ({ g with poll := stage } : GroupMember).Planned catalogue) :
    Owns catalogue { g with poll := stage } :=
  owns.of_flags free (steady_refl _ _) rfl elsewhere planned

theorem join (owns : Owns catalogue g) {owned : List TopicPartitions} {beat : Beat}
    (at_ : g.poll = .joining owned beat) (conforms : g.Conforms catalogue (.poll reply)) :
    Owns catalogue (g.pollTurn catalogue reply) := by
  obtain ⟨covered, list⟩ := owns.joining owned beat at_
  obtain ⟨steady, tasks, later⟩ := g.coordinator.beat_steady catalogue reply beat
  have empty : GroupCoordinator.Beat.Begins g.coordinator reply beat →
      ∀ key, key ∉ g.state.partitions := by
    simpa [Conforms, at_] using conforms
  have free : ¬ g.Settling := by simp [Settling, at_]
  have sent : ∀ s ∈ g.sent ++ g.sends reply beat, 0 < s.epoch → ∀ owned, s.owned = some owned →
      Covers catalogue owned (· ∈ s.assigned) := by
    intro s mem
    rcases List.mem_append.mp mem with old | new
    · exact owns.sent s old
    · refine sends_covers (fun owned' connecting => ?_) s new
      obtain rfl := Option.some.inj (list _ connecting)
      exact covered
  have moved {g' : GroupMember} (tasks' : ∀ i l, g'.coordinator.Unsent i l →
        (g.coordinator.beat catalogue reply beat).1.Unsent i l)
      (epoch : g'.coordinator.memberEpoch =
        (g.coordinator.beat catalogue reply beat).1.memberEpoch)
      (owned' : g'.coordinator.ownedAssignment =
        (g.coordinator.beat catalogue reply beat).1.ownedAssignment)
      (state : g'.state = g.state) (planned : g'.Planned catalogue)
      (sends : g'.sent = g.sent ++ g.sends reply beat)
      (joining : ∀ o b, g'.poll = .joining o b →
        o = owned ∧ ∀ list, b = .connecting list → list = some owned) : Owns catalogue g' := by
    refine owns.of_steady (fun key mem => state ▸ mem) (fun o b at' => ?_) planned
      (fun positive => ?_) empty (fun was => absurd was free) (fun i l holds => ?_) (sends ▸ sent)
    · obtain ⟨rfl, same⟩ := joining o b at'
      exact ⟨covered, same⟩
    · rw [owned']
      exact steady (epoch ▸ positive)
    · obtain ⟨sendFull, commands, holds⟩ := tasks' i l holds
      exact .inl ⟨sendFull, commands, tasks ▸ holds⟩
  unfold pollTurn
  rw [at_]
  simp only
  split
  · rename_i c' beat' step
    rw [step] at moved later
    refine moved (fun _ _ => id) rfl rfl rfl trivial rfl fun o b same => ?_
    simp only [PollStage.joining.injEq] at same
    refine ⟨same.1.symm, fun list connecting => absurd ?_ (later list)⟩
    rw [← connecting, same.2]
  · rename_i c' step
    rw [step] at moved
    refine moved (fun i l => ?_) rfl rfl rfl trivial rfl (by simp)
    exact GroupCoordinator.unsent_of_silent (.task true 0 none) rfl (by simp) i l
  · rename_i c' ended _ step
    rw [step] at moved
    by_cases again : reply.retries ∧ (ended = .refused ∨ ended = .lost)
    · rw [if_pos again]
      refine moved (fun _ _ => id) rfl rfl rfl trivial rfl fun o b same => ?_
      cases same
      exact ⟨rfl, fun list connecting => (Beat.connecting.inj connecting).symm⟩
    · rw [if_neg again]
      exact moved (fun _ _ => id) rfl rfl rfl trivial rfl (by simp)

theorem poll (owns : Owns catalogue g) (conforms : g.Conforms catalogue (.poll reply)) :
    Owns catalogue (g.pollTurn catalogue reply) := by
  obtain ⟨coordinator, state, stage, sent⟩ := g
  cases stage with
  | joining => exact owns.join rfl conforms
  | idle | committing | applying =>
    simp only [pollTurn]
    repeat' split
    all_goals exact owns.of_look id (by simp) trivial
  | dropping =>
    simp only [pollTurn]
    refine owns.of_calm (fun key mem => ?_) (by simp) trivial (steady_refl _ _) rfl id rfl
    simp [SubscriptionState.clearAssignment] at mem
  | losing expired =>
    cases expired with
    | true =>
      simp only [pollTurn]
      apply owns.of_flags id
      · exact fun positive => absurd positive (lt_irrefl 0)
      · rfl
      · simp
      · trivial
    | false =>
      simp only [pollTurn]
      exact owns.of_look id (by simp) trivial
  | checkingInvalidated =>
    simp only [pollTurn]
    split
    · apply owns.of_flags id
      · exact fun positive => absurd positive (lt_irrefl 0)
      · rfl
      · simp
      · trivial
    · exact owns.of_look id (by simp) trivial
  | checkingMembership | checkingFatal | changing =>
    simp only [pollTurn]
    apply owns.of_flags id
    · exact fun positive => .inr ⟨rfl, positive⟩
    · rfl
    · split <;> simp
    · split <;> trivial
  | entering =>
    simp only [pollTurn]
    split
    · exact owns.of_look id (by simp) trivial
    · split
      · exact owns.of_look id (by simp) trivial
      · split
        · rename_i zero
          refine owns.of_calm (fun _ => id) (fun o b same => ?_) trivial (steady_refl _ _) rfl id rfl
          cases same
          exact ⟨fun positive => absurd zero positive.ne', fun _ => fun h => (Beat.connecting.inj h).symm⟩
        · exact owns.of_look id (by simp) trivial
  | readingOwned =>
    simp only [pollTurn]
    refine owns.of_calm (fun _ => id) (fun o b same => ?_) trivial (steady_refl _ _) rfl id rfl
    cases same
    exact ⟨fun positive => owns.settled positive id, fun _ => fun h => (Beat.connecting.inj h).symm⟩
  | comparing new =>
    have wanted : ∀ key ∈ (new.filter (· ∉ state.partitions)).insertionSort PartitionKey.le,
        key ∈ new := fun key mem =>
      (List.mem_filter.mp ((List.perm_insertionSort _ _).mem_iff.mp mem)).1
    simp only [pollTurn]
    split
    · rename_i nothing
      refine owns.of_look id (by simp) ⟨fun key mem => ?_, wanted⟩
      by_contra unwanted
      have listed : key ∈ state.assignedKeys.filter (· ∉ new) :=
        List.mem_filter.mpr ⟨SubscriptionState.mem_assignedKeys.mpr mem, by simpa using unwanted⟩
      rw [List.isEmpty_iff.mp nothing] at listed
      cases listed
    · refine owns.of_look id (by simp) ⟨fun key mem => ?_, wanted⟩
      by_cases kept : key ∈ new
      · exact .inr kept
      · exact .inl (List.mem_filter.mpr
          ⟨SubscriptionState.mem_assignedKeys.mpr mem, by simpa using kept⟩)
  | revoking =>
    have planned : _ ∧ _ := owns.planned
    simp only [pollTurn]
    refine owns.of_calm (fun key mem => ?_) (by simp) ⟨fun key mem => ?_, planned.2⟩
      (steady_refl _ _) rfl id rfl
    · exact (SubscriptionState.mem_removePartitions.mp mem).1
    · obtain ⟨had, kept⟩ := SubscriptionState.mem_removePartitions.mp mem
      exact (planned.1 key had).resolve_left kept
  | adding new added =>
    have planned : _ ∧ _ := owns.planned
    have alone : added ≠ [] → ∀ index owned, ¬ coordinator.Unsent index owned := conforms
    simp only [pollTurn]
    refine ⟨fun positive settled => ?_, fun index owned holds positive => ?_, by simp, fun key mem => ?_,
      owns.sent⟩
    · obtain rfl : added = [] := not_not.mp settled
      exact owns.settled positive id
    · by_cases nothing : added = []
      · subst nothing
        exact owns.unsent index owned holds positive
      · exact absurd holds (alone nothing index owned)
    · exact (SubscriptionState.mem_addPartitions.mp mem).elim (planned.1 key) (planned.2 key)
  | assigning new =>
    have holds : Covers catalogue coordinator.targetAssignment (· ∈ new) := conforms
    simp only [pollTurn]
    exact owns.of_steady (fun _ => id) (by simp) ⟨owns.planned, holds⟩ (steady_refl _ False)
      False.elim id (fun _ _ => .inl) owns.sent
  | acknowledging new added target =>
    have planned : _ ∧ _ := owns.planned
    simp only [pollTurn]
    obtain ⟨epoch, owned, unsent⟩ := coordinator.acknowledge_eq target
    refine ⟨fun positive _ => ?_, fun index list holds positive => ?_, by simp, trivial, owns.sent⟩
    · rw [owned]
      exact planned.2.mono planned.1
    · exact owns.unsent index list (unsent index list holds) (epoch ▸ positive)

theorem step (owns : Owns catalogue g) {input : GroupInput} (conforms : g.Conforms catalogue input) :
    Owns catalogue (g.step catalogue input) := by
  cases input with
  | poll => exact owns.poll conforms
  | dropPoll => exact owns.of_look conforms (by simp) trivial
  | task => exact owns.task conforms
  | setSubscription =>
    simp only [GroupMember.step, GroupCoordinator.setSubscription]
    split
    · have steady : g.coordinator.Steady
          { g.coordinator with running := false, state := .preparingRebalance } False :=
        fun positive => .inr ⟨rfl, positive⟩
      exact owns.of_steady (fun _ => id) owns.joining owns.planned steady False.elim id
        (fun _ _ => .inl) owns.sent
    · exact owns

theorem run {inputs : List GroupInput}
    (conforming : Runs.Along (GroupMember.step catalogue) (Conforms catalogue) {} inputs) :
    Owns catalogue (GroupMember.run catalogue inputs) := by
  refine conforming.invariant (Owns catalogue) (fun _ _ conforms owns => owns.step conforms) ?_
  refine ⟨fun positive => absurd positive (lt_irrefl 0), ?_, by simp, trivial, by simp⟩
  rintro index owned ⟨_, _, holds⟩
  cases holds

end Owns

end GroupMember

/-- In a conforming run, however polls and heartbeats interleave: every owned list sent above
epoch 0 covers the partitions the consumer had when it was sent. -/
theorem owned_list_covers_assigned (catalogue : Catalogue) (inputs : List GroupInput)
    (conforming : Runs.Along (GroupMember.step catalogue) (GroupMember.Conforms catalogue) {} inputs) :
    ∀ beat ∈ (GroupMember.run catalogue inputs).sent, 0 < beat.epoch →
      ∀ owned, beat.owned = some owned →
        ∀ key ∈ beat.assigned, ∃ tp ∈ owned,
          catalogue.name tp.topicId = some key.1 ∧ key.2 ∈ tp.partitions :=
  (GroupMember.Owns.run conforming).sent

/-! One member -/

def memberCatalogue : Catalogue := ⟨[("t", 1)]⟩

def assigns (epoch : Int) (partitions : List Int) : Reply :=
  { epoch, assignment := some [⟨1, partitions⟩], known := [1] }

def firstPoll : List GroupInput := List.replicate 18 (.poll (assigns 1 [0, 1]))

def fullHeartbeat : List GroupInput := List.replicate 3 (.task 1 {})

theorem firstPoll_conforms : Runs.Along (GroupMember.step memberCatalogue)
    (GroupMember.Conforms memberCatalogue) {} (firstPoll ++ fullHeartbeat) := by
  have silent : ∀ index owned, ¬ GroupCoordinator.Unsent
      (GroupMember.run memberCatalogue (firstPoll.take 15)).coordinator index owned := by
    rintro index owned ⟨sendFull, commands, holds⟩
    have tasks : (GroupMember.run memberCatalogue (firstPoll.take 15)).coordinator.tasks =
      update (fun _ => .ended) 1 (.task true 0 none) := rfl
    rw [tasks] at holds
    by_cases here : index = 1
    · simp [here] at holds
    · simp [here] at holds
  have covers : Covers memberCatalogue [⟨1, [0, 1]⟩] (· ∈ [("t", 0), ("t", 1)]) := by
    intro key mem
    refine ⟨_, List.mem_cons_self, ?_⟩
    simp only [List.mem_cons, List.not_mem_nil, or_false] at mem
    rcases mem with rfl | rfl <;> decide
  have alone : ∀ key : PartitionKey, key ∉ (∅ : AList fun _ : PartitionKey => PartitionRecord) :=
    fun key mem => by simp at mem
  refine ⟨trivial, trivial, trivial, trivial, trivial, trivial, fun _ => alone, fun _ => alone,
    fun _ => alone, fun _ => alone, fun _ => alone, fun _ => alone, trivial, trivial, trivial,
    fun _ => silent, covers, trivial,
    ⟨fun _ => id, ?_⟩, ⟨fun _ => id, ?_⟩, ⟨fun _ => id, ?_⟩, trivial⟩
  · rintro ⟨_, _, _, at_, -⟩
    cases at_
  · rintro ⟨_, _, _, at_, -⟩
    cases at_
  · rintro ⟨_, _, _, at_, begins⟩
    cases at_
    exact begins.elim

theorem first_assignment_is_covered :
    Runs.Along (GroupMember.step memberCatalogue) (GroupMember.Conforms memberCatalogue) {}
        (firstPoll ++ fullHeartbeat) ∧
    ∀ beat ∈ (GroupMember.run memberCatalogue (firstPoll ++ fullHeartbeat)).sent, 0 < beat.epoch →
      ∀ owned, beat.owned = some owned →
        ∀ key ∈ beat.assigned, ∃ tp ∈ owned,
          memberCatalogue.name tp.topicId = some key.1 ∧ key.2 ∈ tp.partitions :=
  ⟨firstPoll_conforms,
    owned_list_covers_assigned memberCatalogue (firstPoll ++ fullHeartbeat) firstPoll_conforms⟩

/-- A third partition is added; while the application is told so, a heartbeat answer takes two
partitions back. The acknowledgement reads that answer's target, and the next full heartbeat
reports one partition while the consumer still has all three. -/
theorem acknowledged_target_was_replaced :
    let grown : List GroupInput := List.replicate 5 (.task 1 (assigns 1 [0, 1, 2]))
    let applied : List GroupInput := List.replicate 9 (.poll {})
    let shrunk : List GroupInput := List.replicate 7 (.task 1 (assigns 1 [0]))
    let acknowledged : List GroupInput := List.replicate 2 (.poll {})
    (GroupMember.run memberCatalogue (firstPoll ++ fullHeartbeat ++ grown ++ applied ++ shrunk ++
        acknowledged ++ fullHeartbeat)).sent.getLast? =
      some ⟨1, some [⟨1, [0]⟩], [("t", 0), ("t", 1), ("t", 2)]⟩ := by
  decide +kernel

end Krafka.Consumer
