import Krafka.Library.Lists
import Krafka.Producer.Refinement

/-! The delivery timeout: the batches of a partition stand in the order of their deadlines, so
the expired ones are in front, and the task wakes up before the next one expires. -/

namespace Krafka.Producer

open List Function Engine

def Input.now : Input → Option Instant
  | .command now _ | .expire now | .drain now _ _ | .complete now _ _ _ => some now
  | _ => none

def Clocked (inputs : List Input) : Prop := (inputs.filterMap Input.now).Pairwise (· ≤ ·)

instance (inputs : List Input) : Decidable (Clocked inputs) :=
  inferInstanceAs (Decidable (List.Pairwise _ _))

def clock (inputs : List Input) : Instant := (inputs.filterMap Input.now).getLast?.getD 0

theorem clocked_concat {inputs : List Input} {input : Input} :
    Clocked (inputs ++ [input]) → Clocked inputs ∧ clock inputs ≤ clock (inputs ++ [input]) ∧
      ∀ now ∈ input.now, clock (inputs ++ [input]) = now := by
  unfold Clocked clock
  rw [filterMap_append, pairwise_append]
  rintro ⟨before, _, later⟩
  refine ⟨before, ?_, ?_⟩
  · cases time : input.now with
    | none => simp [time]
    | some now =>
      cases last : (inputs.filterMap Input.now).getLast? with
      | none => simp
      | some earlier =>
        simpa [time] using later earlier (mem_of_getLast? last) now (by simp [time])
  · rintro now time
    simp [Option.mem_def.mp time]

variable {now : Instant}

theorem clocked_drain {inputs : List Input} {leader : PartitionKey → Option Int}
    {delay : Nat → Duration} (clocked : Clocked (inputs ++ [.expire now])) :
    Clocked (inputs ++ [.expire now, .drain now leader delay]) := by
  unfold Clocked at clocked ⊢
  rw [filterMap_append, pairwise_append] at clocked ⊢
  obtain ⟨before, _, later⟩ := clocked
  refine ⟨before, by simp [Input.now], fun earlier member time read => ?_⟩
  have same : time = now := by simpa [Input.now] using read
  exact same ▸ later earlier member now (by simp [Input.now])

/-! ## The order of the deadlines -/

def clockAt (timeout : Duration) (now : Instant) : Policy where
  append := fun s time _ => time = now ∧ s.config.deliveryTimeout = timeout

def Ledger.deadlines (l : Ledger) (key : PartitionKey) : List Instant :=
  (l.line key).map (·.deadline)

structure Ledger.Timed (timeout : Duration) (now : Instant) (l : Ledger) : Prop where
  sorted : ∀ key, (l.deadlines key).Pairwise (· ≤ ·)
  bounded : ∀ key, ∀ deadline ∈ l.deadlines key, deadline ≤ now + timeout

namespace Ledger

variable {timeout : Duration} {now later : Instant} {l l' : Ledger}

theorem Timed.mono (timed : l.Timed timeout now) (passes : now ≤ later) : l.Timed timeout later :=
  ⟨timed.sorted, fun key deadline member =>
    (timed.bounded key deadline member).trans (Nat.add_le_add_right passes timeout)⟩

variable {key : PartitionKey}

theorem Timed.update (timed : l.Timed timeout now) {line : List Batch}
    (place : l'.line = Function.update l.line key line)
    (sorted : (line.map (·.deadline)).Pairwise (· ≤ ·))
    (bounded : ∀ deadline ∈ line.map (·.deadline), deadline ≤ now + timeout) :
    l'.Timed timeout now := by
  have deadlines (k : PartitionKey) :
      l'.deadlines k = if k = key then line.map (·.deadline) else l.deadlines k := by
    unfold Ledger.deadlines
    rw [place, update_apply]
    split_ifs <;> rfl
  constructor
  · intro k
    rw [deadlines]
    split_ifs
    · exact sorted
    · exact timed.sorted k
  · intro k
    rw [deadlines]
    split_ifs
    · exact bounded
    · exact timed.bounded k

theorem Timed.shrink (timed : l.Timed timeout now) {line : List Batch}
    (place : l'.line = Function.update l.line key line)
    (less : (line.map (·.deadline)).Sublist (l.deadlines key)) : l'.Timed timeout now :=
  timed.update place ((timed.sorted key).sublist less)
    fun deadline member => timed.bounded key deadline (less.subset member)

theorem Timed.push (timed : l.Timed timeout now) {last : Batch}
    (place : l'.line = Function.update l.line key (l.line key ++ [last]))
    (created : last.deadline = now + timeout) : l'.Timed timeout now := by
  have deadlines : (l.line key ++ [last]).map (·.deadline) = l.deadlines key ++ [now + timeout] := by
    rw [map_append, map_singleton, created]
    rfl
  refine timed.update place ?_ ?_
  · rw [deadlines, pairwise_append]
    refine ⟨timed.sorted key, pairwise_singleton .., fun deadline member _ new => ?_⟩
    rw [mem_singleton.mp new]
    exact timed.bounded key deadline member
  · rw [deadlines, forall_mem_append]
    exact ⟨timed.bounded key, forall_mem_singleton.mpr le_rfl⟩

theorem Timed.double (timed : l.Timed timeout now)
    {batch first second : Batch} {back : List Batch} (head : l.line key = batch :: back)
    (place : l'.line = Function.update l.line key (first :: second :: back))
    (left : first.deadline = batch.deadline) (right : second.deadline = batch.deadline) :
    l'.Timed timeout now := by
  have sorted := timed.sorted key
  have bounded := timed.bounded key
  unfold Ledger.deadlines at sorted bounded
  rw [head, map_cons] at sorted bounded
  refine timed.update place ?_ ?_
  · rw [map_cons, map_cons, left, right]
    refine pairwise_cons.mpr ⟨?_, sorted⟩
    rintro deadline (_ | ⟨_, member⟩)
    · exact le_rfl
    · exact rel_of_pairwise_cons sorted member
  · rw [map_cons, map_cons, left, right]
    rintro deadline (_ | ⟨_, member⟩)
    · exact bounded _ (mem_cons_self ..)
    · exact bounded deadline member

end Ledger

theorem Effect.timed {timeout : Duration} {l l' : Ledger}
    (effect : Effect (clockAt timeout now) l l') (timed : l.Timed timeout now) :
    l'.Timed timeout now := by
  have headed {key : PartitionKey} {batch : Batch} {back : List Batch}
      (head : l.line key = batch :: back) :
      l.deadlines key = batch.deadline :: back.map (·.deadline) := by
    unfold Ledger.deadlines
    rw [head, map_cons]
  cases effect with
  | silent | refuse | fail => exact ⟨timed.sorted, timed.bounded⟩
  | @accept free key record waiter size generation older last _ _ place _ _ allowed =>
    obtain ⟨s, time, append, ⟨rfl, rfl⟩, _, _, _, clock⟩ := allowed
    have joins (there : l.line key = older ++ [last]) :
        ((older ++ [last.push record size generation waiter]).map (·.deadline)).Sublist
          (l.deadlines key) := by
      unfold Ledger.deadlines
      rw [there, map_append, map_append]
      exact List.Sublist.refl _
    rcases place with there | ⟨rfl, _⟩
    · exact timed.shrink rfl (joins there)
    · rcases clock with there | rfl
      · exact timed.shrink rfl (joins there)
      · exact timed.push rfl rfl
  | take free key parts order => exact timed.shrink rfl (order.map _)
  | answer free error head | handOut free clear broker sent slot head
  | stampOut free clear broker sent slot head | retry error held head | restamp held head =>
    exact timed.shrink rfl (headed head ▸ List.Sublist.refl _)
  | endAttempt free encoded outcome head =>
    refine timed.shrink rfl (headed head ▸ ?_)
    rw [map_cons, Batch.marked_deadline]
  | acknowledge result held head | condemn held head =>
    exact timed.shrink rfl (headed head ▸ sublist_cons_self ..)
  | split held head live halves =>
    obtain ⟨rfl, rfl⟩ := Batch.split_eq halves
    exact timed.double head rfl rfl rfl

/-! ## Whole runs -/

theorem timed_step {timeout : Duration} {s : Engine} {input : Input}
    (sound : (Custody.rest s).Sound) (config : s.config.deliveryTimeout = timeout)
    (time : ∀ time ∈ input.now, now = time) (before : (Custody.rest s).ledger.Timed timeout now) :
    (Custody.rest (s.step input)).ledger.Timed timeout now := by
  have lenient : (clockAt timeout now).Lenient := by
    constructor <;> intros <;> trivial
  have allowed : (clockAt timeout now).Allows s input := by
    refine lenient.allows trivial trivial (fun _ _ => trivial) input ?_
    rintro moment append rfl
    exact ⟨(time moment rfl).symm, config⟩
  have preserved : ∀ c c', Move (clockAt timeout now) c c' →
      c.Sound ∧ c.ledger.Timed timeout now → c'.Sound ∧ c'.ledger.Timed timeout now :=
    fun _ _ move before => ⟨move.sound before.1, (move.effect before.1).timed before.2⟩
  exact (invariant_of_step _ preserved allowed ⟨sound, before⟩).2

theorem run_timed (config : EngineConfig) (inputs : List Input) (clocked : Clocked inputs) :
    (Custody.rest (run config inputs)).ledger.Timed config.deliveryTimeout (clock inputs) := by
  induction inputs using List.reverseRecOn with
  | nil => exact ⟨fun _ => List.Pairwise.nil, fun _ _ member => nomatch member⟩
  | append_singleton inputs input ih =>
    obtain ⟨before, passes, time⟩ := clocked_concat clocked
    rw [run_append]
    refine timed_step (run_sound config inputs) ?_ time ((ih before).mono passes)
    rw [run_config]

/-! ## Expiry -/

def Batch.Ahead (now : Instant) (batch : Batch) : Prop := batch.held ≠ [] → now < batch.deadline

theorem Batch.Ahead.half {batch : Batch} (ahead : batch.Ahead now)
    {records : List RecordData} {waiters : List Waiter} {bytes : Nat}
    (part : waiters.Sublist (batch.waiters.getD [])) :
    (batch.half records waiters bytes).Ahead now := by
  intro held
  refine ahead fun gone => held ?_
  have none : batch.waiters.getD [] = [] := map_eq_nil_iff.mp gone
  rw [none, sublist_nil] at part
  rw [part]
  rfl

def PartitionQueue.lapse (queue : PartitionQueue) (now : Instant) : PartitionQueue :=
  { queue.clearExpired now with
    inFlight := queue.inFlight.map fun batch =>
      if batch.waiters.isSome ∧ batch.deadline ≤ now then { batch with waiters := none }
      else batch }

namespace PartitionQueue

variable {queue : PartitionQueue}

theorem lapse_of_late {now : Instant} {batch : Batch} (slot : queue.inFlight = some batch)
    (late : batch.waiters.isSome ∧ batch.deadline ≤ now) :
    queue.lapse now =
      { queue.clearExpired now with inFlight := some { batch with waiters := none } } := by
  simp only [lapse, slot, Option.map_some, if_pos late]

theorem lapse_of_ahead {now : Instant}
    (ahead : ∀ batch ∈ queue.inFlight, ¬(batch.waiters.isSome ∧ batch.deadline ≤ now)) :
    queue.lapse now = queue.clearExpired now := by
  have slot : (queue.lapse now).inFlight = queue.inFlight := by
    cases flying : queue.inFlight with
    | none => simp only [lapse, flying, Option.map_none]
    | some batch => simp only [lapse, flying, Option.map_some, if_neg (ahead batch flying)]
  calc queue.lapse now
      = { queue.clearExpired now with inFlight := (queue.lapse now).inFlight } := rfl
    _ = { queue.clearExpired now with inFlight := queue.inFlight } := by rw [slot]
    _ = queue.clearExpired now := rfl

theorem sealed_sublist : queue.sealed.Sublist queue.batches :=
  (sublist_append_left ..).trans (sublist_append_right ..)

theorem ahead_of_mem_lapse {now : Instant} {batch : Batch}
    (sorted : (queue.batches.map (·.deadline)).Pairwise (· ≤ ·))
    (member : batch ∈ (queue.lapse now).batches) : batch.Ahead now := by
  rcases mem_append.mp member with flying | unsent
  · obtain ⟨sent, _, rfl⟩ := Option.map_eq_some_iff.mp (Option.mem_toList.mp flying)
    intro held
    split_ifs at held ⊢ with late
    · exact absurd rfl held
    · by_contra due
      refine late ⟨?_, Nat.le_of_not_lt due⟩
      by_contra gone
      rw [Option.not_isSome_iff_eq_none] at gone
      exact held (by simp [Batch.held, gone])
  · rcases mem_append.mp unsent with waits | opened
    · have sealed := sorted.sublist (sealed_sublist.map _)
      exact fun _ => Lists.lt_of_mem_dropWhile sealed batch waits
    · have kept := (Option.filter_eq_some_iff.mp (Option.mem_toList.mp opened)).2
      exact fun _ => by simpa using kept

end PartitionQueue

namespace Engine

theorem queue_expireOf (now : Instant) (acc : Engine × List (PartitionKey × Batch))
    (key : PartitionKey) :
    (expireOf now acc key).1.queue = update acc.1.queue key ((acc.1.queue key).lapse now) := by
  obtain ⟨s, taken⟩ := acc
  cases present : s.partitions.lookup key with
  | none =>
    have empty : s.queue key = {} := by simp [Engine.queue, present]
    simp only [expireOf, present]
    rw [empty, show ({} : PartitionQueue).lapse now = s.queue key from empty.symm, update_eq_self]
  | some queue =>
    have here : s.queue key = queue := queue_of_lookup present
    rw [here]
    cases slot : queue.inFlight with
    | none =>
      simp only [expireOf, present, slot]
      rw [queue_setQueue, PartitionQueue.lapse_of_ahead (by simp [slot])]
    | some batch =>
      by_cases late : batch.waiters.isSome ∧ batch.deadline ≤ now
      · simp only [expireOf, present, slot, late, and_self, if_true]
        rw [PartitionQueue.lapse_of_late slot late]
        have kept : (s.setQueue key (queue.clearExpired now)).partitions.lookup key =
            some (queue.clearExpired now) := AList.lookup_insert _
        refine (congrArg Engine.queue (modifyQueue_of_lookup kept _)).trans ?_
        rw [queue_setQueue, queue_setQueue, update_idem]
      · simp only [expireOf, present, slot, late, if_false]
        rw [queue_setQueue, PartitionQueue.lapse_of_ahead (by simpa [slot] using late)]

theorem queue_expireAll (now : Instant) {keys : List PartitionKey} (distinct : keys.Nodup)
    (acc : Engine × List (PartitionKey × Batch)) (key : PartitionKey) :
    (keys.foldl (expireOf now) acc).1.queue key =
      if key ∈ keys then (acc.1.queue key).lapse now else acc.1.queue key := by
  induction keys generalizing acc with
  | nil => rfl
  | cons first keys ih =>
    rw [nodup_cons] at distinct
    rw [foldl_cons, ih distinct.2, queue_expireOf]
    by_cases same : key = first
    · subst same
      rw [if_neg distinct.1, update_self, if_pos (mem_cons_self ..)]
    · simp only [update_of_ne same, mem_cons, same, false_or]

theorem lines_failTaken (taken : List (PartitionKey × Batch)) (s : Engine) :
    (s.failTaken taken).lines = s.lines := by
  induction taken generalizing s with
  | nil => rfl
  | cons entry taken ih =>
    exact (ih _).trans (lines_modifyQueue _ entry.1 fun _ => rfl)

theorem ahead_expire {now : Instant} {s : Engine}
    (covered : ∀ key, s.lines key ≠ [] → key ∈ s.active.keys)
    (sorted : ∀ key, ((s.lines key).map (·.deadline)).Pairwise (· ≤ ·)) (key : PartitionKey) :
    ∀ batch ∈ (s.expire now).lines key, batch.Ahead now := by
  intro batch member
  unfold expire at member
  dsimp only at member
  rw [lines_failTaken] at member
  unfold lines at member
  rw [queue_expireAll now s.active.nodup] at member
  split_ifs at member with active
  · exact PartitionQueue.ahead_of_mem_lapse (sorted key) member
  · exact absurd (covered key (ne_nil_of_mem member)) active

end Engine

/-! A drain opens no batch. -/

def closedDoor : Policy where
  append := fun _ _ _ => False

def Ledger.Ahead (now : Instant) (l : Ledger) : Prop :=
  ∀ key, ∀ batch ∈ l.line key, batch.Ahead now

section Ahead

variable {now : Instant} {l l' : Ledger}

theorem Ledger.Ahead.update (ahead : l.Ahead now) {key : PartitionKey} {line : List Batch}
    (place : l'.line = Function.update l.line key line) (kept : ∀ batch ∈ line, batch.Ahead now) :
    l'.Ahead now := by
  intro k
  rw [place, update_apply]
  split_ifs
  · exact kept
  · exact ahead k

theorem Effect.ahead (effect : Effect closedDoor l l') (ahead : l.Ahead now) : l'.Ahead now := by
  have headed {key : PartitionKey} {batch : Batch} {back : List Batch}
      (head : l.line key = batch :: back) :
      batch.Ahead now ∧ ∀ batch ∈ back, batch.Ahead now :=
    forall_mem_cons.mp (head ▸ ahead key)
  have again {key : PartitionKey} {batch new : Batch} {back : List Batch}
      (head : l.line key = batch :: back) (held : new.held = batch.held)
      (deadline : new.deadline = batch.deadline) : ∀ batch ∈ new :: back, batch.Ahead now := by
    refine forall_mem_cons.mpr ⟨?_, (headed head).2⟩
    unfold Batch.Ahead
    rw [held, deadline]
    exact (headed head).1
  cases effect with
  | silent | refuse | fail => exact ahead
  | accept free key record waiter size generation record_tag waiter_tag place fresh behind
      allowed =>
    obtain ⟨_, _, _, never, _⟩ := allowed
    exact never.elim
  | take free key parts order =>
    exact ahead.update rfl fun batch member => ahead key batch (order.subset member)
  | answer free error head =>
    exact ahead.update rfl
      (forall_mem_cons.mpr ⟨fun held => absurd rfl held, (headed head).2⟩)
  | handOut free clear broker sent slot head | stampOut free clear broker sent slot head
  | retry error held head | restamp held head => exact ahead.update rfl (again head rfl rfl)
  | endAttempt free encoded outcome head =>
    refine ahead.update rfl (again head ?_ (Batch.marked_deadline ..))
    rw [Batch.held, Batch.marked_waiters]
    rfl
  | acknowledge result held head | condemn held head => exact ahead.update rfl (headed head).2
  | split held head live halves =>
    obtain ⟨rfl, rfl⟩ := Batch.split_eq halves
    have whole := (headed head).1
    refine ahead.update rfl (forall_mem_cons.mpr ⟨?_, forall_mem_cons.mpr ⟨?_, (headed head).2⟩⟩)
    · exact whole.half (take_sublist ..)
    · exact whole.half (drop_sublist ..)

end Ahead

theorem ahead_drain {s : Engine} (leader : PartitionKey → Option Int)
    (delay : Nat → Duration) (sound : (Custody.rest s).Sound)
    (ahead : ∀ key, ∀ batch ∈ s.lines key, batch.Ahead now) (key : PartitionKey) :
    ∀ batch ∈ (s.drain now leader delay).lines key, batch.Ahead now := by
  have preserved : ∀ c c', Move closedDoor c c' →
      c.Sound ∧ c.ledger.Ahead now → c'.Sound ∧ c'.ledger.Ahead now :=
    fun _ _ move before => ⟨move.sound before.1, (move.effect before.1).ahead before.2⟩
  have allowed : closedDoor.Allows s (.drain now leader delay) := trivial
  exact (invariant_of_step _ preserved allowed ⟨sound, ahead⟩).2 key

/-! ## The wake-up -/

namespace Engine

theorem nextWake_le {s : Engine} {now wake : Instant} {key : PartitionKey}
    {queue : PartitionQueue} (present : s.partitions.lookup key = some queue)
    (active : key ∈ s.active.keys) (asked : wake ∈ queue.wakes s.config.linger now) :
    s.nextWake now ≤ max wake now := by
  refine max_le_max (Lists.foldl_min_le _ _ _ (mem_cons_of_mem _ ?_)) le_rfl
  refine mem_append_left _ (mem_flatMap.mpr ⟨key, active, ?_⟩)
  rw [present]
  exact asked

end Engine

namespace PartitionQueue

variable {queue : PartitionQueue} {linger : Duration} {now : Instant} {batch : Batch}

theorem wake_of_open (opened : queue.openBatch = some batch) :
    batch.deadline ∈ queue.wakes linger now := by
  simp [wakes, opened]

theorem wake_of_sealed {rest : List Batch} (waits : queue.sealed = batch :: rest) :
    batch.deadline ∈ queue.wakes linger now := by
  simp [wakes, waits]

theorem wake_of_inFlight (slot : queue.inFlight = some batch) (live : batch.waiters.isSome) :
    batch.deadline ∈ queue.wakes linger now := by
  simp [wakes, slot, live]

theorem exists_wake (sorted : (queue.batches.map (·.deadline)).Pairwise (· ≤ ·))
    (member : batch ∈ queue.batches) (held : batch.held ≠ []) (linger : Duration) (now : Instant) :
    ∃ wake ∈ queue.wakes linger now, wake ≤ batch.deadline := by
  rcases mem_append.mp member with flying | unsent
  · have live : batch.waiters.isSome := by
      by_contra gone
      rw [Option.not_isSome_iff_eq_none] at gone
      exact held (by simp [Batch.held, gone])
    exact ⟨_, wake_of_inFlight (Option.mem_toList.mp flying) live, le_rfl⟩
  · rcases mem_append.mp unsent with waits | opened
    · obtain ⟨front, rest, sealed⟩ := exists_cons_of_ne_nil (ne_nil_of_mem waits)
      refine ⟨_, wake_of_sealed sealed, ?_⟩
      -- only the front is looked at: it expires first
      have order := sorted.sublist (sealed_sublist.map _)
      rw [sealed] at waits
      rw [sealed, map_cons] at order
      rcases mem_cons.mp waits with rfl | behind
      · exact le_rfl
      · exact rel_of_pairwise_cons order (mem_map_of_mem behind)
    · exact ⟨_, wake_of_open (Option.mem_toList.mp opened), le_rfl⟩

end PartitionQueue

namespace Engine

theorem nextWake_le_deadline {s : Engine} {now : Instant} {key : PartitionKey} {batch : Batch}
    (covered : ∀ key, s.lines key ≠ [] → key ∈ s.active.keys)
    (sorted : ((s.lines key).map (·.deadline)).Pairwise (· ≤ ·)) (member : batch ∈ s.lines key)
    (ahead : batch.Ahead now) (held : batch.held ≠ []) : s.nextWake now ≤ batch.deadline := by
  cases present : s.partitions.lookup key with
  | none =>
    simp [lines, Engine.queue, present, PartitionQueue.batches, PartitionQueue.unsent] at member
  | some =>
    have active := covered key (ne_nil_of_mem member)
    rw [s.lines_of_lookup key present] at member sorted
    obtain ⟨wake, asked, early⟩ := PartitionQueue.exists_wake sorted member held s.config.linger now
    exact (nextWake_le present active asked).trans (max_le early (ahead held).le)

end Engine

/-- Under a clock that never goes back, the sealed batches of a partition are in the order of their
deadlines, after `expire` nobody waits for a batch that is due, and the task wakes up by the
deadline of every batch somebody waits for, also when it drained in between. -/
theorem delivery_timeout_is_kept (config : EngineConfig) (inputs : List Input) (now : Instant)
    (leader : PartitionKey → Option Int) (delay : Nat → Duration)
    (clocked : Clocked (inputs ++ [.expire now])) :
    (∀ key, (((run config inputs).queue key).sealed.map (·.deadline)).Pairwise (· ≤ ·)) ∧
      (∀ key, ∀ batch ∈ (run config (inputs ++ [.expire now])).lines key, batch.held ≠ [] →
        now < batch.deadline ∧
          (run config (inputs ++ [.expire now])).nextWake now ≤ batch.deadline) ∧
      ∀ key, ∀ batch ∈ (run config (inputs ++ [.expire now, .drain now leader delay])).lines key,
        batch.held ≠ [] → now < batch.deadline ∧
          (run config (inputs ++ [.expire now, .drain now leader delay])).nextWake now ≤
            batch.deadline := by
  have before := run_timed config inputs (clocked_concat clocked).1
  have expired := run_timed config _ clocked
  have drained := run_timed config (inputs ++ [.expire now, .drain now leader delay])
    (clocked_drain clocked)
  have ahead : ∀ key, ∀ batch ∈ (run config (inputs ++ [.expire now])).lines key,
      batch.Ahead now := by
    rw [run_append]
    exact ahead_expire (run_sound config inputs).covered before.sorted
  have still : ∀ key, ∀ batch ∈
      (run config (inputs ++ [.expire now, .drain now leader delay])).lines key,
      batch.Ahead now := by
    rw [show inputs ++ [Input.expire now, .drain now leader delay] =
      (inputs ++ [.expire now]) ++ [.drain now leader delay] by simp, run_append]
    exact ahead_drain leader delay (run_sound config _) ahead
  refine ⟨fun key => ?_, fun key batch member held => ?_, fun key batch member held => ?_⟩
  · exact (before.sorted key).sublist (PartitionQueue.sealed_sublist.map _)
  · exact ⟨ahead key batch member held, nextWake_le_deadline (run_sound config _).covered
      (expired.sorted key) member (ahead key batch member) held⟩
  · exact ⟨still key batch member held, nextWake_le_deadline (run_sound config _).covered
      (drained.sorted key) member (still key batch member) held⟩

def sampleTimeout : List Input :=
  [sampleAppend, sampleDrain,
    .command 50 (.append { topic := "t", partition := 1, data := {}, size := 1, generation := 0 })]

theorem sample_timeout_is_kept : Clocked (sampleTimeout ++ [.expire 100]) ∧
    ((run (sampleConfig .plain) (sampleTimeout ++ [.expire 100])).lines sampleKey).map (·.held) =
      [[]] ∧
    ((run (sampleConfig .plain) (sampleTimeout ++ [.expire 100])).lines ("t", 1)).map (·.held) =
      [[1]] ∧
    ∀ key, ∀ batch ∈ (run (sampleConfig .plain) (sampleTimeout ++ [.expire 100])).lines key,
      batch.held ≠ [] → 100 < batch.deadline :=
  ⟨by decide, by decide +kernel, by decide +kernel, fun key batch member held =>
    ((delivery_timeout_is_kept (sampleConfig .plain) sampleTimeout 100 (fun _ => none)
      (fun _ => 0) (by decide)).2.1 key batch member held).1⟩

end Krafka.Producer
