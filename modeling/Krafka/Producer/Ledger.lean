import Krafka.Producer.StepMoves
import Mathlib.Data.List.Perm.Basic

/-! The ledger: what the engine holds for each partition, in order, and what it has told
the world. Queues, slots and maps are gone; a move of the engine is one entry here. -/

namespace Krafka.Producer

def PartitionQueue.batches (queue : PartitionQueue) : List Batch :=
  queue.inFlight.toList ++ queue.unsent

structure Batch.Fresh (batch : Batch) : Prop where
  stamp : batch.stamp = none
  waiters : batch.waiters.isSome = true
  flag : batch.maybeAppended = false

def stampsOf (batches : List Batch) : Nat := (batches.map Batch.stampCount).sum

structure Ledger where
  line : PartitionKey → List Batch
  /-- Whether the head of the line is on the wire. -/
  flight : PartitionKey → Bool
  hand : Option (PartitionKey × BatchOutcome)
  doomed : List (PartitionKey × Batch)
  trace : List Event
  arrivals : Nat
  unresolved : Nat
  stamps : Nat

namespace Engine

def lines (s : Engine) (key : PartitionKey) : List Batch := (s.queue key).batches

def flight (s : Engine) (key : PartitionKey) : Bool := (s.queue key).inFlight.isSome

def stampTotal (s : Engine) : Nat := s.partitions.total fun _ queue => stampsOf queue.batches

def OpenFresh (s : Engine) : Prop :=
  ∀ key batch, (s.queue key).openBatch = some batch → batch.Fresh

end Engine

namespace Custody

def line (c : Custody) : PartitionKey → List Batch :=
  match c.inHand with
  | none => c.engine.lines
  | some (key, batch, _) => Function.update c.engine.lines key (batch :: c.engine.lines key)

def ledger (c : Custody) : Ledger where
  line := c.line
  flight := c.engine.flight
  hand := c.inHand.map fun held => (held.1, held.2.2)
  doomed := c.doomed
  trace := c.engine.trace
  arrivals := c.engine.arrivals
  unresolved := c.engine.stampedUnresolved
  stamps := c.engine.stampTotal + (c.inHand.map (·.2.1.stampCount)).getD 0

structure Sound (c : Custody) : Prop where
  covered : ∀ key, c.line key ≠ [] → key ∈ c.engine.active.keys
  fresh : c.engine.OpenFresh
  slot : ∀ held, c.inHand = some held → (c.engine.queue held.1).inFlight = none

end Custody

def Event.Silent : Event → Prop
  | .identified _ | .gateSet _ => True
  | _ => False

open Function in
inductive Effect (p : Policy) : Ledger → Ledger → Prop
  | silent {l : Ledger} (free : l.hand = none) (events : List Event)
      (silent : ∀ event ∈ events, event.Silent) :
      Effect p l { l with trace := l.trace ++ events }
  | refuse {l : Ledger} (free : l.hand = none) (key : PartitionKey) (record : RecordData)
      (waiter : Waiter) (error : KrafkaError) (record_tag : record.tag = l.arrivals)
      (waiter_tag : waiter.tag = l.arrivals) :
      Effect p l { l with
        arrivals := l.arrivals + 1
        trace := l.trace ++ [Event.arrived key record, .answered key record waiter (.error error)] }
  | accept {l : Ledger} (free : l.hand = none) (key : PartitionKey) (record : RecordData)
      (waiter : Waiter) (size generation : Nat) {older : List Batch} {last : Batch}
      (record_tag : record.tag = l.arrivals) (waiter_tag : waiter.tag = l.arrivals)
      (place : l.line key = older ++ [last] ∨
        l.line key = older ∧ ∃ now deadline, last = Batch.new now deadline)
      (fresh : last.Fresh) (behind : l.flight key → older ≠ [])
      (allowed : ∃ s now append, p.append s now append ∧ append.key = key ∧
        record = { append.data with tag := l.arrivals } ∧ size = append.size ∧
        (l.line key = older ++ [last] ∨
          last = Batch.new now (now + s.config.deliveryTimeout))) :
      Effect p l { l with
        line := update l.line key (older ++ [last.push record size generation waiter])
        arrivals := l.arrivals + 1
        trace := l.trace ++ [Event.arrived key record, .appended key record] }
  | take {l : Ledger} (free : l.hand = none) (key : PartitionKey) {kept removed : List Batch}
      {stamps : Nat} (parts : (l.line key).Perm (removed ++ kept))
      (order : kept.Sublist (l.line key)) (count : stamps + stampsOf removed = l.stamps)
      (stays : l.flight key → ∃ batch back rest,
        l.line key = batch :: back ∧ kept = batch :: rest) :
      Effect p l { l with
        line := update l.line key kept
        doomed := l.doomed ++ removed.map (key, ·)
        stamps }
  | fail {l : Ledger} (free : l.hand = none) {key : PartitionKey} {batch : Batch}
      {doomed : List (PartitionKey × Batch)} (error : KrafkaError)
      (first : l.doomed = (key, batch) :: doomed)
      (honest : p.error error ∨ batch.HonestError error) :
      Effect p l { l with
        doomed
        unresolved := l.unresolved - batch.stampCount
        trace := l.trace ++
          .failed key batch.records :: answers key batch fun _ _ => .error error }
  | answer {l : Ledger} (free : l.hand = none) {key : PartitionKey} {batch : Batch}
      {back : List Batch} (error : KrafkaError) (head : l.line key = batch :: back)
      (flying : l.flight key) (credible : p.Credible error) :
      Effect p l { l with
        line := update l.line key ({ batch with waiters := none } :: back)
        trace := l.trace ++ answers key batch fun _ _ => .error error }
  | handOut {l : Ledger} (free : l.hand = none) (clear : l.doomed = []) {batch : Batch}
      {back : List Batch}
      (broker : Int) (sent : WireBatch) (slot : l.flight sent.key = false)
      (head : l.line sent.key = batch :: back)
      (records : sent.records = batch.records) (stamp : sent.stamp = batch.stamp) :
      Effect p l { l with
        line := update l.line sent.key ({ batch with attempts := batch.attempts + 1 } :: back)
        flight := update l.flight sent.key true
        trace := l.trace ++ [Event.handed broker sent] }
  | stampOut {l : Ledger} (free : l.hand = none) (clear : l.doomed = []) {batch : Batch}
      {back : List Batch}
      (broker : Int) (sent : WireBatch) {stamp : BatchIdentity} (slot : l.flight sent.key = false)
      (head : l.line sent.key = batch :: back) (records : sent.records = batch.records)
      (fresh : batch.stamp = none) (carries : sent.stamp = some stamp) :
      Effect p l { l with
        line := update l.line sent.key
          ({ batch with stamp := some stamp, encoded := none, attempts := batch.attempts + 1 } ::
            back)
        flight := update l.flight sent.key true
        unresolved := l.unresolved + 1
        stamps := l.stamps + 1
        trace := l.trace ++ [Event.stamped sent.key stamp batch.records, .handed broker sent] }
  | endAttempt {l : Ledger} (free : l.hand = none) {key : PartitionKey} {batch : Batch}
      {back : List Batch} (encoded : Option Bytes) (outcome : BatchOutcome)
      (head : l.line key = batch :: back) (flying : l.flight key) :
      Effect p l { l with
        line := update l.line key ({ batch with encoded }.marked outcome :: back)
        flight := update l.flight key false
        hand := some (key, outcome)
        trace := l.trace ++ [Event.ended key batch.records batch.stamp outcome] }
  | acknowledge {l : Ledger} {key : PartitionKey} {batch : Batch} {back : List Batch}
      {outcome : BatchOutcome} {stamps : Nat} (result : Nat → RecordData → RecordMetadata)
      (held : l.hand = some (key, outcome)) (head : l.line key = batch :: back)
      (count : stamps + batch.stampCount = l.stamps) :
      Effect p l { l with
        line := update l.line key back
        hand := none
        unresolved := l.unresolved - batch.stampCount
        stamps
        trace := l.trace ++
          .acknowledged key batch.records :: answers key batch fun index data =>
            .ok (result index data) }
  | condemn {l : Ledger} {key : PartitionKey} {batch : Batch} {back : List Batch}
      {outcome : BatchOutcome} {stamps : Nat} (held : l.hand = some (key, outcome))
      (head : l.line key = batch :: back) (unsettled : ¬outcome.Settles)
      (count : stamps + batch.stampCount = l.stamps) :
      Effect p l { l with
        line := update l.line key back
        hand := none
        doomed := l.doomed ++ [(key, batch)]
        stamps }
  | retry {l : Ledger} {key : PartitionKey} {batch : Batch} {back : List Batch}
      {outcome : BatchOutcome} (error : KrafkaError) (held : l.hand = some (key, outcome))
      (head : l.line key = batch :: back) (unsettled : ¬outcome.Settles) :
      Effect p l { l with
        line := update l.line key ({ batch with lastError := some error } :: back)
        hand := none }
  | restamp {l : Ledger} {key : PartitionKey} {batch : Batch} {back : List Batch}
      {outcome : BatchOutcome} {stamps : Nat} (held : l.hand = some (key, outcome))
      (head : l.line key = batch :: back) (unsettled : ¬outcome.Settles)
      (allowed : ∃ s, p.restamp s key batch outcome)
      (count : stamps + batch.stampCount = l.stamps) :
      Effect p l { l with
        line := update l.line key (batch.unstamp :: back)
        hand := none
        unresolved := l.unresolved - batch.stampCount
        stamps
        trace := l.trace ++
          batch.stamp.toList.map fun stamp => .retracted key stamp batch.records }
  | split {l : Ledger} {key : PartitionKey} {batch first second : Batch} {back : List Batch}
      {outcome : BatchOutcome} {stamps : Nat} (held : l.hand = some (key, outcome))
      (head : l.line key = batch :: back) (live : batch.waiters.isSome)
      (halves : batch.unstamp.split = some (first, second)) (unsettled : ¬outcome.Settles)
      (allowed : ∃ s, p.split s key batch outcome)
      (count : stamps + batch.stampCount = l.stamps) :
      Effect p l { l with
        line := update l.line key (first :: second :: back)
        hand := none
        unresolved := l.unresolved - batch.stampCount
        stamps
        trace := l.trace ++
          batch.stamp.toList.map fun stamp => .retracted key stamp batch.records }

theorem mem_answers {key : PartitionKey} {batch : Batch}
    {result : Nat → RecordData → Result RecordMetadata} {event : Event}
    (h : event ∈ answers key batch result) :
    ∃ record waiter value, event = .answered key record waiter value := by
  obtain ⟨⟨⟨waiter, data⟩, index⟩, _, rfl⟩ := List.mem_map.mp h
  exact ⟨data, waiter, _, rfl⟩

theorem forall_answers {P : Event → Prop}
    (each : ∀ key record waiter value, P (.answered key record waiter value)) {key : PartitionKey}
    {batch : Batch} {result : Nat → RecordData → Result RecordMetadata} :
    ∀ event ∈ answers key batch result, P event := by
  intro event told
  obtain ⟨record, waiter, value, rfl⟩ := mem_answers told
  exact each ..

/-! Batches of a queue under its own updates -/

namespace PartitionQueue

variable (queue : PartitionQueue)

@[simp] theorem batches_sealOpen : queue.sealOpen.batches = queue.batches := by
  simp [batches, unsent, sealOpen]

theorem batches_clearUnsent : queue.clearUnsent.batches = queue.inFlight.toList := by
  simp [batches, unsent, clearUnsent]

theorem batches_pushFront (batch : Batch) (free : queue.inFlight = none) :
    (queue.pushFront batch).batches = batch :: queue.batches := by
  simp [batches, unsent, pushFront, free]

theorem isIdle_iff : queue.isIdle = true ↔ queue.batches = [] := by
  simp [isIdle, batches, unsent, and_comm, and_assoc]

variable {queue}

variable {left : PartitionQueue} {batch : Batch}

theorem unsent_of_popHead
    (head : queue.popHead = some (batch, left)) :
    queue.unsent = batch :: left.unsent ∧ left.inFlight = queue.inFlight := by
  unfold popHead at head
  cases sealed : queue.sealed with
  | cons =>
    simp only [sealed, Option.some.injEq, Prod.mk.injEq] at head
    obtain ⟨rfl, rfl⟩ := head
    simp [unsent, sealed]
  | nil =>
    simp only [sealed, Option.map_eq_some_iff, Prod.mk.injEq] at head
    obtain ⟨_, opened, rfl, rfl⟩ := head
    simp [unsent, sealed, opened]

theorem batches_of_popHead
    (free : queue.inFlight = none) (head : queue.popHead = some (batch, left)) :
    queue.batches = batch :: left.batches ∧ left.inFlight = none := by
  obtain ⟨unsent, slot⟩ := unsent_of_popHead head
  simp [batches, unsent, slot, free]

theorem batches_putBack
    (head : queue.popHead = some (batch, left)) :
    (left.pushFront batch).batches = queue.batches := by
  obtain ⟨whole, slot⟩ := unsent_of_popHead head
  simp only [batches, whole, pushFront, slot]
  rfl

theorem expired_perm (now : Instant) :
    queue.batches.Perm (queue.expired now ++ (queue.clearExpired now).batches) := by
  have cut : queue.sealed = queue.sealed.takeWhile (·.deadline ≤ now) ++
      queue.sealed.dropWhile (·.deadline ≤ now) := List.takeWhile_append_dropWhile.symm
  have opened : queue.openBatch.toList = (queue.openBatch.filter (·.deadline ≤ now)).toList ++
      (queue.openBatch.filter (now < ·.deadline)).toList := by
    cases queue.openBatch with
    | none => rfl
    | some batch =>
      by_cases late : batch.deadline ≤ now
      · simp [late, Option.filter, Nat.not_lt.mpr late]
      · simp [late, Option.filter, Nat.lt_of_not_le late]
  refine List.perm_iff_count.mpr fun batch => ?_
  have cut_count := congrArg (List.count batch) cut
  have opened_count := congrArg (List.count batch) opened
  simp only [batches, unsent, expired, clearExpired, List.count_append] at cut_count opened_count ⊢
  omega

theorem clearExpired_sublist (now : Instant) :
    (queue.clearExpired now).batches.Sublist queue.batches := by
  refine List.Sublist.append (List.Sublist.refl _) (List.Sublist.append ?_ ?_)
  · exact List.dropWhile_sublist _
  · simp only [clearExpired]
    cases queue.openBatch with
    | none => exact List.Sublist.refl _
    | some batch => by_cases late : now < batch.deadline <;> simp [late, Option.filter]

theorem accept_spec {now deadline : Instant} {batchSize : Nat} {sealNow : Bool}
    {record : RecordData} {size generation : Nat} {waiter : Waiter} {after : PartitionQueue}
    (accepted : queue.accept now deadline batchSize sealNow record size generation waiter = after) :
    after.inFlight = queue.inFlight ∧ after.seq = queue.seq ∧ ∃ older last,
      (queue.batches = older ++ [last] ∧ queue.openBatch = some last ∨
        queue.batches = older ∧ last = Batch.new now deadline) ∧
      after.batches = older ++ [last.push record size generation waiter] ∧
      (∀ batch, after.openBatch = some batch → batch = last.push record size generation waiter) ∧
      (queue.inFlight.isSome → older ≠ []) := by
  subst accepted
  have frame : (queue.accept now deadline batchSize sealNow record size generation waiter).inFlight =
      queue.inFlight ∧
      (queue.accept now deadline batchSize sealNow record size generation waiter).seq =
        queue.seq := by
    unfold accept
    dsimp only
    split_ifs <;> exact ⟨rfl, rfl⟩
  refine ⟨frame.1, frame.2, ?_⟩
  obtain ⟨sealed, sealed_eq⟩ : ∃ sealed,
      sealed = if queue.openBatch.any (!·.fits size batchSize) then queue.sealOpen else queue :=
    ⟨_, rfl⟩
  have same : queue.batches = sealed.batches := by
    rw [sealed_eq]
    split_ifs <;> simp
  have opened : ∀ batch, sealed.openBatch = some batch → queue.openBatch = some batch := by
    intro batch h
    rw [sealed_eq] at h
    split_ifs at h
    · simp [sealOpen] at h
    · exact h
  obtain ⟨last, last_eq⟩ : ∃ last, last = sealed.openBatch.getD (Batch.new now deadline) :=
    ⟨_, rfl⟩
  have slot : sealed.inFlight = queue.inFlight := by
    rw [sealed_eq]
    split_ifs <;> rfl
  refine ⟨sealed.inFlight.toList ++ sealed.sealed, last, ?_, ?_, ?_, ?_⟩
  · cases current : sealed.openBatch with
    | none =>
      rw [same]
      exact .inr (by simp [batches, unsent, last_eq, current])
    | some batch =>
      rw [same]
      exact .inl (by simp [batches, unsent, last_eq, current, opened batch current])
  · unfold accept
    simp only [← sealed_eq, ← last_eq]
    split_ifs <;> simp [batches, unsent, sealOpen]
  · intro batch
    unfold accept
    simp only [← sealed_eq, ← last_eq]
    split_ifs
    · simp [sealOpen]
    · simp [eq_comm]
  · intro flying
    obtain ⟨batch, flying⟩ := Option.isSome_iff_exists.mp flying
    simp [slot, flying]

end PartitionQueue

/-! Queues and lines under the engine's updates -/

namespace Engine

variable (s : Engine) (key : PartitionKey)

theorem queue_setQueue (queue : PartitionQueue) :
    (s.setQueue key queue).queue = Function.update s.queue key queue := by
  funext k
  by_cases same : k = key
  · subst same
    simp [Engine.queue, setQueue]
  · simp [Engine.queue, setQueue, same]

theorem lines_setQueue (queue : PartitionQueue) :
    (s.setQueue key queue).lines = Function.update s.lines key queue.batches := by
  funext k
  simp only [lines, queue_setQueue, Function.update_apply]
  split_ifs <;> rfl

theorem flight_setQueue (queue : PartitionQueue) :
    (s.setQueue key queue).flight = Function.update s.flight key queue.inFlight.isSome := by
  funext k
  simp only [flight, queue_setQueue, Function.update_apply]
  split_ifs <;> rfl

variable {queue : PartitionQueue}

theorem flight_of_lookup (present : s.partitions.lookup key = some queue) :
    s.flight key = queue.inFlight.isSome := by
  simp [flight, Engine.queue, present]

theorem flight_keep {queue' : PartitionQueue} (present : s.partitions.lookup key = some queue)
    (same : queue'.inFlight.isSome = queue.inFlight.isSome) :
    (s.setQueue key queue').flight = s.flight := by
  rw [flight_setQueue, same, ← s.flight_of_lookup key present, Function.update_eq_self]

theorem lines_of_lookup (present : s.partitions.lookup key = some queue) :
    s.lines key = queue.batches := by
  simp [lines, Engine.queue, present]

theorem stampTotal_setQueue (queue : PartitionQueue) :
    (s.setQueue key queue).stampTotal + stampsOf (s.lines key) =
      s.stampTotal + stampsOf queue.batches := by
  have moved := s.partitions.total_insert (fun _ queue => stampsOf queue.batches) key queue
  have weight : s.partitions.weight (fun _ queue => stampsOf queue.batches) key =
      stampsOf (s.lines key) := by
    unfold AList.weight lines Engine.queue
    cases s.partitions.lookup key <;> rfl
  rw [weight] at moved
  exact moved

theorem stampTotal_replace {old new : Batch} {back : List Batch} {n : Nat}
    (before : s.lines key = old :: back) (after : queue.batches = new :: back)
    (count : new.stampCount = old.stampCount + n) :
    (s.setQueue key queue).stampTotal = s.stampTotal + n := by
  have moved := s.stampTotal_setQueue key queue
  rw [before, after] at moved
  simp only [stampsOf, List.map_cons, List.sum_cons] at moved
  omega

theorem stampTotal_push {front : List Batch} (after : queue.batches = front ++ s.lines key) :
    (s.setQueue key queue).stampTotal = s.stampTotal + stampsOf front := by
  have moved := s.stampTotal_setQueue key queue
  rw [after] at moved
  simp only [stampsOf, List.map_append, List.sum_append] at moved ⊢
  omega

variable {f : PartitionQueue → PartitionQueue}

theorem lines_modifyQueue
    (keeps : ∀ queue, (f queue).batches = queue.batches) :
    (s.modifyQueue key f).lines = s.lines := by
  cases present : s.partitions.lookup key with
  | none => simp only [modifyQueue, present]
  | some =>
    rw [modifyQueue_of_lookup present, lines_setQueue, keeps, ← s.lines_of_lookup key present,
      Function.update_eq_self]

theorem flight_modifyQueue
    (keeps : ∀ queue, (f queue).inFlight = queue.inFlight) :
    (s.modifyQueue key f).flight = s.flight := by
  cases present : s.partitions.lookup key with
  | none => simp only [modifyQueue, present]
  | some queue =>
    rw [modifyQueue_of_lookup present]
    exact s.flight_keep key present (congrArg _ (keeps queue))

theorem stampTotal_modifyQueue
    (keeps : ∀ queue, (f queue).batches = queue.batches) :
    (s.modifyQueue key f).stampTotal = s.stampTotal := by
  cases present : s.partitions.lookup key with
  | none => simp only [modifyQueue, present]
  | some queue =>
    have moved := s.stampTotal_setQueue key (f queue)
    rw [keeps, ← s.lines_of_lookup key present] at moved
    rw [modifyQueue_of_lookup present]
    exact Nat.add_right_cancel moved

end Engine

end Krafka.Producer
