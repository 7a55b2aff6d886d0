import Krafka.Producer.Ledger

/-! Each move of the engine is one entry of the ledger. -/

namespace Krafka.Producer

open Engine Function PartitionQueue
open Custody (ledger)

variable {p : Policy}

/-! Reading a ledger off a custody -/

theorem ledger_rest (s : Engine) (wire : List WireBatch) (doomed : List (PartitionKey × Batch)) :
    (ledger ⟨s, wire, none, doomed⟩) =
      ⟨s.lines, s.flight, none, doomed, s.trace, s.arrivals, s.stampedUnresolved, s.stampTotal⟩ := rfl

@[simp] theorem stampsOf_nil : stampsOf [] = 0 := rfl

@[simp] theorem stampsOf_cons (batch : Batch) (batches : List Batch) :
    stampsOf (batch :: batches) = batch.stampCount + stampsOf batches := by
  simp [stampsOf]

@[simp] theorem stampsOf_append (front back : List Batch) :
    stampsOf (front ++ back) = stampsOf front + stampsOf back := by
  simp [stampsOf]

theorem stampsOf_perm {batches batches' : List Batch} (perm : batches.Perm batches') :
    stampsOf batches = stampsOf batches' := (perm.map _).sum_eq

variable {l : Ledger}

theorem Effect.cast {l₁ l₂ : Ledger} (effect : Effect p l l₁) (line : l₂.line = l₁.line)
    (flight : l₂.flight = l₁.flight) (stamps : l₂.stamps = l₁.stamps) (hand : l₂.hand = l₁.hand) (doomed : l₂.doomed = l₁.doomed)
    (trace : l₂.trace = l₁.trace) (arrivals : l₂.arrivals = l₁.arrivals)
    (unresolved : l₂.unresolved = l₁.unresolved) : Effect p l l₂ := by
  obtain ⟨⟩ := l₁
  obtain ⟨⟩ := l₂
  cases line
  cases flight
  cases stamps
  cases hand
  cases doomed
  cases trace
  cases arrivals
  cases unresolved
  exact effect

/-! Engine updates that touch no line -/

variable {s : Engine} {key : PartitionKey}

theorem idle_of_not_busy {queue : PartitionQueue}
    (covered : ∀ key, s.lines key ≠ [] → key ∈ s.active.keys)
    (present : s.partitions.lookup key = some queue) (dropped : key ∉ s.busy.keys) :
    queue.batches = [] := by
  by_contra filled
  have active : key ∈ s.active.keys := covered key (by rwa [s.lines_of_lookup key present])
  refine dropped ((KeySet.mem_retain ..).mpr ⟨active, ?_⟩)
  simpa [present, ← queue.isIdle_iff] using filled

theorem queue_prune (s : Engine) (key : PartitionKey) :
    s.prune.queue key = s.queue key ∨
      s.prune.queue key = {} ∧ s.trims ∧ ∃ queue, s.partitions.lookup key = some queue ∧
        key ∉ s.busy.keys ∧ queue.lastAckedOffset = none := by
  cases trims : s.trims with
  | false => exact .inl (by simp [Engine.queue, prune, trims])
  | true =>
    cases present : s.partitions.lookup key with
    | none => exact .inl (by simp [Engine.queue, prune, trims, AList.lookup_retain, present])
    | some queue =>
      by_cases kept : key ∈ s.busy.keys ∨ queue.lastAckedOffset.isSome = true
      · refine .inl ?_
        simp [Engine.queue, prune, trims, AList.lookup_retain, present, Option.filter, kept]
      · obtain ⟨idle, unacked⟩ := not_or.mp kept
        refine .inr ⟨?_, rfl, queue, rfl, idle, by simpa using unacked⟩
        simp [Engine.queue, prune, trims, AList.lookup_retain, present, Option.filter, idle, unacked]

theorem lines_prune (covered : ∀ key, s.lines key ≠ [] → key ∈ s.active.keys) :
    s.prune.lines = s.lines := by
  funext key
  rcases queue_prune s key with same | ⟨gone, -, queue, present, dropped, -⟩
  · exact congrArg batches same
  · rw [s.lines_of_lookup key present, idle_of_not_busy covered present dropped]
    exact congrArg batches gone

theorem stampTotal_prune (covered : ∀ key, s.lines key ≠ [] → key ∈ s.active.keys) :
    s.prune.stampTotal = s.stampTotal := by
  cases trims : s.trims with
  | false => simp [stampTotal, prune, trims]
  | true =>
    simp only [stampTotal, prune, trims, if_true]
    refine AList.total_retain (M := Nat) _ _ _ fun key queue present dropped => ?_
    rw [idle_of_not_busy covered present (by simp_all), stampsOf_nil]

theorem flight_prune (covered : ∀ key, s.lines key ≠ [] → key ∈ s.active.keys) :
    s.prune.flight = s.flight := by
  funext key
  rcases queue_prune s key with same | ⟨gone, -, queue, present, dropped, -⟩
  · exact congrArg (·.inFlight.isSome) same
  · have idle := idle_of_not_busy covered present dropped
    have slot : queue.inFlight = none := by simpa using (List.append_eq_nil_iff.mp idle).1
    rw [s.flight_of_lookup key present, slot]
    exact congrArg (·.inFlight.isSome) gone

/-! Moves as entries -/

section Entries

variable {s s' : Engine} {wire wire' : List WireBatch} {doomed : List (PartitionKey × Batch)}
  {key : PartitionKey} {queue left : PartitionQueue} {batch : Batch}

theorem effect_quiet (events : List Event) (lines : s'.lines = s.lines)
    (flight : s'.flight = s.flight) (stamps : s'.stampTotal = s.stampTotal) (trace : s'.trace = s.trace ++ events)
    (silent : ∀ event ∈ events, event.Silent) (arrivals : s'.arrivals = s.arrivals)
    (unresolved : s'.stampedUnresolved = s.stampedUnresolved) :
    Effect p (ledger ⟨s, wire, none, doomed⟩) (ledger ⟨s', wire', none, doomed⟩) := by
  rw [ledger_rest s', lines, flight, trace, arrivals, unresolved, stamps]
  exact Effect.silent rfl events silent

variable {error : KrafkaError}

theorem Engine.append_cases (s : Engine) (now : Instant) (append : Append) :
    (∃ error, s.identity = .fatal error ∧ s.append now append =
      { s with arrivals := s.arrivals + 1 }.emit
        [.arrived append.key { append.data with tag := s.arrivals },
          .answered append.key { append.data with tag := s.arrivals }
            { tag := s.arrivals, txn := append.txn } (.error error)]) ∨
    s.identity.isFatal = false ∧ ∃ after, (s.queue append.key).accept now
        (now + s.config.deliveryTimeout) s.config.batchSize
        (s.sealedThrough.any (append.generation ≤ ·)) { append.data with tag := s.arrivals }
        append.size append.generation { tag := s.arrivals, txn := append.txn } = after ∧
      s.append now append =
        { s.setQueue append.key after with
          arrivals := s.arrivals + 1
          active := s.active.insert append.key }.emit
        [.arrived append.key { append.data with tag := s.arrivals },
          .appended append.key { append.data with tag := s.arrivals }] := by
  cases identity : s.identity with
  | fatal error => exact .inl ⟨error, rfl, by simp [Engine.append, identity, emit]⟩
  | _ =>
    refine .inr ⟨rfl, _, rfl, ?_⟩
    simp [Engine.append, identity, emit, setQueue, Engine.queue]

theorem effect_append (now : Instant) (append : Append) (allowed : p.append s now append)
    (fresh : s.OpenFresh) :
    Effect p (Custody.rest s).ledger (Custody.rest (s.append now append)).ledger := by
  rcases s.append_cases now append with ⟨error, -, same⟩ | ⟨-, after, accepted, same⟩
  · rw [same]
    exact Effect.refuse rfl append.key _ _ error rfl rfl
  · obtain ⟨slot, -, older, last, place, line, -, behind⟩ :=
      (s.queue append.key).accept_spec accepted
    rw [same]
    have isFresh : last.Fresh := by
      rcases place with ⟨_, opened⟩ | ⟨_, rfl⟩
      · exact fresh _ _ opened
      · exact ⟨rfl, rfl, rfl⟩
    have clock : s.lines append.key = older ++ [last] ∨
        last = Batch.new now (now + s.config.deliveryTimeout) := place.imp And.left And.right
    have place : s.lines append.key = older ++ [last] ∨
        s.lines append.key = older ∧ ∃ now deadline, last = Batch.new now deadline :=
      place.imp And.left (And.imp_right fun new => ⟨_, _, new⟩)
    have unstamped : stampsOf (s.lines append.key) = stampsOf after.batches := by
      rcases place with before | ⟨before, new⟩
      · simp [before, line, Batch.stampCount, Batch.push]
      · simp [before, line, Batch.stampCount, Batch.push, isFresh.stamp]
    have moved := s.stampTotal_setQueue append.key after
    have entry : Effect p (Custody.rest s).ledger _ :=
      Effect.accept rfl append.key { append.data with tag := s.arrivals }
        { tag := s.arrivals, txn := append.txn } append.size append.generation rfl rfl place isFresh
        behind ⟨s, now, append, allowed, rfl, rfl, rfl, clock⟩
    refine entry.cast ?_ ?_ (Nat.add_right_cancel (moved.trans (by rw [unstamped]; rfl))) rfl rfl
      rfl rfl rfl
    · exact (lines_setQueue ..).trans (congrArg (update s.lines append.key) line)
    · exact (flight_setQueue ..).trans (by rw [slot]; exact update_eq_self ..)

theorem effect_take {removed : List Batch} (present : s.partitions.lookup key = some queue)
    (parts : queue.batches.Perm (removed ++ left.batches))
    (order : left.batches.Sublist queue.batches) (slot : left.inFlight = queue.inFlight) :
    Effect p (ledger ⟨s, wire, none, doomed⟩)
      (ledger ⟨s.setQueue key left, wire, none, doomed ++ removed.map (key, ·)⟩) := by
  have moved := s.stampTotal_setQueue key left
  rw [← s.lines_of_lookup key present] at parts order
  rw [stampsOf_perm parts, stampsOf_append] at moved
  have stays : s.flight key → ∃ batch back rest,
      s.lines key = batch :: back ∧ left.batches = batch :: rest := by
    rw [s.flight_of_lookup key present, s.lines_of_lookup key present]
    intro flying
    obtain ⟨batch, flying⟩ := Option.isSome_iff_exists.mp flying
    refine ⟨batch, queue.unsent, left.unsent, ?_, ?_⟩
    · rw [batches, flying]
      rfl
    · rw [batches, slot, flying]
      rfl
  exact Effect.cast
    (Effect.take rfl key parts order
      (show (s.setQueue key left).stampTotal + _ = s.stampTotal by omega) stays)
    (lines_setQueue ..) (flight_keep _ _ present (congrArg _ slot)) rfl rfl rfl rfl
    rfl rfl

theorem effect_fail (honest : p.error error ∨ batch.HonestError error) :
    Effect p (ledger ⟨s, wire, none, (key, batch) :: doomed⟩)
      (ledger ⟨s.fail key batch error, wire, none, doomed⟩) := by
  exact Effect.cast
    (Effect.fail rfl error rfl honest)
    (lines_modifyQueue _ key fun _ => rfl) (flight_modifyQueue _ key fun _ => rfl)
    (stampTotal_modifyQueue _ key fun _ => rfl) rfl rfl rfl rfl rfl

theorem lines_of_slot (present : s.partitions.lookup key = some queue)
    (slot : queue.inFlight = some batch) : s.lines key = batch :: queue.unsent := by
  rw [s.lines_of_lookup key present, batches, slot]
  rfl

theorem flight_of_slot (present : s.partitions.lookup key = some queue)
    (slot : queue.inFlight = some batch) : s.flight key := by
  rw [s.flight_of_lookup key present, slot]
  rfl

theorem effect_answerInFlight (present : s.partitions.lookup key = some queue)
    (slot : queue.inFlight = some batch) (credible : p.Credible error) :
    Effect p (ledger ⟨s, wire, none, doomed⟩)
      (ledger ⟨s.answerInFlight key batch error, wire, none, doomed⟩) := by
  have head := lines_of_slot present slot
  unfold answerInFlight
  rw [modifyQueue_of_lookup present]
  exact Effect.cast
    (Effect.answer rfl error head (flight_of_slot present slot) credible)
    (lines_setQueue ..) (flight_keep _ _ present (by rw [slot]; rfl))
    (s.stampTotal_replace (n := 0) key head rfl rfl) rfl rfl rfl rfl rfl

theorem lines_of_head (present : s.partitions.lookup key = some queue)
    (free : queue.inFlight = none) (head : queue.popHead = some (batch, left)) :
    s.lines key = batch :: left.unsent := by
  obtain ⟨whole, slot⟩ := batches_of_popHead free head
  rw [s.lines_of_lookup key present, whole, batches, slot]
  rfl

theorem flight_of_free (present : s.partitions.lookup key = some queue)
    (free : queue.inFlight = none) : s.flight key = false := by
  rw [s.flight_of_lookup key present, free]
  rfl

theorem effect_handOut (broker : Int) (present : s.partitions.lookup key = some queue)
    (free : queue.inFlight = none) (head : queue.popHead = some (batch, left)) :
    Effect p (ledger ⟨s, wire, none, []⟩)
      (ledger ⟨(s.handOut broker key batch left).1, wire', none, []⟩) := by
  have line := lines_of_head present free head
  exact Effect.cast
    (Effect.handOut rfl rfl broker (s.handOut broker key batch left).2 (flight_of_free present free)
      line rfl rfl)
    (lines_setQueue ..) (flight_setQueue ..)
    (s.stampTotal_replace (n := 0) key line rfl rfl) rfl rfl rfl rfl rfl

theorem effect_stampOut {identity : Identity} (broker : Int)
    (present : s.partitions.lookup key = some queue) (free : queue.inFlight = none)
    (head : queue.popHead = some (batch, left)) (fresh : batch.stamp = none) :
    Effect p (ledger ⟨s, wire, none, []⟩)
      (ledger ⟨(s.stampOut broker key identity batch left).1, wire', none, []⟩) := by
  have line := lines_of_head present free head
  refine Effect.cast
    (Effect.stampOut rfl rfl broker (s.stampOut broker key identity batch left).2
      (flight_of_free present free) line rfl fresh rfl)
    (lines_setQueue ..) (flight_setQueue ..)
    (s.stampTotal_replace (n := 1) key line rfl ?_) rfl rfl (List.append_assoc ..) rfl rfl
  simp [Batch.stampCount, fresh]

theorem effect_endAttempt (encoded : Option Bytes) (outcome : BatchOutcome)
    (present : s.partitions.lookup key = some queue) (slot : queue.inFlight = some batch) :
    Effect p (ledger ⟨s, wire, none, []⟩) (ledger ⟨s.endAttempt key queue batch outcome, wire',
        some (key, { batch with encoded := encoded.or batch.encoded }.marked outcome, outcome),
        []⟩) := by
  have head := lines_of_slot present slot
  refine Effect.cast
    (Effect.endAttempt rfl (encoded.or batch.encoded) outcome head (flight_of_slot present slot))
    ?_ (flight_setQueue ..) ?_ rfl rfl rfl rfl rfl
  · show update (s.setQueue key _).lines key (_ :: (s.setQueue key _).lines key) = _
    rw [lines_setQueue, update_idem, update_self]
    rfl
  · have moved := s.stampTotal_setQueue key { queue with inFlight := none }
    rw [head, stampsOf_cons] at moved
    have same : ({ batch with encoded := encoded.or batch.encoded }.marked outcome).stampCount =
        batch.stampCount := by simp [Batch.stampCount]
    show (s.setQueue key { queue with inFlight := none }).stampTotal +
      ({ batch with encoded := encoded.or batch.encoded }.marked outcome).stampCount = s.stampTotal
    have rest : stampsOf { queue with inFlight := none }.batches = stampsOf queue.unsent := rfl
    omega

section Held

variable {outcome : BatchOutcome}

theorem lines_release : s.lines = update (update s.lines key (batch :: s.lines key)) key (s.lines key) := by
  rw [update_idem, update_eq_self]

theorem lines_requeue {front : List Batch} (after : queue.batches = front ++ s.lines key) :
    (s.setQueue key queue).lines =
      update (update s.lines key (batch :: s.lines key)) key (front ++ s.lines key) := by
  rw [lines_setQueue, after, update_idem]

theorem effect_acknowledge (baseOffset logAppendTime : Int) (delivery : DeliveryConfirmation) :
    Effect p (ledger ⟨s, wire, some (key, batch, outcome), []⟩)
      (ledger ⟨s.acknowledge key batch baseOffset logAppendTime delivery, wire, none, []⟩) := by
  have lines : (s.acknowledge key batch baseOffset logAppendTime delivery).lines = s.lines :=
    lines_modifyQueue _ key fun _ => rfl
  exact Effect.cast
    (Effect.acknowledge (ackMetadata key baseOffset logAppendTime delivery) rfl (update_self ..)
      (show s.stampTotal + batch.stampCount = _ from rfl))
    (lines.trans lines_release) (flight_modifyQueue _ key fun _ => rfl)
    (stampTotal_modifyQueue _ key fun _ => rfl) rfl rfl rfl rfl rfl

theorem effect_condemn (unsettled : ¬outcome.Settles) :
    Effect p (ledger ⟨s, wire, some (key, batch, outcome), []⟩)
      (ledger ⟨s, wire, none, [(key, batch)]⟩) := by
  exact Effect.cast
    (Effect.condemn rfl (update_self ..) unsettled
      (show s.stampTotal + batch.stampCount = _ from rfl))
    lines_release rfl rfl rfl rfl rfl rfl rfl

theorem effect_retry {wait : Instant} {error : KrafkaError}
    (present : s.partitions.lookup key = some queue) (free : queue.inFlight = none)
    (unsettled : ¬outcome.Settles) :
    Effect p (ledger ⟨s, wire, some (key, batch, outcome), []⟩)
      (ledger ⟨s.setQueue key ({ queue with backoffUntil := some wait }.pushFront
        { batch with lastError := some error }), wire, none, []⟩) := by
  have batches : ({ queue with backoffUntil := some wait }.pushFront
      { batch with lastError := some error }).batches =
        [{ batch with lastError := some error }] ++ s.lines key := by
    rw [s.lines_of_lookup key present]
    exact batches_pushFront _ _ free
  exact Effect.cast
    (Effect.retry error rfl (update_self ..) unsettled)
    (lines_requeue batches) (flight_keep _ _ present rfl)
    (s.stampTotal_push key batches) rfl rfl rfl rfl rfl

theorem effect_restamp {code : ErrorCode} (present : s.partitions.lookup key = some queue)
    (free : queue.inFlight = none) (unsettled : ¬outcome.Settles)
    (allowed : p.restamp s key batch outcome) :
    Effect p (ledger ⟨s, wire, some (key, batch, outcome), []⟩)
      (ledger ⟨s.restamp key batch code, wire, none, []⟩) := by
  have batches : (queue.pushFront batch.unstamp).batches = [batch.unstamp] ++ s.lines key := by
    rw [s.lines_of_lookup key present]
    exact batches_pushFront _ _ free
  have requeued : s.restamp key batch code = { { s with epochRetryUsed := s.epochRetryUsed ||
      code = ErrorCode.invalidProducerEpoch }.retract key batch with bumpRequested := true }.setQueue
        key (queue.pushFront batch.unstamp) := by
    simp only [restamp, modifyQueue, setQueue, retract, release, emit, present]
  rw [requeued]
  exact Effect.cast
    (Effect.restamp rfl (update_self ..) unsettled ⟨s, allowed⟩
      (show s.stampTotal + batch.stampCount = _ from rfl))
    (lines_requeue batches) (flight_keep _ _ present rfl)
    (s.stampTotal_push key batches) rfl rfl rfl rfl rfl

theorem effect_split {bump : Bool} (present : s.partitions.lookup key = some queue)
    (free : queue.inFlight = none) (live : batch.waiters.isSome) (several : 1 < batch.len)
    (unsettled : ¬outcome.Settles) (allowed : p.split s key batch outcome) :
    Effect p (ledger ⟨s, wire, some (key, batch, outcome), []⟩)
      (ledger ⟨s.splitBatch key batch bump, wire, none, []⟩) := by
  obtain ⟨⟨first, second⟩, halves⟩ := batch.unstamp.split_of_several several
  have batches : ((queue.pushFront second).pushFront first).batches =
      [first, second] ++ s.lines key := by
    rw [s.lines_of_lookup key present]
    have free' : (queue.pushFront second).inFlight = none := free
    rw [batches_pushFront _ _ free', batches_pushFront _ _ free]
    rfl
  have unstamped : stampsOf [first, second] = 0 := by
    obtain ⟨rfl, rfl⟩ := Batch.split_eq halves
    rfl
  have requeued : s.splitBatch key batch bump =
      { s.retract key batch with bumpRequested := s.bumpRequested || bump }.setQueue key
        ((queue.pushFront second).pushFront first) := by
    simp only [splitBatch, modifyQueue, setQueue, retract, release, emit, halves, present]
  rw [requeued]
  exact Effect.cast
    (Effect.split rfl (update_self ..) live halves unsettled ⟨s, allowed⟩
      (show s.stampTotal + batch.stampCount = _ from rfl))
    (lines_requeue batches) (flight_keep _ _ present rfl)
    ((s.stampTotal_push key batches).trans (by rw [unstamped]; rfl)) rfl rfl rfl rfl rfl

end Held

end Entries

theorem queue_of_lookup {queue : PartitionQueue}
    (present : s.partitions.lookup key = some queue) : s.queue key = queue := by
  simp [Engine.queue, present]

variable {c c' : Custody}

theorem Move.effect (move : Move p c c') (sound : c.Sound) : Effect p c.ledger c'.ledger := by
  have quiet : ∀ {s s' : Engine} {wire wire' : List WireBatch} {doomed},
      s'.lines = s.lines → s'.flight = s.flight → s'.stampTotal = s.stampTotal → s'.trace = s.trace →
      s'.arrivals = s.arrivals → s'.stampedUnresolved = s.stampedUnresolved →
      Effect p (ledger ⟨s, wire, none, doomed⟩)
        (ledger ⟨s', wire', none, doomed⟩) :=
    fun lines flight stamps trace arrivals unresolved =>
      effect_quiet [] lines flight stamps (by simpa using trace) (by simp) arrivals unresolved
  cases move with
  | append now append allowed => exact effect_append now append allowed sound.fresh
  | sealOpen =>
    exact quiet (lines_modifyQueue _ _ batches_sealOpen)
      (flight_modifyQueue _ _ fun _ => rfl)
      (stampTotal_modifyQueue _ _ batches_sealOpen) rfl rfl rfl
  | takeUnsent key present =>
    refine effect_take present ?_ ?_ rfl
    · rw [batches_clearUnsent]
      exact List.perm_append_comm
    · rw [batches_clearUnsent]
      exact List.sublist_append_left _ _
  | takeExpired now key present =>
    exact effect_take present (expired_perm now)
      (clearExpired_sublist now) rfl
  | fail key batch error honest => exact effect_fail honest
  | answerInFlight key error present slot credible => exact effect_answerInFlight present slot credible
  | bump | adopt | gate => exact effect_quiet [_] rfl rfl rfl rfl (by simp [Event.Silent]) rfl rfl
  | setIdentity producerId epoch tv2 =>
    rcases Engine.setIdentity_eq _ producerId epoch tv2 with same | same <;> rw [same]
    · exact quiet rfl rfl rfl rfl rfl rfl
    · exact effect_quiet [_] rfl rfl rfl rfl (by simp [Event.Silent]) rfl rfl
  | putBack key present head =>
    have same := (batches_putBack head).trans (lines_of_lookup _ key present).symm
    have slot := (unsent_of_popHead head).2
    refine quiet ?_ (flight_keep _ _ present (congrArg _ slot)) ?_ rfl rfl rfl
    · rw [lines_setQueue, same, update_eq_self]
    · exact stampTotal_push _ key (show _ = [] ++ _ from same)
  | handOut broker key present free head => exact effect_handOut broker present free head
  | stampOut broker key present free head fresh =>
    exact effect_stampOut broker present free head fresh
  | endAttempt sent encoded outcome carried present slot =>
    exact effect_endAttempt encoded outcome present slot
  | acknowledge baseOffset logAppendTime delivery =>
    exact effect_acknowledge baseOffset logAppendTime delivery
  | condemn unsettled => exact effect_condemn unsettled
  | retry wait error present live unsettled =>
    exact effect_retry present (queue_of_lookup present ▸ sound.slot _ rfl) unsettled
  | restamp code present live mode unsettled allowed =>
    obtain ⟨queue, present⟩ := AList.mem_iff_lookup.mp present
    exact effect_restamp present (queue_of_lookup present ▸ sound.slot _ rfl) unsettled allowed
  | split bump present live several mode bumps unsettled allowed =>
    obtain ⟨queue, present⟩ := AList.mem_iff_lookup.mp present
    exact effect_split present (queue_of_lookup present ▸ sound.slot _ rfl) live several
      unsettled allowed
  | prune =>
    exact quiet (lines_prune sound.covered) (flight_prune sound.covered)
      (stampTotal_prune sound.covered) rfl rfl rfl
  | reinit | reinitDone | die | startRequest | finishRequest | skipResult | reorder | book =>
    exact quiet rfl rfl rfl rfl rfl rfl

theorem Effect.grows {l' : Ledger} (effect : Effect p l l') :
    ∃ events, l'.trace = l.trace ++ events := by
  cases effect with
  | take | condemn | retry => exact ⟨[], (List.append_nil _).symm⟩
  | _ => exact ⟨_, rfl⟩

/-! What the refinement rests on is kept -/

theorem Effect.line_ne_nil {l' : Ledger} (effect : Effect p l l') (same : l'.arrivals = l.arrivals)
    (filled : l'.line key ≠ []) : l.line key ≠ [] := by
  have replaced : ∀ {k : PartitionKey} {batch : Batch} {back batches : List Batch},
      l.line k = batch :: back → update l.line k batches key ≠ [] → l.line key ≠ [] := by
    intro k batch back batches head filled
    by_cases here : key = k
    · simp [here, head]
    · rwa [update_of_ne here] at filled
  cases effect with
  | silent | fail => exact filled
  | refuse | accept => simp at same
  | take free k parts order =>
    by_cases here : key = k
    · subst here
      intro empty
      rw [empty, List.sublist_nil] at order
      simp [order] at filled
    · simpa [update_of_ne here] using filled
  | answer free error head | handOut free clear broker sent slot head
  | stampOut free clear broker sent slot head | endAttempt free encoded outcome head
  | acknowledge result held head | condemn held head | retry error held head | restamp held head
  | split held head => exact replaced head filled

section Opened

variable {s : Engine} {key other : PartitionKey} {queue : PartitionQueue} {batch : Batch}

theorem opened_setQueue
    (shrinks : ∀ batch, queue.openBatch = some batch → (s.queue key).openBatch = some batch)
    (opened : ((s.setQueue key queue).queue other).openBatch = some batch) :
    (s.queue other).openBatch = some batch := by
  rw [queue_setQueue, update_apply] at opened
  split_ifs at opened with here
  · rw [here]
    exact shrinks batch opened
  · exact opened

theorem opened_of_lookup (present : s.partitions.lookup key = some queue)
    (opened : queue.openBatch = some batch) : (s.queue key).openBatch = some batch :=
  (queue_of_lookup present).symm ▸ opened

theorem opened_modifyQueue {f : PartitionQueue → PartitionQueue}
    (shrinks : ∀ queue batch, (f queue).openBatch = some batch → queue.openBatch = some batch)
    (opened : ((s.modifyQueue key f).queue other).openBatch = some batch) :
    (s.queue other).openBatch = some batch := by
  cases present : s.partitions.lookup key with
  | none =>
    simp only [modifyQueue, present] at opened
    exact opened
  | some queue =>
    rw [modifyQueue_of_lookup present] at opened
    exact opened_setQueue (fun batch h => opened_of_lookup present (shrinks queue batch h)) opened

theorem opened_of_popHead {queue left : PartitionQueue} {batch opened : Batch}
    (head : queue.popHead = some (batch, left)) (h : left.openBatch = some opened) :
    queue.openBatch = some opened := by
  unfold popHead at head
  cases sealed : queue.sealed with
  | cons =>
    simp only [sealed, Option.some.injEq, Prod.mk.injEq] at head
    rw [← head.2] at h
    exact h
  | nil =>
    simp only [sealed, Option.map_eq_some_iff, Prod.mk.injEq] at head
    obtain ⟨_, _, _, rfl⟩ := head
    cases h

theorem opened_append (now : Instant) (append : Append)
    (opened : ((s.append now append).queue other).openBatch = some batch) :
    (s.queue other).openBatch = some batch ∨
      s.sealedThrough.any (append.generation ≤ ·) = false ∧ ∃ last,
        ((s.queue other).openBatch = some last ∨
          last = Batch.new now (now + s.config.deliveryTimeout)) ∧
        batch = last.push { append.data with tag := s.arrivals } append.size append.generation
          { tag := s.arrivals, txn := append.txn } := by
  rcases s.append_cases now append with ⟨error, -, same⟩ | ⟨-, after, accepted, same⟩
  · rw [same] at opened
    exact .inl opened
  · obtain ⟨-, -, older, last, place, -, only, -⟩ := (s.queue append.key).accept_spec accepted
    rw [same] at opened
    change ((s.setQueue append.key after).queue other).openBatch = some batch at opened
    rw [queue_setQueue, update_apply] at opened
    split_ifs at opened with here
    · refine .inr ⟨?_, last, ?_, only batch opened⟩
      · by_contra sealNow
        rw [Bool.not_eq_false] at sealNow
        rw [← accepted] at opened
        simp [accept, sealNow, PartitionQueue.sealOpen] at opened
      · rcases place with ⟨_, before⟩ | ⟨_, new⟩
        · exact .inl (here ▸ before)
        · exact .inr new
    · exact .inl opened

theorem opened_prune (opened : (s.prune.queue other).openBatch = some batch) :
    (s.queue other).openBatch = some batch := by
  rcases queue_prune s other with same | ⟨gone, _⟩
  · exact same ▸ opened
  · exact nomatch (congrArg openBatch gone).symm.trans opened

theorem openFresh_append (now : Instant) (append : Append) (fresh : s.OpenFresh) :
    (s.append now append).OpenFresh := by
  intro key batch opened
  rcases opened_append now append opened with same | ⟨-, last, place, rfl⟩
  · exact fresh key batch same
  · have isFresh : last.Fresh := by
      rcases place with before | rfl
      · exact fresh key last before
      · exact ⟨rfl, rfl, rfl⟩
    exact ⟨isFresh.stamp, by simpa [Batch.push] using isFresh.waiters, isFresh.flag⟩

theorem openFresh_of_lookup (fresh : s.OpenFresh) (present : s.partitions.lookup key = some queue)
    (opened : queue.openBatch = some batch) : batch.Fresh :=
  fresh key batch (opened_of_lookup present opened)

end Opened

theorem setIdentity_frame (s : Engine) (producerId epoch : Int) (tv2 : Bool) :
    (s.setIdentity producerId epoch tv2).partitions = s.partitions ∧
      (s.setIdentity producerId epoch tv2).active = s.active ∧
      (s.setIdentity producerId epoch tv2).arrivals = s.arrivals ∧
      (s.setIdentity producerId epoch tv2).config = s.config := by
  rcases s.setIdentity_eq producerId epoch tv2 with same | same <;> rw [same] <;>
    exact ⟨rfl, rfl, rfl, rfl⟩

theorem covered_append (now : Instant) (append : Append)
    (covered : ∀ key, s.lines key ≠ [] → key ∈ s.active.keys) (key : PartitionKey)
    (filled : (s.append now append).lines key ≠ []) : key ∈ (s.append now append).active.keys := by
  rcases s.append_cases now append with ⟨error, -, same⟩ | ⟨-, after, -, same⟩
  · rw [same] at filled ⊢
    exact covered key filled
  · rw [same] at filled ⊢
    refine (KeySet.mem_insert ..).mpr ?_
    by_cases here : key = append.key
    · exact .inl here
    · change (s.setQueue append.key _).lines key ≠ [] at filled
      rw [lines_setQueue, update_of_ne here] at filled
      exact .inr (covered key filled)

theorem splitBatch_frame (s : Engine) (key : PartitionKey) (batch : Batch) (bump : Bool) :
    (s.splitBatch key batch bump).arrivals = s.arrivals ∧
      (s.splitBatch key batch bump).active = s.active ∧
      (s.splitBatch key batch bump).config = s.config := by
  unfold splitBatch
  dsimp only
  split <;> exact ⟨rfl, rfl, rfl⟩

theorem busy_of_filled
    (covered : ∀ key, s.lines key ≠ [] → key ∈ s.active.keys) (filled : s.lines key ≠ []) :
    key ∈ s.busy.keys := by
  cases present : s.partitions.lookup key with
  | none => simp [lines, Engine.queue, present, batches, unsent] at filled
  | some =>
    by_contra idle
    rw [s.lines_of_lookup key present] at filled
    exact filled (idle_of_not_busy covered present idle)

theorem Move.opened (move : Move p c c') {batch : Batch}
    (opened : (c'.engine.queue key).openBatch = some batch) :
    (c.engine.queue key).openBatch = some batch ∨
      ∃ s now append, c = .rest s ∧ c' = .rest (s.append now append) := by
  cases move with
  | append now append => exact .inr ⟨_, now, append, rfl, rfl⟩
  | sealOpen => exact .inl (opened_modifyQueue (by simp [PartitionQueue.sealOpen]) opened)
  | takeUnsent =>
    exact .inl (opened_setQueue (by simp [PartitionQueue.clearUnsent]) opened)
  | takeExpired now key present =>
    refine .inl (opened_setQueue (fun batch open' => ?_) opened)
    exact opened_of_lookup present (Option.filter_eq_some_iff.mp open').1
  | fail | answerInFlight | acknowledge => exact .inl (opened_modifyQueue (by simp) opened)
  | setIdentity producerId epoch tv2 =>
    left
    rw [← opened]
    exact congrArg (fun partitions => ((AList.lookup key partitions).getD {}).openBatch)
      (setIdentity_frame _ producerId epoch tv2).1.symm
  | putBack key present head | handOut broker key present free head
  | stampOut broker key present free head =>
    refine .inl (opened_setQueue (fun batch open' => ?_) opened)
    exact opened_of_lookup present (opened_of_popHead head open')
  | endAttempt sent encoded outcome carried present | retry wait error present =>
    refine .inl (opened_setQueue (fun batch open' => ?_) opened)
    exact opened_of_lookup present open'
  | restamp => exact .inl (opened_modifyQueue (by simp [pushFront]) opened)
  | split =>
    unfold splitBatch at opened
    dsimp only at opened
    split at opened
    · exact .inl (opened_modifyQueue (by simp [pushFront]) opened)
    · exact .inl opened
  | prune => exact .inl (opened_prune opened)
  | bump | reinit | reinitDone | adopt | die | gate | startRequest | finishRequest | skipResult
  | condemn | reorder | book => exact .inl opened

theorem Move.openFresh (move : Move p c c') (fresh : c.engine.OpenFresh) : c'.engine.OpenFresh := by
  intro key batch opened
  rcases move.opened opened with same | ⟨s, now, append, rfl, rfl⟩
  · exact fresh key batch same
  · exact openFresh_append now append fresh key batch opened

theorem Move.sound (move : Move p c c') (sound : c.Sound) : c'.Sound := by
  have effect := move.effect sound
  have fresh := move.openFresh sound.fresh
  have covered : c'.engine.arrivals = c.engine.arrivals → c'.engine.active = c.engine.active →
      ∀ key, c'.line key ≠ [] → key ∈ c'.engine.active.keys :=
    fun arrivals active key filled =>
      active ▸ sound.covered key (effect.line_ne_nil arrivals filled)
  have idle : c'.inHand = none →
      ∀ held, c'.inHand = some held → (c'.engine.queue held.1).inFlight = none :=
    fun none held some => nomatch none.symm.trans some
  cases move with
  | append now append => exact ⟨covered_append now append sound.covered, fresh, idle rfl⟩
  | setIdentity producerId epoch tv2 =>
    obtain ⟨-, active, arrivals, -⟩ := setIdentity_frame _ producerId epoch tv2
    exact ⟨covered arrivals active, fresh, idle rfl⟩
  | endAttempt =>
    refine ⟨covered rfl rfl, fresh, ?_⟩
    rintro held ⟨⟩
    exact congrArg inFlight (queue_of_lookup (lookup_endAttempt ..))
  | split bump =>
    obtain ⟨arrivals, active, -⟩ := splitBatch_frame _ _ _ bump
    exact ⟨covered arrivals active, fresh, idle rfl⟩
  | prune =>
    refine ⟨fun key filled => ?_, fresh, idle rfl⟩
    exact busy_of_filled sound.covered (effect.line_ne_nil rfl filled)
  | reorder order =>
    refine ⟨fun key filled => ?_, fresh, idle rfl⟩
    have active := sound.covered key (effect.line_ne_nil rfl filled)
    show key ∈ (Engine.reorder _ order).active.keys
    unfold Engine.reorder
    split_ifs with perm
    · exact perm.mem_iff.mpr active
    · exact active
  | sealOpen | takeUnsent | takeExpired | fail | answerInFlight | bump | reinit | reinitDone
  | adopt | die | gate | putBack | handOut | stampOut | startRequest | finishRequest | skipResult
  | acknowledge | condemn | retry | restamp | book => exact ⟨covered rfl rfl, fresh, idle rfl⟩

/-! Whole runs -/

theorem spawn_sound (config : EngineConfig) : (Custody.rest (spawn config)).Sound :=
  ⟨fun _ filled => absurd rfl filled, (fun _ _ opened => nomatch opened),
    (fun _ held => nomatch held)⟩

theorem run_invariant (Inv : Custody → Prop) {config : EngineConfig} {inputs : List Input}
    (preserved : ∀ c c', Move p c c' → c.Sound → Effect p c.ledger c'.ledger → Inv c → Inv c')
    (start : Inv (.rest (spawn config)))
    (allowed : Runs.Along step p.Allows (spawn config) inputs) :
    Inv (.rest (run config inputs)) := by
  have both : ∀ c c', Move p c c' → c.Sound ∧ Inv c → c'.Sound ∧ Inv c' :=
    fun c c' move before => ⟨move.sound before.1,
      preserved c c' move before.1 (move.effect before.1) before.2⟩
  exact (invariant_of_moves (fun c => c.Sound ∧ Inv c) both ⟨spawn_sound config, start⟩ allowed).2

theorem run_ledger (Inv : Ledger → Prop) {config : EngineConfig} {inputs : List Input}
    (preserved : ∀ l l', Effect p l l' → Inv l → Inv l')
    (start : Inv (Custody.rest (spawn config)).ledger)
    (allowed : Runs.Along step p.Allows (spawn config) inputs) :
    Inv (Custody.rest (run config inputs)).ledger :=
  run_invariant (fun c => Inv c.ledger) (fun _ _ _ _ effect => preserved _ _ effect) start allowed

structure Policy.Lenient (p : Policy) : Prop where
  error : ∀ error, p.error error
  outcome : ∀ sent outcome, p.outcome sent outcome
  retry : ∀ s key batch outcome, p.retry s key batch outcome
  restamp : ∀ s key batch outcome, p.restamp s key batch outcome
  split : ∀ s key batch outcome, p.split s key batch outcome
  prune : ∀ s, p.prune s

theorem Policy.Lenient.allowsResults (lenient : p.Lenient) (now : Instant) (delay : Nat → Duration)
    (results : List BatchResult) (s : Engine) : p.AllowsResults now delay s results := by
  have verdicts (s : Engine) (key : PartitionKey) (batch : Batch) (outcome : BatchOutcome) :
      p.AllowsVerdict s now key batch outcome := by
    unfold Policy.AllowsVerdict
    split
    · exact fun _ => lenient.retry ..
    · exact fun _ => lenient.restamp ..
    · exact fun _ _ => lenient.split ..
    · trivial
  induction results generalizing s with
  | nil => trivial
  | cons result results ih =>
    refine ⟨?_, ih _⟩
    unfold Policy.AllowsResult
    split
    · trivial
    · split
      · trivial
      · exact verdicts ..

theorem Policy.Lenient.allows_complete (lenient : p.Lenient) (s : Engine) (now : Instant)
    (delay : Nat → Duration) (serial : Nat) (results : List BatchResult) :
    p.Allows s (.complete now delay serial results) := by
  have errors (outcome : BatchOutcome) : p.AllowsError outcome := by
    cases outcome with
    | notWritten error | noAnswer error => exact lenient.error error
    | _ => trivial
  simp only [Policy.Allows]
  split
  · trivial
  · exact fun _ => ⟨fun _ _ => ⟨errors _, fun _ _ _ => lenient.outcome ..⟩,
      lenient.allowsResults .., lenient.prune _⟩

theorem Policy.Lenient.allows (lenient : p.Lenient) (setIdentity : p.setIdentity s)
    (bump : p.bump s) (adopt : ∀ producerId epoch, p.adopt s producerId epoch) (input : Input)
    (append : ∀ now append, input = .command now (.append append) → p.append s now append) :
    p.Allows s input := by
  cases input with
  | command now command =>
    cases command with
    | append entry => exact append now entry rfl
    | failUnsent error | terminate error => exact ⟨lenient.error error, lenient.prune _⟩
    | setIdentity => exact setIdentity
    | _ => trivial
  | drain => exact bump
  | complete now delay serial results => exact lenient.allows_complete s now delay serial results
  | reinitialised result =>
    cases result with
    | error error => exact lenient.error error
    | ok => exact fun _ => adopt ..
  | _ => trivial

theorem allows_any (s : Engine) (input : Input) : ({} : Policy).Allows s input := by
  have lenient : ({} : Policy).Lenient := by
    constructor <;> intros <;> trivial
  exact lenient.allows trivial trivial (fun _ _ => trivial) input fun _ _ _ => trivial

theorem along_any (s : Engine) (inputs : List Input) :
    Runs.Along step ({} : Policy).Allows s inputs := by
  induction inputs generalizing s with
  | nil => trivial
  | cons input inputs ih => exact ⟨allows_any s input, ih _⟩

theorem run_sound (config : EngineConfig) (inputs : List Input) :
    (Custody.rest (run config inputs)).Sound :=
  invariant_of_moves (p := {}) Custody.Sound (fun _ _ move => move.sound) (spawn_sound config)
    (along_any _ inputs)

/-! The configuration never changes. -/

theorem append_config (s : Engine) (now : Instant) (append : Append) :
    (s.append now append).config = s.config := by
  unfold Engine.append
  dsimp only
  split <;> rfl

theorem Move.config {p : Policy} (move : Move p c c') : c'.engine.config = c.engine.config := by
  cases move with
  | append => exact append_config ..
  | setIdentity => exact (setIdentity_frame ..).2.2.2
  | split => exact (splitBatch_frame ..).2.2
  | _ => rfl

theorem run_config (config : EngineConfig) (inputs : List Input) :
    (run config inputs).config = config :=
  invariant_of_moves (p := {}) (fun c => c.engine.config = config)
    (fun _ _ move before => move.config.trans before) rfl (along_any _ inputs)

end Krafka.Producer
