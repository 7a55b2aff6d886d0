import Krafka.Producer.Fatal

/-! Answers for batches of an earlier epoch. A transactional producer may install its next
epoch while a batch of the last one is still in flight; `classify` looks at the mode and the
code, not at the epoch the batch was sent under. -/

namespace Krafka.Producer

open Engine

/-- The broker fenced the producer or refused it for want of authorization. -/
def BatchOutcome.Excused : BatchOutcome → Prop
  | .answer code _ _ _ => code = .producerFenced ∨ code = .transactionalIdAuthorizationFailed ∨
      code = .clusterAuthorizationFailed
  | _ => False

/-- The other codes a transactional producer takes as fatal. -/
def BatchOutcome.Condemns (tv2 : Bool) : BatchOutcome → Prop
  | .answer code _ _ _ => code = .invalidProducerEpoch ∧ tv2 = false ∨
      code = .invalidProducerIdMapping ∧ tv2 ∨ code = .unsupportedVersion
  | _ => False

/-- From `s` to `s'` only `batch` of `key` may have failed: the identity and the gate are as
they were, and so is every other batch. -/
structure Spared (s s' : Engine) (key : PartitionKey) (batch : Batch) : Prop where
  identity : s'.identity = s.identity
  history : ∃ events, s'.trace = s.trace ++ events ∧ (∀ state, .gateSet state ∉ events) ∧
    ∀ k records, .failed k records ∈ events → k = key ∧ records = batch.records
  queued : ∀ k, (s.queue k).unsent <:+ (s'.queue k).unsent
  flying : ∀ k, k ≠ key → (s'.queue k).inFlight = (s.queue k).inFlight

section Verdict

variable {s : Engine} {key : PartitionKey} {batch : Batch} {tv2 : Bool}

theorem verdict_fatal_iff (mode : s.mode = .transactional tv2) (outcome : BatchOutcome) :
    s.verdict key batch outcome = .fatal ↔ outcome.Excused ∨ outcome.Condemns tv2 := by
  cases outcome with
  | answer code baseOffset logAppendTime logStartOffset =>
    constructor
    · intro fatal
      have arm := classify_arm
        { mode := s.mode, recordCount := batch.len
          lastAckedOffset := (s.queue key).lastAckedOffset, epochRetryUsed := s.epochRetryUsed }
        { code, logStartOffset }
      rw [show classify _ _ = .fatal from fatal] at arm
      cases arm with
      | staleEpoch code late =>
        have older : tv2 = false := by simpa [mode] using late
        exact .inr (.inl ⟨code, older⟩)
      | fatal code =>
        rcases code with code | code | code | ⟨code, newer⟩ | code
        · exact .inl (.inl code)
        · exact .inl (.inr (.inl code))
        · exact .inl (.inr (.inr code))
        · have newer : tv2 = true := by simpa [mode] using newer
          exact .inr (.inr (.inl ⟨code, newer⟩))
        · exact .inr (.inr (.inr code))
    · intro named
      simp only [verdict, answerAction, mode]
      rcases named with (rfl | rfl | rfl) | ⟨rfl, rfl⟩ | ⟨rfl, rfl⟩ | rfl <;>
        simp [classify, Mode.hasIdentity]
  | unacknowledged | noAnswer => simp [verdict, BatchOutcome.Excused, BatchOutcome.Condemns]
  | notWritten =>
    simp only [verdict, BatchOutcome.Excused, BatchOutcome.Condemns]
    split_ifs <;> simp
  | tooLarge =>
    simp only [verdict, tooLargeAction, BatchOutcome.Excused, BatchOutcome.Condemns]
    split_ifs <;> simp

end Verdict

section Spared

variable {s s' : Engine} {key : PartitionKey} {batch : Batch}

def Event.Spares (key : PartitionKey) (batch : Batch) (event : Event) : Prop :=
  (∀ state, event ≠ .gateSet state) ∧
    ∀ k records, event = .failed k records → k = key ∧ records = batch.records

theorem Spared.of_attempt {queue : PartitionQueue} {outcome : BatchOutcome} (events : List Event)
    (present : s.partitions.lookup key = some queue) (identity : s'.identity = s.identity)
    (trace : s'.trace = s.trace ++ .ended key batch.records batch.stamp outcome :: events)
    (told : ∀ event ∈ events, event.Spares key batch)
    (here : queue.unsent <:+ (s'.queue key).unsent)
    (others : ∀ k, k ≠ key → ∃ wait, s'.queue k = { s.queue k with backoffUntil := wait }) :
    Spared s s' key batch := by
  have all : ∀ event ∈ .ended key batch.records batch.stamp outcome :: events,
      event.Spares key batch := List.forall_mem_cons.mpr ⟨⟨nofun, nofun⟩, told⟩
  refine ⟨identity, ⟨_, trace, fun state mem => (all _ mem).1 state rfl,
    fun k records mem => (all _ mem).2 k records rfl⟩, ?_, ?_⟩
  · intro k
    by_cases same : k = key
    · subst same
      rwa [queue_of_lookup present]
    · obtain ⟨wait, after⟩ := others k same
      rw [after]
      exact List.suffix_refl _
  · intro k other
    obtain ⟨wait, after⟩ := others k other
    rw [after]

section Outcomes

variable {queue : PartitionQueue} {outcome : BatchOutcome} {held : Batch}

theorem queue_endAttempt (k : PartitionKey) : (s.endAttempt key queue batch outcome).queue k =
    Function.update s.queue key { queue with inFlight := none } k :=
  congrFun (queue_setQueue s key _) k

theorem Spared.fail (present : s.partitions.lookup key = some queue)
    (records : held.records = batch.records) (error : KrafkaError) :
    Spared s ((s.endAttempt key queue batch outcome).fail key held error) key batch := by
  have after (k : PartitionKey) := queue_fail (s := s.endAttempt key queue batch outcome) key k held
    error
  refine .of_attempt _ present rfl (List.append_assoc ..) (List.forall_mem_cons.mpr
    ⟨⟨nofun, ?_⟩, forall_answers fun _ _ _ _ => ⟨nofun, nofun⟩⟩) ?_ ?_
  · rintro _ _ ⟨⟩
    exact ⟨rfl, records⟩
  · obtain ⟨wait, same⟩ := after key
    rw [same, queue_endAttempt, Function.update_self]
    exact List.suffix_refl _
  · intro k other
    obtain ⟨wait, same⟩ := after k
    rw [queue_endAttempt, Function.update_of_ne other] at same
    exact ⟨wait, same⟩

theorem Spared.acknowledge (present : s.partitions.lookup key = some queue)
    (baseOffset logAppendTime : Int) (delivery : DeliveryConfirmation) :
    Spared s ((s.endAttempt key queue batch outcome).acknowledge key held baseOffset logAppendTime
      delivery) key batch := by
  have after := acknowledge_of_lookup held baseOffset logAppendTime delivery
    (lookup_endAttempt s key queue batch outcome)
  have queues (k : PartitionKey) : ((s.endAttempt key queue batch outcome).acknowledge key held
      baseOffset logAppendTime delivery).queue k = Function.update s.queue key
        { queue with
          inFlight := none
          backoffUntil := none
          lastAckedOffset :=
            if 0 ≤ baseOffset then some (baseOffset + held.len - 1) else queue.lastAckedOffset } k := by
    rw [after]
    refine (congrFun (queue_setQueue _ key _) k).trans ?_
    show Function.update (s.endAttempt key queue batch outcome).queue key _ k = _
    rw [show (s.endAttempt key queue batch outcome).queue = _ from funext queue_endAttempt]
    rw [Function.update_idem]
  refine .of_attempt _ present rfl (List.append_assoc ..) (List.forall_mem_cons.mpr
    ⟨⟨nofun, nofun⟩, forall_answers fun _ _ _ _ => ⟨nofun, nofun⟩⟩) ?_ ?_
  · rw [queues, Function.update_self]
    exact List.suffix_refl _
  · intro k other
    rw [queues, Function.update_of_ne other]
    exact ⟨_, rfl⟩

theorem Spared.retryOrFail {now : Instant} {delay : Nat → Duration}
    (present : s.partitions.lookup key = some queue) (records : held.records = batch.records)
    (error : KrafkaError) (expired : Bool) :
    Spared s ((s.endAttempt key queue batch outcome).retryOrFail now delay key held error expired)
      key batch := by
  unfold Engine.retryOrFail
  split_ifs
  · exact .fail present records _
  · rw [modifyQueue_of_lookup (lookup_endAttempt ..)]
    refine .of_attempt [] present rfl rfl (List.forall_mem_nil _) ?_ ?_
    · rw [queue_setQueue, Function.update_self]
      exact List.suffix_cons _ _
    · intro k other
      rw [queue_setQueue, Function.update_of_ne other, queue_endAttempt, Function.update_of_ne other]
      exact ⟨_, rfl⟩

end Outcomes

end Spared

theorem spared_resolve {s : Engine} {tv2 : Bool} {now : Instant} {delay : Nat → Duration}
    {key : PartitionKey} {queue : PartitionQueue} {batch held : Batch} {outcome : BatchOutcome}
    (mode : s.mode = .transactional tv2) (present : s.partitions.lookup key = some queue)
    (records : held.records = batch.records)
    (mild : (s.endAttempt key queue batch outcome).verdict key (held.marked outcome) outcome ≠
      .fatal) :
    Spared s ((s.endAttempt key queue batch outcome).resolve now delay key held outcome) key
      batch := by
  have marked : (held.marked outcome).records = batch.records := by
    rw [Batch.marked_records, records]
  have transactional : (s.endAttempt key queue batch outcome).mode.isTransactional = true :=
    congrArg Mode.isTransactional mode
  have acts (action : Action) (code : ErrorCode) (baseOffset logAppendTime : Int) (expired : Bool)
      (mild : action ≠ .fatal) (unstamped : action ≠ .restamp) (whole : ∀ bump, action ≠ .split bump) :
      Spared s ((s.endAttempt key queue batch outcome).act now delay key (held.marked outcome) action
        code baseOffset logAppendTime expired) key batch := by
    cases action with
    | ack => exact .acknowledge present _ _ _
    | retry => exact .retryOrFail present marked _ _
    | restamp => exact absurd rfl unstamped
    | split bump => exact absurd rfl (whole bump)
    | fail => exact .fail present marked _
    | fatal => exact absurd rfl mild
  cases outcome with
  | unacknowledged => exact .acknowledge present _ _ _
  | answer =>
    refine acts _ _ _ _ _ mild (fun restamped => ?_) fun bump halved => ?_
    · exact nomatch mode.symm.trans (classify_restamp restamped).1
    · exact nomatch transactional.symm.trans (classify_split halved).1
  | noAnswer => exact .retryOrFail present marked _ _
  | notWritten =>
    simp only [resolve]
    split_ifs
    · exact .retryOrFail present marked _ _
    · exact .fail present marked _
  | tooLarge =>
    refine acts _ _ _ _ _ mild (fun restamped => ?_) fun bump halved => ?_
    · simp only [tooLargeAction] at restamped
      split_ifs at restamped
    · simp [tooLargeAction, transactional] at halved

/-- The answer for a batch in flight spares the identity, the gate and every other batch,
whatever epoch the batch was sent under, exactly when its code is not one of those. -/
theorem completion_spares_iff {s : Engine} {tv2 : Bool} {identity : Identity} (now : Instant)
    (delay : Nat → Duration) (result : BatchResult) {queue : PartitionQueue} {batch : Batch}
    (mode : s.mode = .transactional tv2) (ready : s.identity = .ready identity)
    (present : s.partitions.lookup result.key = some queue) (slot : queue.inFlight = some batch)
    (pardoned : ¬result.outcome.Excused) :
    Spared s (completeResult now delay s result) result.key batch ↔
      ¬result.outcome.Condemns tv2 := by
  have after : completeResult now delay s result =
      (s.endAttempt result.key queue batch result.outcome).resolve now delay result.key
        { batch with encoded := result.encoded.or batch.encoded } result.outcome := by
    simp only [completeResult, present, slot]
  have fatal : (s.endAttempt result.key queue batch result.outcome).verdict result.key
      ({ batch with encoded := result.encoded.or batch.encoded }.marked result.outcome)
      result.outcome = .fatal ↔ result.outcome.Excused ∨ result.outcome.Condemns tv2 :=
    verdict_fatal_iff (s := s.endAttempt result.key queue batch result.outcome) mode result.outcome
  rw [after]
  constructor
  · intro spared condemned
    obtain ⟨_, code, _, _, _, _, _, ends⟩ :=
      resolve_of_fatal now delay (fatal.mpr (.inr condemned))
    have dead := spared.identity
    rw [ends, identity_fatal, ready] at dead
    cases dead
  · intro harmless
    refine spared_resolve mode present rfl fun verdict => ?_
    exact (fatal.mp verdict).elim pardoned harmless

def epochChanged (tv2 : Bool) : List Input :=
  [.command 0 (.setIdentity 7 0 tv2), sampleAppend, sampleDrain, .expire 100,
    .command 0 (.setIdentity 7 1 tv2), sampleAppend]

def transactionalConfig : EngineConfig := { sampleConfig (.transactional false) with gate := true }

def staleBatch : Batch :=
  { records := [{}], waiters := none, bytes := 1, created := 0, deadline := 100
    stamp := some ⟨7, 0, 0, 2⟩, attempts := 1 }

theorem unanswered_stale_batch_spares : Spared (run transactionalConfig (epochChanged false))
    (completeResult 0 (fun _ => 0) (run transactionalConfig (epochChanged false))
      { key := sampleKey, outcome := .noAnswer (.network "reset") }) sampleKey staleBatch := by
  have ready : (run transactionalConfig (epochChanged false)).identity = .ready ⟨7, 1, 3⟩ := rfl
  exact (completion_spares_iff 0 (fun _ => 0)
    { key := sampleKey, outcome := .noAnswer (.network "reset") } rfl ready rfl rfl id).mpr id

/-- The late answer for the batch of epoch 0 ends the producer of epoch 1, and fails the
record that waits. -/
theorem stale_epoch_is_fatal :
    ((run transactionalConfig (epochChanged false)).queue sampleKey).inFlight = some staleBatch ∧
      (run transactionalConfig (epochChanged false)).identity = .ready ⟨7, 1, 3⟩ ∧
      (run transactionalConfig (epochChanged false ++
        [sampleDone 0 (.answer .invalidProducerEpoch (-1) (-1) (-1))])).identity.isFatal ∧
      .gateSet .fatal ∈ (run transactionalConfig (epochChanged false ++
        [sampleDone 0 (.answer .invalidProducerEpoch (-1) (-1) (-1))])).trace ∧
      .failed sampleKey [{ tag := 1 }] ∈ (run transactionalConfig (epochChanged false ++
        [sampleDone 0 (.answer .invalidProducerEpoch (-1) (-1) (-1))])).trace :=
  ⟨rfl, rfl, rfl, List.mem_of_getElem? (i := 11) rfl, List.mem_of_getElem? (i := 12) rfl⟩

end Krafka.Producer
