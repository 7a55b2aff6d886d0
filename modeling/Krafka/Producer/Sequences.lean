import Krafka.Producer.Unresolved

/-! The sequence numbers of the idempotent producer: under one producer id and epoch, each
batch of a partition starts where the one before it ended. -/

namespace Krafka.Producer

open List Function Engine

def Event.allots (key : PartitionKey) (producerId epoch : Int) : Event → Nat
  | .stamped k stamp records =>
    if k = key ∧ stamp.producerId = producerId ∧ stamp.epoch = epoch then records.length else 0
  | _ => 0

def allotted (key : PartitionKey) (producerId epoch : Int) (history : List Event) : Nat :=
  (history.map (Event.allots key producerId epoch)).sum

/-- A batch is stamped with the sequence after the last one handed out under its producer id
and epoch. -/
def NextInSequence (before : List Event) : Event → Prop
  | .stamped key stamp _ =>
    stamp.baseSequence = allotted key stamp.producerId stamp.epoch before % sequenceSpace
  | _ => True

def Event.short : Event → Bool
  | .stamped _ _ records => records.length < sequenceSpace
  | _ => true

def ShortBatches (history : List Event) : Prop := ∀ event ∈ history, event.short = true

section History

variable (key : PartitionKey) (producerId epoch : Int) (history more : List Event)

theorem allotted_append : allotted key producerId epoch (history ++ more) =
    allotted key producerId epoch history + allotted key producerId epoch more := by
  simp only [allotted, map_append, sum_append]

variable {more}

theorem allotted_routine (routine : ∀ event ∈ more, event.Routine) :
    allotted key producerId epoch more = 0 := by
  induction more with
  | nil => rfl
  | cons event more ih =>
    have rest := ih fun other mem => routine other (mem_cons_of_mem _ mem)
    have first : event.allots key producerId epoch = 0 := by
      have := routine event mem_cons_self
      cases event <;> first | rfl | exact this.elim
    rw [allotted, map_cons, sum_cons, first, Nat.zero_add]
    exact rest

variable {key producerId epoch history}

theorem allotted_eq_zero (fresh : ∀ stamp records, .stamped key stamp records ∈ history →
    ¬(stamp.producerId = producerId ∧ stamp.epoch = epoch)) :
    allotted key producerId epoch history = 0 := by
  induction history with
  | nil => rfl
  | cons event history ih =>
    have rest := ih fun stamp records mem => fresh stamp records (mem_cons_of_mem _ mem)
    have first : event.allots key producerId epoch = 0 := by
      cases event with
      | stamped k stamp records =>
        refine if_neg ?_
        rintro ⟨rfl, other⟩
        exact fresh stamp records mem_cons_self other
      | _ => rfl
    rw [allotted, map_cons, sum_cons, first, Nat.zero_add]
    exact rest

theorem throughout_routine (before : Runs.Throughout NextInSequence history)
    (routine : ∀ event ∈ more, event.Routine) :
    Runs.Throughout NextInSequence (history ++ more) := by
  refine Runs.throughout_append.mpr ⟨before, Runs.throughout_of_forall fun event mem _ => ?_⟩
  have := routine event mem
  cases event <;> trivial

end History

structure Tenure.Sequenced (t : Tenure) : Prop where
  history : Runs.Throughout NextInSequence t.trace
  generations : ∀ key, (t.seq key).generation ≤ t.generation
  current : ∀ identity, t.identity = .ready identity → identity.generation = t.generation
  epochs : ∀ identity, t.identity = .ready identity → ∀ key stamp records,
    .stamped key stamp records ∈ t.trace → stamp.producerId = identity.producerId →
      stamp.epoch ≤ identity.epoch
  next : ∀ identity, t.identity = .ready identity → ∀ key, (t.seq key).start identity =
    allotted key identity.producerId identity.epoch t.trace % sequenceSpace

/-- A producer id from `InitProducerId` is one that nothing was stamped under, and no trimmed
partition was stamped under the current identity. -/
def sequential : Policy where
  adopt := fun s producerId _ => ∀ key stamp records,
    .stamped key stamp records ∈ s.trace → stamp.producerId ≠ producerId
  prune := fun s => s.trims = true → ∀ key queue, s.partitions.lookup key = some queue →
    key ∉ s.busy.keys → queue.lastAckedOffset = none → queue.seq.generation ≠ s.generation

variable {identity : Identity}

theorem PartitionSeq.start_of_stale {seq : PartitionSeq}
    (stale : seq.generation < identity.generation) : seq.start identity = 0 :=
  if_neg (Nat.ne_of_lt stale)

variable {t : Tenure}

theorem sequenced_stamp {stamp : BatchIdentity}
    {seq : PartitionSeq} {records : List RecordData} {broker : Int} {sent : WireBatch}
    (sequenced : t.Sequenced) (ready : t.identity = .ready identity)
    (next : (t.seq sent.key).stamp identity (min records.length (sequenceSpace - 1)) = (stamp, seq))
    (short : records.length < sequenceSpace) :
    ({ t with
      unresolved := t.unresolved + 1
      seq := update t.seq sent.key seq
      trace := t.trace ++ [Event.stamped sent.key stamp records, .handed broker sent] } :
        Tenure).Sequenced := by
  have count : min records.length (sequenceSpace - 1) = records.length := by omega
  have start := sequenced.next identity ready sent.key
  have generation := sequenced.current identity ready
  rw [count, PartitionSeq.stamp, start, Prod.mk.injEq] at next
  obtain ⟨rfl, rfl⟩ := next
  -- what the two new events add to the records stamped so far
  have added (key : PartitionKey) (producerId epoch : Int) :
      allotted key producerId epoch [.stamped sent.key ⟨identity.producerId, identity.epoch,
          allotted sent.key identity.producerId identity.epoch t.trace % sequenceSpace,
          identity.generation⟩ records, .handed broker sent] =
        if sent.key = key ∧ identity.producerId = producerId ∧ identity.epoch = epoch then
          records.length else 0 := by
    simp [allotted, Event.allots]
  refine ⟨?_, fun key => ?_, sequenced.current, fun identity' same key stamp records' mem => ?_,
    fun identity' same key => ?_⟩
  · rw [append_cons]
    exact Runs.throughout_concat.mpr
      ⟨Runs.throughout_concat.mpr ⟨sequenced.history, rfl⟩, trivial⟩
  · dsimp only
    rw [update_apply]
    split_ifs
    · exact generation.le
    · exact sequenced.generations key
  · obtain rfl : identity = identity' := IdentityState.ready.inj (ready.symm.trans same)
    rcases mem_append.mp mem with mem | mem
    · exact sequenced.epochs identity ready key stamp records' mem
    · rcases mem_pair.mp mem with same | same
      · cases same
        exact fun _ => le_rfl
      · cases same
  · obtain rfl : identity = identity' := IdentityState.ready.inj (ready.symm.trans same)
    dsimp only
    rw [allotted_append, added, update_apply]
    by_cases here : key = sent.key
    · subst here
      simp only [if_true, and_self, PartitionSeq.start, nextSequence]
      exact Nat.mod_add_mod ..
    · have before := sequenced.next identity ready key
      rw [if_neg here, if_neg fun both => here both.1.symm, Nat.add_zero]
      exact before

theorem sequenced_identity (sequenced : t.Sequenced)
    (reinit : Bool) (generation : identity.generation = t.generation + 1)
    (older : ∀ key stamp records, .stamped key stamp records ∈ t.trace →
      stamp.producerId = identity.producerId → stamp.epoch < identity.epoch) :
    ({ t with
      reinit
      generation := t.generation + 1
      identity := .ready identity
      trace := t.trace ++ [Event.identified identity] } : Tenure).Sequenced := by
  have before {key : PartitionKey} {stamp : BatchIdentity} {records : List RecordData}
      (mem : .stamped key stamp records ∈ t.trace ++ [Event.identified identity]) :
      .stamped key stamp records ∈ t.trace := by
    rcases mem_append.mp mem with mem | mem
    · exact mem
    · exact nomatch mem_singleton.mp mem
  refine ⟨Runs.throughout_concat.mpr ⟨sequenced.history, trivial⟩, fun key => ?_, ?_, ?_, ?_⟩
  · exact (sequenced.generations key).trans (Nat.le_succ _)
  · rintro _ ⟨⟩
    exact generation
  · rintro _ ⟨⟩ key stamp records mem own
    exact (older key stamp records (before mem) own).le
  · rintro _ ⟨⟩ key
    have none : allotted key identity.producerId identity.epoch
        (t.trace ++ [Event.identified identity]) = 0 := by
      apply allotted_eq_zero
      intro stamp records mem both
      have := older key stamp records (before mem) both.1
      omega
    have stale : (t.seq key).generation < identity.generation := by
      have := sequenced.generations key
      omega
    rw [none]
    exact PartitionSeq.start_of_stale stale

theorem Turn.sequenced {t' : Tenure} (turn : Turn sequential t t')
    (mode : t'.mode = .idempotent) (short : ShortBatches t'.trace) (sequenced : t.Sequenced) :
    t'.Sequenced := by
  cases turn with
  | quiet events unresolved routine =>
    refine ⟨throughout_routine sequenced.history routine, sequenced.generations,
      sequenced.current, fun identity ready key stamp records mem => ?_,
      fun identity ready key => ?_⟩
    · rcases mem_append.mp mem with mem | mem
      · exact sequenced.epochs identity ready key stamp records mem
      · exact (routine _ mem).elim
    · have before := sequenced.next identity ready key
      rw [allotted_append, allotted_routine _ _ _ routine]
      exact before
  | stamp records broker sent identified ready next =>
    apply sequenced_stamp sequenced ready next
    have counted := short _ (mem_append_right _ mem_cons_self)
    exact of_decide_eq_true counted
  | @bump s identity next ready clear bumped =>
    obtain ⟨same, epoch⟩ := Identity.epoch_of_bumped bumped
    apply sequenced_identity sequenced s.reinit (Identity.generation_of_bumped bumped)
    intro key stamp records mem own
    have := sequenced.epochs identity ready key stamp records mem (own.trans same)
    omega
  | adopt producerId epoch running allowed =>
    apply sequenced_identity sequenced false rfl
    intro key stamp records mem own
    exact absurd own (allowed key stamp records mem)
  | setIdentity => exact nomatch mode_setIdentity.symm.trans mode
  | reinit | die =>
    exact ⟨sequenced.history, sequenced.generations, (fun _ same => nomatch same),
      (fun _ same => nomatch same), (fun _ same => nomatch same)⟩
  | reinitDone =>
    exact ⟨sequenced.history, sequenced.generations, sequenced.current, sequenced.epochs,
      sequenced.next⟩
  | @prune s allowed =>
    refine ⟨sequenced.history, fun key => ?_, sequenced.current, sequenced.epochs,
      fun identity ready key => ?_⟩
    · show (s.prune.queue key).seq.generation ≤ s.generation
      rcases queue_prune s key with same | ⟨gone, _⟩
      · rw [same]
        exact sequenced.generations key
      · rw [gone]
        exact Nat.zero_le _
    · show (s.prune.queue key).seq.start identity = _
      have before : (s.queue key).seq.start identity = _ := sequenced.next identity ready key
      rcases queue_prune s key with same | ⟨gone, trims, queue, present, idle, unacked⟩
      · rw [same]
        exact before
      · -- a trimmed counter starts again at zero, where it stood for this identity anyway
        have stale := allowed trims key queue present idle unacked
        rw [queue_of_lookup present] at before
        have zero : queue.seq.start identity = 0 := by
          apply if_neg
          rw [sequenced.current identity ready]
          exact stale
        have restart : PartitionSeq.start {} identity = 0 := by
          unfold PartitionSeq.start
          split_ifs <;> rfl
        rw [gone]
        exact restart.trans (zero.symm.trans before)

theorem spawn_sequenced (config : EngineConfig) : (spawn config).tenure.Sequenced := by
  refine ⟨Runs.throughout_nil _, fun _ => Nat.zero_le _, fun identity ready => ?_,
    fun _ _ _ _ _ mem => (nomatch mem), fun identity _ key => ?_⟩
  · exact (spawn_exact config).settled.current identity ready
  · show PartitionSeq.start {} identity = 0
    unfold PartitionSeq.start
    split_ifs <;> rfl

/-- Under a producer id and epoch the base sequences of a partition are the running sums of
the record counts: in every run that trims no partition stamped under the current identity
and whose new producer ids are fresh. -/
theorem sequences_are_contiguous (config : EngineConfig) (inputs : List Input)
    (mode : (run config inputs).mode = .idempotent) (short : ShortBatches (run config inputs).trace)
    (allowed : Runs.Along step sequential.Allows (spawn config) inputs) :
    Runs.Throughout NextInSequence (run config inputs).trace := by
  have kept := run_invariant
    (fun c => c.engine.mode = .idempotent → ShortBatches c.engine.trace → c.engine.tenure.Sequenced)
    (fun c c' move _ effect before mode short => ?_) (fun _ _ => spawn_sequenced config) allowed
  · exact (kept mode short).history
  · have earlier : ShortBatches c.engine.trace := by
      obtain ⟨events, trace⟩ := effect.grows
      intro event mem
      apply short event
      rw [show c'.engine.trace = c.engine.trace ++ events from trace]
      exact mem_append_left _ mem
    exact move.turn.sequenced mode short (before (move.turn.mode mode) earlier)

theorem sequences_of_two_batches : Runs.Throughout NextInSequence (run (sampleConfig .idempotent)
    [sampleAppend, sampleDrain, sampleDone 0 (.answer .none 5 (-1) (-1)), sampleAppend,
      sampleDrain]).trace := by
  refine sequences_are_contiguous _ _ rfl ?_ ⟨trivial, trivial, ?_, trivial, trivial, trivial⟩
  · unfold ShortBatches
    decide
  · exact fun _ => ⟨by simp [Policy.AllowsError, sequential], ⟨trivial, trivial⟩,
      fun trims => absurd trims (by decide)⟩

/-! A producer of many partitions

The first partition's only batch is acknowledged without an offset. When the producer has
written to 1024 others, `prune` forgets the first one's counter, and its next batch starts
at sequence 0 again. -/

section ManyPartitions

def parked (partitions : AList fun _ : PartitionKey => PartitionQueue)
    (active : KeySet PartitionKey) (brokers : Int → Nat) (requests : List Request)
    (unresolved : Nat) (trace : List Event) (arrivals started : Nat) : Engine :=
  { config := sampleConfig .idempotent
    mode := .idempotent
    identity := .ready ⟨7, 0, 1⟩
    stampedUnresolved := unresolved
    partitions, active, brokers, requests, trace, arrivals, started }

def only (key : PartitionKey) : KeySet PartitionKey := ⟨[key], nodup_singleton _⟩

def writeTo (serial : Nat) (partition : Int) : List Input :=
  [appendTo partition, sampleDrain, .complete 0 (fun _ => 0) serial
    [{ key := ("t", partition), outcome := .answer .none 0 (-1) (-1) }]]

def batchOf (tag : Nat) : Batch :=
  { records := [{ tag }], waiters := some [{ tag }], bytes := 1, created := 0, deadline := 100 }

def firstStamp : BatchIdentity := ⟨7, 0, 0, 1⟩

def firstWire (partition : Int) (tag : Nat) : WireBatch :=
  { key := ("t", partition), records := [{ tag }], stamp := some firstStamp, encoded := none
    estimated := 1 }

def sentBatch (tag : Nat) : Batch := { batchOf tag with stamp := some firstStamp, attempts := 1 }

def sentQueue (tag : Nat) : PartitionQueue := { inFlight := some (sentBatch tag), seq := ⟨1, 1⟩ }

def ackedQueue : PartitionQueue := { seq := ⟨1, 1⟩, lastAckedOffset := some 0 }

variable (partitions : AList fun _ : PartitionKey => PartitionQueue) (brokers : Int → Nat)
  (trace : List Event) (arrivals serial : Nat) (partition : Int)

theorem parked_append (absent : partitions.lookup ("t", partition) = none) :
    (parked partitions KeySet.empty brokers [] 0 trace arrivals serial).step (appendTo partition) =
      parked (partitions.insert ("t", partition) { openBatch := some (batchOf arrivals) })
        (only ("t", partition)) brokers [] 0
        (trace ++ [Event.arrived ("t", partition) { tag := arrivals },
          .appended ("t", partition) { tag := arrivals }]) (arrivals + 1) serial := by
  show (parked partitions KeySet.empty brokers [] 0 trace arrivals serial).append 0 _ = _
  simp only [Engine.append, Append.key, Engine.queue, setQueue, emit, parked, absent,
    append_assoc]
  rfl

theorem parked_drain (tag : Nat) (room : brokers 1 = 0)
    (present : partitions.lookup ("t", partition) = some { openBatch := some (batchOf tag) }) :
    (parked partitions (only ("t", partition)) brokers [] 0 trace arrivals serial).step sampleDrain =
      parked (partitions.insert ("t", partition) (sentQueue tag)) (only ("t", partition))
        (update brokers 1 1) [⟨serial, 1, [firstWire partition tag]⟩] 1
        (trace ++ [Event.stamped ("t", partition) firstStamp [{ tag }],
          .handed 1 (firstWire partition tag)]) arrivals (serial + 1) := by
  show (parked partitions (only ("t", partition)) brokers [] 0 trace arrivals serial).drain 0
    (fun _ => some 1) (fun _ => 0) = _
  set s := parked partitions (only ("t", partition)) brokers [] 0 trace arrivals serial with s_eq
  have found : s.partitions.lookup ("t", partition) = some { openBatch := some (batchOf tag) } :=
    present
  have bump : s.applyBump = s := rfl
  have send : s.sendable 0 ("t", partition) := by
    unfold sendable
    rw [found]
    rfl
  have target : s.target (fun _ => some 1) ("t", partition) = some (1, ("t", partition)) := by
    simp [Engine.target, s_eq, parked, room, maxInFlightPerBroker]
  have ready : s.readyKeys 0 (fun _ => some 1) = [(1, ("t", partition))] := by
    show ([("t", partition)].filter (s.sendable 0)).filterMap (s.target fun _ => some 1) = _
    simp [send, target]
  have leaderless : s.leaderless 0 (fun _ => some 1) = [] := by
    simp [Engine.leaderless]
  have refresh : s.requestRefresh [] 0 (fun _ => 0) = s := rfl
  have fill : fillRequest (some ⟨7, 0, 1⟩) 1 [("t", partition)] s [] perBatchOverhead =
      ((s.stampOut 1 ("t", partition) ⟨7, 0, 1⟩ (batchOf tag) {}).1,
        [(s.stampOut 1 ("t", partition) ⟨7, 0, 1⟩ (batchOf tag) {}).2]) := by
    unfold fillRequest
    simp only [found]
    rfl
  have sends : drainBroker (some ⟨7, 0, 1⟩) [(1, ("t", partition))] s 1 =
      (s.stampOut 1 ("t", partition) ⟨7, 0, 1⟩ (batchOf tag) {}).1.startRequest 1
        [(s.stampOut 1 ("t", partition) ⟨7, 0, 1⟩ (batchOf tag) {}).2] := by
    have keys : ((([(1, ("t", partition))] : List (Int × PartitionKey)).filter (·.1 = 1)).map
        (·.2)).insertionSort (fun a b => a.1 < b.1 ∨ a.1 = b.1 ∧ a.2 ≤ b.2) = [("t", partition)] := rfl
    simp only [drainBroker, keys, fill]
    rfl
  unfold drain
  simp only [bump, ready, leaderless, refresh]
  refine Eq.trans sends ?_
  simp only [stampOut, stampHead, handOut, startRequest, setQueue, emit, s_eq, parked, room,
    append_assoc]
  rfl

theorem completeResult_of_success {s : Engine} {now : Instant} {delay : Nat → Duration}
    {key : PartitionKey} {queue : PartitionQueue} {batch : Batch} (offset time start : Int)
    (present : s.partitions.lookup key = some queue) (slot : queue.inFlight = some batch) :
    completeResult now delay s { key, outcome := .answer .none offset time start } =
      (s.endAttempt key queue batch (.answer .none offset time start)).acknowledge key
        (batch.marked (.answer .none offset time start)) offset time .offset := by
  unfold completeResult
  simp only [present, slot]
  rfl

theorem parked_complete (tag : Nat)
    (present : partitions.lookup ("t", partition) = some (sentQueue tag)) :
    ∃ more, allotted sampleKey 7 0 more = 0 ∧
      (parked partitions (only ("t", partition)) brokers [⟨serial, 1, [firstWire partition tag]⟩] 1
        trace arrivals (serial + 1)).step (.complete 0 (fun _ => 0) serial
          [{ key := ("t", partition), outcome := .answer .none 0 (-1) (-1) }]) =
      (parked (partitions.insert ("t", partition) ackedQueue) (only ("t", partition))
        (update brokers 1 (brokers 1 - 1)) [] 0 (trace ++ more) arrivals (serial + 1)).prune := by
  set s := parked partitions (only ("t", partition)) brokers [⟨serial, 1, [firstWire partition tag]⟩]
    1 trace arrivals (serial + 1) with s_eq
  refine ⟨.ended ("t", partition) [{ tag }] (some firstStamp) (.answer .none 0 (-1) (-1)) ::
    .acknowledged ("t", partition) [{ tag }] :: answers ("t", partition) (batchOf tag) fun index data =>
      .ok (ackMetadata ("t", partition) 0 (-1) .offset index data), rfl, ?_⟩
  have found : s.requests.find? (·.serial = serial) = some ⟨serial, 1, [firstWire partition tag]⟩ := by
    simp [s_eq, parked]
  have answered : Request.AnsweredBy ⟨serial, 1, [firstWire partition tag]⟩
      [{ key := ("t", partition), outcome := .answer .none 0 (-1) (-1) }] := List.Perm.refl _
  have erased : s.requests.erase ⟨serial, 1, [firstWire partition tag]⟩ = [] := by
    simp [s_eq, parked]
  have lookup : (parked partitions (only ("t", partition)) (update brokers 1 (brokers 1 - 1)) [] 1
      trace arrivals (serial + 1)).partitions.lookup ("t", partition) = some (sentQueue tag) := present
  show s.finish 0 (fun _ => 0) serial _ = _
  unfold finish
  simp only [found, if_pos answered, erased]
  show (completeResult 0 (fun _ => 0) (parked partitions (only ("t", partition))
    (update brokers 1 (brokers 1 - 1)) [] 1 trace arrivals (serial + 1)) _).prune = _
  rw [completeResult_of_success 0 (-1) (-1) lookup rfl,
    acknowledge_of_lookup _ _ _ _ (lookup_endAttempt ..)]
  simp only [endAttempt, setQueue, emit, release, parked, AList.insert_insert, append_assoc]
  rfl

def trimmed : AList fun _ : PartitionKey => PartitionQueue :=
  if 1024 < partitions.entries.length then
    partitions.retain fun _ queue => queue.lastAckedOffset.isSome
  else partitions

theorem parked_prune (present : partitions.lookup ("t", partition) = some ackedQueue) :
    (parked partitions (only ("t", partition)) brokers [] 0 trace arrivals serial).prune =
      parked (trimmed partitions) KeySet.empty brokers [] 0 trace arrivals serial := by
  set s := parked partitions (only ("t", partition)) brokers [] 0 trace arrivals serial with s_eq
  have busy : s.busy = KeySet.empty := by
    have keys : s.busy.keys = [] := by
      show [("t", partition)].filter (fun key =>
        (s.partitions.lookup key).any fun queue => !queue.isIdle) = []
      have found : s.partitions.lookup ("t", partition) = some ackedQueue := present
      simp [found, ackedQueue, PartitionQueue.isIdle]
    exact KeySet.ext keys
  unfold prune
  simp only [trims, busy]
  simp [s_eq, parked, trimmed, KeySet.empty, KeySet.len]

theorem parked_write (absent : partitions.lookup ("t", partition) = none) (room : brokers 1 = 0)
    (other : partition ≠ 0) :
    ∃ brokers' trace', brokers' 1 = 0 ∧
      allotted sampleKey 7 0 trace' = allotted sampleKey 7 0 trace ∧
      (writeTo serial partition).foldl step
        (parked partitions KeySet.empty brokers [] 0 trace arrivals serial) =
      parked (trimmed (partitions.insert ("t", partition) ackedQueue)) KeySet.empty brokers' [] 0 trace'
        (arrivals + 1) (serial + 1) := by
  obtain ⟨told, told_eq⟩ : ∃ told, told = (trace ++
      [Event.arrived ("t", partition) { tag := arrivals },
      .appended ("t", partition) { tag := arrivals }]) ++
      [Event.stamped ("t", partition) firstStamp [{ tag := arrivals }],
        .handed 1 (firstWire partition arrivals)] := ⟨_, rfl⟩
  obtain ⟨more, silent, completed⟩ := parked_complete
    (partitions.insert ("t", partition) (sentQueue arrivals)) (update brokers 1 1) told
    (arrivals + 1) serial partition arrivals (AList.lookup_insert _)
  refine ⟨update (update brokers 1 1) 1 (update brokers 1 1 1 - 1), told ++ more, by simp, ?_, ?_⟩
  · have away : sampleKey ≠ ("t", partition) := by
      simpa [sampleKey] using other.symm
    rw [allotted_append, silent, told_eq]
    simp [allotted, Event.allots, away.symm]
  · simp only [writeTo, foldl_cons, foldl_nil]
    rw [parked_append _ _ _ _ _ _ absent,
      parked_drain _ _ _ _ _ _ arrivals room (AList.lookup_insert _), AList.insert_insert, ← told_eq,
      completed, AList.insert_insert, parked_prune _ _ _ _ _ _ (AList.lookup_insert _)]

def Crowded (count : Nat) (s : Engine) : Prop :=
  ∃ partitions brokers trace arrivals,
    s = parked partitions KeySet.empty brokers [] 0 trace arrivals (count + 1) ∧
    brokers 1 = 0 ∧ allotted sampleKey 7 0 trace = 1 ∧
    partitions.lookup sampleKey = some { seq := ⟨1, 1⟩ } ∧
    partitions.entries.length = count + 1 ∧
    ∀ later : Nat, count < later → partitions.lookup ("t", (later : Int)) = none

theorem Crowded.write {count : Nat} {s : Engine} (crowded : Crowded count s) (few : count < 1023) :
    Crowded (count + 1) ((writeTo (count + 1) (count + 1 : Nat)).foldl step s) := by
  obtain ⟨partitions, brokers, trace, arrivals, rfl, room, one, first, size, later⟩ := crowded
  have absent := later (count + 1) (Nat.lt_succ_self _)
  obtain ⟨brokers', trace', room', same, written⟩ := parked_write partitions brokers trace arrivals
    (count + 1) (count + 1 : Nat) absent room (by omega)
  have size' : (partitions.insert ("t", ((count + 1 : Nat) : Int)) ackedQueue).entries.length =
      count + 1 + 1 := by
    rw [AList.entries_insert_of_notMem (AList.lookup_eq_none.mp absent), length_cons, size]
  have kept : trimmed (partitions.insert ("t", ((count + 1 : Nat) : Int)) ackedQueue) =
      partitions.insert ("t", ((count + 1 : Nat) : Int)) ackedQueue := if_neg (by omega)
  rw [kept] at written
  refine ⟨_, brokers', trace', _, written, room', same.trans one, ?_, size', fun i above => ?_⟩
  · have away : sampleKey ≠ ("t", ((count + 1 : Nat) : Int)) := by
      simp only [sampleKey, ne_eq, Prod.mk.injEq, true_and]
      omega
    rw [AList.lookup_insert_ne away]
    exact first
  · have away : (("t", (i : Int)) : PartitionKey) ≠ ("t", ((count + 1 : Nat) : Int)) := by
      simp
      omega
    rw [AList.lookup_insert_ne away]
    exact later i (by omega)

def crowd (count : Nat) : List Input :=
  [sampleAppend, sampleDrain, sampleDone 0 (.answer .duplicateSequenceNumber (-1) (-1) (-1))] ++
    (List.range count).flatMap fun i => writeTo (i + 1) (i + 1 : Nat)

theorem crowd_succ (count : Nat) : run (sampleConfig .idempotent) (crowd (count + 1)) =
    (writeTo (count + 1) (count + 1 : Nat)).foldl step
      (run (sampleConfig .idempotent) (crowd count)) := by
  simp only [run, crowd, range_succ, flatMap_append, flatMap_cons, flatMap_nil,
    append_nil, ← append_assoc, foldl_append]

theorem crowded (count : Nat) (few : count ≤ 1023) :
    Crowded count (run (sampleConfig .idempotent) (crowd count)) := by
  induction count with
  | zero =>
    obtain ⟨partitions, brokers, trace, arrivals, reached, room, one, first, keys, size⟩ :
        ∃ partitions brokers trace arrivals,
          run (sampleConfig .idempotent) (crowd 0) =
            parked partitions KeySet.empty brokers [] 0 trace arrivals 1 ∧
          brokers 1 = 0 ∧ allotted sampleKey 7 0 trace = 1 ∧
          partitions.lookup sampleKey = some { seq := ⟨1, 1⟩ } ∧
          partitions.keys = [sampleKey] ∧ partitions.entries.length = 1 :=
      ⟨_, _, _, _, rfl, rfl, rfl, rfl, rfl, rfl⟩
    refine ⟨partitions, brokers, trace, arrivals, reached, room, one, first, size,
      fun later above => AList.lookup_eq_none.mpr fun known => ?_⟩
    rw [AList.mem_keys, keys, mem_singleton] at known
    simp only [sampleKey, Prod.mk.injEq, true_and] at known
    omega
  | succ count ih =>
    rw [crowd_succ]
    exact (ih (by omega)).write (by omega)

theorem Crowded.overflow {s : Engine} (crowded : Crowded 1023 s) :
    ∃ partitions brokers trace arrivals serial,
      (writeTo (1023 + 1) (1023 + 1 : Nat)).foldl step s =
        parked partitions KeySet.empty brokers [] 0 trace arrivals serial ∧
      brokers 1 = 0 ∧ allotted sampleKey 7 0 trace = 1 ∧ partitions.lookup sampleKey = none := by
  obtain ⟨partitions, brokers, trace, arrivals, rfl, room, one, first, size, later⟩ := crowded
  have absent := later (1023 + 1) (by omega)
  obtain ⟨brokers', trace', room', same, written⟩ := parked_write partitions brokers trace arrivals
    (1023 + 1) (1023 + 1 : Nat) absent room (by omega)
  refine ⟨_, brokers', trace', _, _, written, room', same.trans one, ?_⟩
  have away : sampleKey ≠ ("t", ((1023 + 1 : Nat) : Int)) := by
    simp [sampleKey]
  have large : 1024 <
      (partitions.insert ("t", ((1023 + 1 : Nat) : Int)) ackedQueue).entries.length := by
    rw [AList.entries_insert_of_notMem (AList.lookup_eq_none.mp absent), length_cons, size]
    omega
  rw [trimmed, if_pos large, AList.lookup_retain, AList.lookup_insert_ne away, first]
  rfl

theorem sequence_restarts : ¬Runs.Throughout NextInSequence
    (run (sampleConfig .idempotent) (crowd 1024 ++ [appendTo 0, sampleDrain])).trace := by
  rw [show 1024 = 1023 + 1 from rfl]
  intro contiguous
  obtain ⟨partitions, brokers, trace, arrivals, serial, reached, room, one, absent⟩ :=
    (crowded 1023 le_rfl).overflow
  rw [← crowd_succ] at reached
  have last := run_append (sampleConfig .idempotent) (crowd (1023 + 1)) [appendTo 0, sampleDrain]
  rw [reached, foldl_cons, foldl_cons, foldl_nil, parked_append _ _ _ _ _ _ absent,
    parked_drain _ _ _ _ _ _ arrivals room (AList.lookup_insert _)] at last
  rw [last] at contiguous
  have restarted := contiguous (trace ++ [Event.arrived sampleKey { tag := arrivals },
      .appended sampleKey { tag := arrivals }]) (.stamped sampleKey firstStamp [{ tag := arrivals }])
    [.handed 1 (firstWire 0 arrivals)] (by simp [parked, sampleKey])
  have used : allotted sampleKey 7 0 (trace ++ [Event.arrived sampleKey { tag := arrivals },
      .appended sampleKey { tag := arrivals }]) = 1 := by
    rw [allotted_append, one]
    rfl
  simp [NextInSequence, firstStamp, used, sequenceSpace] at restarted

end ManyPartitions

end Krafka.Producer
