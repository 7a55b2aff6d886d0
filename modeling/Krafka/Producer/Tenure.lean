import Krafka.Producer.Refinement

/-! The identity side of the engine: under which identity it stamps, and how far each
partition's sequence has come. What batches hold is left to the ledger; the two meet in the
trace. -/

namespace Krafka.Producer

open Function Engine

structure Tenure where
  mode : Mode
  identity : IdentityState
  generation : Nat
  reinit : Bool
  unresolved : Nat
  seq : PartitionKey → PartitionSeq
  trace : List Event

def Engine.tenure (s : Engine) : Tenure where
  mode := s.mode
  identity := s.identity
  generation := s.generation
  reinit := s.reinit
  unresolved := s.stampedUnresolved
  seq key := (s.queue key).seq
  trace := s.trace

def Event.Routine : Event → Prop
  | .stamped _ _ _ | .identified _ => False
  | _ => True

inductive Turn (p : Policy) : Tenure → Tenure → Prop
  | quiet {t : Tenure} (events : List Event) (unresolved : Nat)
      (routine : ∀ event ∈ events, event.Routine) (fewer : unresolved ≤ t.unresolved) :
      Turn p t { t with unresolved, trace := t.trace ++ events }
  | stamp {t : Tenure} {identity : Identity} {stamp : BatchIdentity} {seq : PartitionSeq}
      (records : List RecordData) (broker : Int) (sent : WireBatch)
      (mode : t.mode.hasIdentity) (ready : t.identity = .ready identity)
      (next : (t.seq sent.key).stamp identity (min records.length (sequenceSpace - 1)) =
        (stamp, seq)) :
      Turn p t { t with
        unresolved := t.unresolved + 1
        seq := update t.seq sent.key seq
        trace := t.trace ++ [Event.stamped sent.key stamp records, .handed broker sent] }
  | bump {s : Engine} {identity next : Identity} (ready : s.identity = .ready identity)
      (clear : s.stampedUnresolved = 0) (bumped : identity.bumped (s.generation + 1) = some next)
      (allowed : p.bump s) :
      Turn p s.tenure { s.tenure with
        generation := s.generation + 1
        identity := .ready next
        trace := s.trace ++ [Event.identified next] }
  | reinit {s : Engine} (due : s.identity = .init ∨
        ∃ identity, s.identity = .ready identity ∧ s.stampedUnresolved = 0) (allowed : p.bump s) :
      Turn p s.tenure { s.tenure with identity := .init, reinit := true }
  | reinitDone {t : Tenure} : Turn p t { t with reinit := false }
  | adopt {s : Engine} (producerId epoch : Int) (running : s.reinit)
      (allowed : p.adopt s producerId epoch) :
      Turn p s.tenure { s.tenure with
        reinit := false
        generation := s.generation + 1
        identity := .ready { producerId, epoch, generation := s.generation + 1 }
        trace := s.trace ++ [Event.identified { producerId, epoch, generation := s.generation + 1 }] }
  | setIdentity {s : Engine} (producerId epoch : Int) (tv2 : Bool) (allowed : p.setIdentity s) :
      Turn p s.tenure (s.setIdentity producerId epoch tv2).tenure
  | die {t : Tenure} (error : KrafkaError) : Turn p t { t with identity := .fatal error }
  | prune {s : Engine} (allowed : p.prune s) : Turn p s.tenure s.prune.tenure

variable {p : Policy}

section Queues

variable {s s' : Engine} {key : PartitionKey} {queue queue' : PartitionQueue}

theorem seq_setQueue (s : Engine) (key : PartitionKey) (queue : PartitionQueue) :
    (s.setQueue key queue).tenure.seq = update s.tenure.seq key queue.seq := by
  funext k
  show ((s.setQueue key queue).queue k).seq = _
  rw [queue_setQueue, update_apply, update_apply]
  split_ifs <;> rfl

theorem seq_keep (present : s.partitions.lookup key = some queue) (same : queue'.seq = queue.seq) :
    (s.setQueue key queue').tenure.seq = s.tenure.seq := by
  rw [seq_setQueue, same, ← queue_of_lookup present]
  exact update_eq_self ..

theorem seq_modifyQueue (key : PartitionKey) {f : PartitionQueue → PartitionQueue}
    (keeps : ∀ queue, (f queue).seq = queue.seq) :
    (s.modifyQueue key f).tenure.seq = s.tenure.seq := by
  cases present : s.partitions.lookup key with
  | none =>
    simp only [modifyQueue, present]
  | some queue =>
    rw [modifyQueue_of_lookup present]
    exact seq_keep present (keeps queue)

theorem seq_popHead {left : PartitionQueue} {batch : Batch}
    (head : queue.popHead = some (batch, left)) : left.seq = queue.seq := by
  unfold PartitionQueue.popHead at head
  split at head
  · cases head
    rfl
  · obtain ⟨_, _, same⟩ := Option.map_eq_some_iff.mp head
    cases same
    rfl

end Queues

section Quiet

variable {s s' : Engine}

theorem turn_quiet (events : List Event) (trace : s'.trace = s.trace ++ events)
    (routine : ∀ event ∈ events, event.Routine) (seq : s'.tenure.seq = s.tenure.seq)
    (fewer : s'.stampedUnresolved ≤ s.stampedUnresolved)
    (same : (s'.mode, s'.identity, s'.generation, s'.reinit) =
      (s.mode, s.identity, s.generation, s.reinit)) : Turn p s.tenure s'.tenure := by
  obtain ⟨mode, identity, generation, reinit⟩ : s'.mode = s.mode ∧ s'.identity = s.identity ∧
      s'.generation = s.generation ∧ s'.reinit = s.reinit := by simpa using same
  have after : s'.tenure = { s.tenure with
      unresolved := s'.stampedUnresolved
      trace := s.trace ++ events } := by
    rw [← trace]
    show Tenure.mk .. = Tenure.mk ..
    rw [mode, identity, generation, reinit]
    exact congrArg (Tenure.mk _ _ _ _ _ · _) seq
  rw [after]
  exact Turn.quiet events _ routine fewer

theorem routine_answers {key : PartitionKey} {batch : Batch}
    {result : Nat → RecordData → Result RecordMetadata} :
    ∀ event ∈ answers key batch result, event.Routine :=
  forall_answers fun _ _ _ _ => trivial

theorem routine_of_stamp {key : PartitionKey} {batch : Batch} : ∀ event ∈ batch.stamp.toList.map
    fun stamp => Event.retracted key stamp batch.records, event.Routine := by
  intro event told
  obtain ⟨stamp, _, rfl⟩ := List.mem_map.mp told
  trivial

theorem turn_append (now : Instant) (append : Append) :
    Turn p s.tenure (s.append now append).tenure := by
  rcases s.append_cases now append with ⟨error, -, same⟩ | ⟨-, after, accepted, same⟩
  · rw [same]
    exact turn_quiet _ rfl (by simp [Event.Routine]) rfl le_rfl rfl
  · rw [same]
    refine turn_quiet _ rfl (by simp [Event.Routine]) ?_ le_rfl rfl
    refine (seq_setQueue s append.key _).trans ?_
    rw [((s.queue append.key).accept_spec accepted).2.1]
    exact update_eq_self ..

theorem turn_splitBatch (key : PartitionKey) (batch : Batch) (bump : Bool) :
    Turn p s.tenure (s.splitBatch key batch bump).tenure := by
  have fewer : s.stampedUnresolved - batch.stampCount ≤ s.stampedUnresolved := Nat.sub_le ..
  unfold splitBatch
  dsimp only
  split
  · refine turn_quiet _ rfl routine_of_stamp ?_ fewer rfl
    exact seq_modifyQueue key fun _ => rfl
  · exact turn_quiet _ rfl routine_of_stamp rfl fewer rfl

end Quiet

theorem Move.turn {c c' : Custody} (move : Move p c c') :
    Turn p c.engine.tenure c'.engine.tenure := by
  have quiet : ∀ {s s' : Engine}, s'.trace = s.trace → s'.tenure.seq = s.tenure.seq →
      s'.stampedUnresolved = s.stampedUnresolved →
      (s'.mode, s'.identity, s'.generation, s'.reinit) =
        (s.mode, s.identity, s.generation, s.reinit) → Turn p s.tenure s'.tenure :=
    fun trace seq unresolved same =>
      turn_quiet [] (by simpa using trace) (by simp) seq unresolved.le same
  cases move with
  | append now append => exact turn_append now append
  | sealOpen key => exact quiet rfl (seq_modifyQueue key fun _ => rfl) rfl rfl
  | takeUnsent key present | takeExpired now key present | retry wait error present =>
    exact quiet rfl (seq_keep present rfl) rfl rfl
  | fail key | @acknowledge s wire key =>
    refine turn_quiet _ rfl (List.forall_mem_cons.mpr ⟨trivial, routine_answers⟩) ?_
      (Nat.sub_le ..) rfl
    exact seq_modifyQueue key fun _ => rfl
  | answerInFlight key =>
    exact turn_quiet _ rfl routine_answers (seq_modifyQueue key fun _ => rfl) le_rfl rfl
  | bump ready requested clear bumped allowed => exact Turn.bump ready clear bumped allowed
  | reinit idle due allowed => exact Turn.reinit due allowed
  | reinitDone => exact Turn.reinitDone
  | adopt producerId epoch running allowed => exact Turn.adopt producerId epoch running allowed
  | setIdentity producerId epoch tv2 allowed => exact Turn.setIdentity producerId epoch tv2 allowed
  | die error => exact Turn.die error
  | gate => exact turn_quiet [_] rfl (by simp [Event.Routine]) rfl le_rfl rfl
  | putBack key present head =>
    have same := seq_popHead head
    exact quiet rfl (seq_keep present same) rfl rfl
  | handOut broker key present free head =>
    have same := seq_popHead head
    exact turn_quiet [_] rfl (by simp [Event.Routine]) (seq_keep present same) le_rfl rfl
  | @stampOut s wire broker key queue left batch identity present free head fresh mode ready =>
    have next : (s.tenure.seq key).stamp identity (min batch.records.length (sequenceSpace - 1)) =
        left.seq.stamp identity (min batch.len (sequenceSpace - 1)) := by
      rw [seq_popHead head, ← queue_of_lookup present]
      rfl
    have seq : (s.stampOut broker key identity batch left).1.tenure.seq =
        update s.tenure.seq key (left.seq.stamp identity (min batch.len (sequenceSpace - 1))).2 :=
      seq_setQueue s key _
    have trace : (s.stampOut broker key identity batch left).1.trace = s.trace ++
        [Event.stamped key (left.seq.stamp identity (min batch.len (sequenceSpace - 1))).1 batch.records,
          .handed broker (s.stampOut broker key identity batch left).2] := List.append_assoc ..
    have after : (s.stampOut broker key identity batch left).1.tenure = Tenure.mk .. := congrArg₂
      (Tenure.mk s.mode s.identity s.generation s.reinit (s.stampedUnresolved + 1)) seq trace
    show Turn p s.tenure (s.stampOut broker key identity batch left).1.tenure
    rw [after]
    exact Turn.stamp batch.records broker (s.stampOut broker key identity batch left).2 mode ready
      next
  | startRequest | finishRequest | skipResult | condemn | reorder | book =>
    exact quiet rfl rfl rfl rfl
  | endAttempt sent encoded outcome carried present =>
    exact turn_quiet [_] rfl (by simp [Event.Routine]) (seq_keep present rfl) le_rfl rfl
  | @restamp s wire key =>
    refine turn_quiet _ rfl routine_of_stamp ?_ (Nat.sub_le ..) rfl
    exact seq_modifyQueue key fun _ => rfl
  | split bump => exact turn_splitBatch _ _ bump
  | prune allowed => exact Turn.prune allowed

end Krafka.Producer
