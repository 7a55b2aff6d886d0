import Krafka.Producer.Tenure

/-! The idempotent producer counts its stamped batches without a final outcome, and leaves an
identity only when the count is zero. -/

namespace Krafka.Producer

open List Function Engine

variable {p : Policy}

/-! The count -/

namespace Ledger

def Counted (l : Ledger) : Prop := l.unresolved = l.stamps + stampsOf (l.doomed.map (·.2))

def Carries (l : Ledger) (key : PartitionKey) (stamp : BatchIdentity) : Prop :=
  (∃ batch ∈ l.line key, batch.stamp = some stamp) ∨
    ∃ batch, (key, batch) ∈ l.doomed ∧ batch.stamp = some stamp

end Ledger

theorem Effect.counted {l l' : Ledger} (effect : Effect p l l') (counted : l.Counted) :
    l'.Counted := by
  unfold Ledger.Counted at counted ⊢
  cases effect with
  | @take free key kept removed =>
    have taken : (removed.map (key, ·)).map Prod.snd = removed := by
      rw [map_map]
      exact map_id _
    simp only [map_append, stampsOf_append, taken]
    omega
  | @fail free key batch doomed error first =>
    rw [first, map_cons, stampsOf_cons] at counted
    dsimp only at counted ⊢
    omega
  | stampOut => exact congrArg (· + 1) counted |>.trans (Nat.add_right_comm ..)
  | acknowledge | restamp | split =>
    dsimp only
    omega
  | condemn =>
    simp only [map_append, stampsOf_append, map_cons, map_nil, stampsOf_cons,
      stampsOf_nil]
    omega
  | _ => exact counted

theorem Batch.stampCount_eq_zero {batch : Batch} : batch.stampCount = 0 ↔ batch.stamp = none := by
  unfold Batch.stampCount
  cases batch.stamp <;> simp

theorem stampsOf_eq_zero {batches : List Batch} (zero : stampsOf batches = 0) :
    ∀ batch ∈ batches, batch.stamp = none := by
  induction batches with
  | nil => exact fun _ => nofun
  | cons first batches ih =>
    rw [stampsOf_cons, Nat.add_eq_zero_iff] at zero
    exact forall_mem_cons.mpr ⟨Batch.stampCount_eq_zero.mp zero.1, ih zero.2⟩

theorem stampsOf_line_le (s : Engine) (key : PartitionKey) :
    stampsOf (s.lines key) ≤ s.stampTotal := by
  have parts := s.stampTotal_setQueue key {}
  have none : stampsOf (PartitionQueue.batches {}) = 0 := rfl
  omega

theorem Custody.unstamped {c : Custody} (counted : c.ledger.Counted)
    (clear : c.engine.stampedUnresolved = 0) (key : PartitionKey) (stamp : BatchIdentity) :
    ¬c.ledger.Carries key stamp := by
  obtain ⟨s, wire, inHand, doomed⟩ := c
  have zero : s.stampTotal + (inHand.map (·.2.1.stampCount)).getD 0 +
      stampsOf (doomed.map (·.2)) = 0 := counted.symm.trans clear
  have lines (k : PartitionKey) : ∀ batch ∈ s.lines k, batch.stamp = none :=
    stampsOf_eq_zero (by have := stampsOf_line_le s k; omega)
  rintro (⟨batch, mem, carries⟩ | ⟨batch, mem, carries⟩)
  · have none : batch.stamp = none := by
      cases inHand with
      | none => exact lines key batch mem
      | some held =>
        have hand : held.2.1.stamp = none := Batch.stampCount_eq_zero.mp (by
          have : (Option.map (fun h : PartitionKey × Batch × BatchOutcome => h.2.1.stampCount)
            (some held)).getD 0 = held.2.1.stampCount := rfl
          omega)
        change batch ∈ update s.lines held.1 (held.2.1 :: s.lines held.1) key at mem
        rcases Lists.mem_update mem with ⟨-, placed⟩ | ⟨-, mem⟩
        · rcases mem_cons.mp placed with rfl | mem
          · exact hand
          · exact lines _ batch mem
        · exact lines key batch mem
    exact nomatch none.symm.trans carries
  · have none := stampsOf_eq_zero (by omega : stampsOf (doomed.map (·.2)) = 0) batch
      (mem_map_of_mem mem)
    exact nomatch none.symm.trans carries

/-! Which stamps are carried -/

section Carries

variable {l l' : Ledger} {key k : PartitionKey} {stamp : BatchIdentity}

theorem Ledger.Carries.before {new : List Batch} (carried : l'.Carries k stamp)
    (line : l'.line = update l.line key new)
    (known : ∀ batch ∈ new, ∀ stamp, batch.stamp = some stamp → l.Carries key stamp)
    (doomed : ∀ key batch stamp, (key, batch) ∈ l'.doomed → batch.stamp = some stamp →
      l.Carries key stamp) : l.Carries k stamp := by
  rcases carried with ⟨batch, mem, carries⟩ | ⟨batch, mem, carries⟩
  · rw [line] at mem
    rcases Lists.mem_update mem with ⟨rfl, placed⟩ | ⟨-, mem⟩
    · exact known batch placed stamp carries
    · exact .inl ⟨batch, mem, carries⟩
  · exact doomed k batch stamp mem carries

theorem Ledger.Carries.head {batch : Batch} {back : List Batch} (front : List Batch)
    (carried : l'.Carries k stamp) (head : l.line key = batch :: back)
    (line : l'.line = update l.line key (front ++ back))
    (same : ∀ new ∈ front, ∀ stamp, new.stamp = some stamp → batch.stamp = some stamp)
    (doomed : ∀ entry ∈ l'.doomed, entry ∈ l.doomed ∨ entry = (key, batch)) :
    l.Carries k stamp := by
  refine carried.before line (fun new mem stamp carries => .inl ?_)
    fun key' batch' stamp mem carries => ?_
  · rw [head]
    rcases mem_append.mp mem with mem | mem
    · exact ⟨batch, mem_cons_self, same new mem stamp carries⟩
    · exact ⟨new, mem_cons_of_mem _ mem, carries⟩
  · rcases doomed _ mem with mem | taken
    · exact .inr ⟨batch', mem, carries⟩
    · obtain ⟨rfl, rfl⟩ := Prod.mk.inj taken
      exact .inl ⟨batch', by simp [head], carries⟩

end Carries

theorem Effect.carries {l l' : Ledger} {key : PartitionKey} {stamp : BatchIdentity}
    (effect : Effect p l l') (carried : l'.Carries key stamp) :
    l.Carries key stamp ∨ ∃ records broker sent,
      l'.trace = l.trace ++ [Event.stamped key stamp records, .handed broker sent] := by
  cases effect with
  | silent | refuse => exact .inl carried
  | @accept free key record waiter size generation older last record_tag waiter_tag place fresh =>
    refine .inl (carried.before rfl (fun batch mem stamp carries => ?_)
      fun _ _ _ mem carries => .inr ⟨_, mem, carries⟩)
    rcases mem_append.mp mem with mem | mem
    · refine .inl ⟨batch, ?_, carries⟩
      rcases place with place | ⟨place, _⟩
      · simp [place, mem]
      · rwa [place]
    · rw [mem_singleton.mp mem] at carries
      exact nomatch fresh.stamp.symm.trans carries
  | @take free key kept removed stamps parts order =>
    refine .inl (carried.before rfl (fun batch mem _ carries => .inl ⟨batch, order.subset mem, carries⟩)
      fun key' batch stamp mem carries => ?_)
    rcases mem_append.mp mem with mem | mem
    · exact .inr ⟨batch, mem, carries⟩
    · obtain ⟨_, taken, same⟩ := mem_map.mp mem
      obtain ⟨rfl, rfl⟩ := Prod.mk.inj same
      exact .inl ⟨_, parts.mem_iff.mpr (mem_append_left _ taken), carries⟩
  | fail free error first =>
    refine .inl (carried.imp id ?_)
    rintro ⟨batch, mem, carries⟩
    exact ⟨batch, by rw [first]; exact mem_cons_of_mem _ mem, carries⟩
  | answer free error head | handOut free clear broker sent slot head
  | endAttempt free encoded outcome head | retry error held head =>
    exact .inl (carried.head [_] head rfl (by simp) fun _ => .inl)
  | @stampOut free clear batch back broker sent new slot head =>
    rcases carried with ⟨found, mem, carries⟩ | doomed
    · rcases Lists.mem_update mem with ⟨rfl, placed⟩ | ⟨-, mem⟩
      · rcases mem_cons.mp placed with rfl | mem
        · cases carries
          exact .inr ⟨_, _, _, rfl⟩
        · exact .inl (.inl ⟨found, by rw [head]; exact mem_cons_of_mem _ mem, carries⟩)
      · exact .inl (.inl ⟨found, mem, carries⟩)
    · exact .inl (.inr doomed)
  | acknowledge result held head =>
    exact .inl (carried.head [] head rfl (by simp) fun _ => .inl)
  | condemn held head =>
    refine .inl (carried.head [] head rfl (by simp) fun entry mem => ?_)
    exact (mem_append.mp mem).imp_right mem_singleton.mp
  | restamp held head =>
    exact .inl (carried.head [_] head rfl (by simp [Batch.unstamp]) fun _ => .inl)
  | @split key batch first second back outcome stamps held head live halves =>
    obtain ⟨rfl, rfl⟩ := Batch.split_eq halves
    exact .inl (carried.head [_, _] head rfl (by simp [Batch.half]) fun _ => .inl)

/-! The identity -/

structure Tenure.Settled (t : Tenure) : Prop where
  idle : t.identity = .init ∨ t.reinit → t.unresolved = 0
  waiting : t.reinit → t.identity.identity? = none
  current : ∀ identity, t.identity = .ready identity → identity.generation = t.generation

theorem Identity.epoch_of_bumped {identity next : Identity} {generation : Nat}
    (bumped : identity.bumped generation = some next) :
    next.producerId = identity.producerId ∧ next.epoch = identity.epoch + 1 := by
  unfold Identity.bumped at bumped
  split_ifs at bumped
  cases bumped
  exact ⟨rfl, rfl⟩

theorem Identity.generation_of_bumped {identity next : Identity} {generation : Nat}
    (bumped : identity.bumped generation = some next) : next.generation = generation := by
  unfold Identity.bumped at bumped
  split_ifs at bumped
  cases bumped
  rfl

theorem mode_setIdentity {s : Engine} {producerId epoch : Int} {tv2 : Bool} :
    (s.setIdentity producerId epoch tv2).mode = .transactional tv2 := by
  rcases s.setIdentity_eq producerId epoch tv2 with same | same <;> rw [same]
  rfl

variable {t t' : Tenure}

theorem Turn.mode (turn : Turn p t t') (mode : t'.mode = .idempotent) : t.mode = .idempotent := by
  cases turn with
  | setIdentity => exact nomatch mode_setIdentity.symm.trans mode
  | _ => exact mode

theorem Turn.settled (turn : Turn p t t') (mode : t'.mode = .idempotent)
    (settled : t.Settled) : t'.Settled := by
  cases turn with
  | quiet events unresolved routine fewer =>
    exact ⟨fun idle => Nat.le_zero.mp (settled.idle idle ▸ fewer), settled.waiting, settled.current⟩
  | stamp records broker sent identified ready =>
    have running : t.reinit ≠ true := fun running => by
      have none := settled.waiting running
      rw [ready] at none
      cases none
    refine ⟨?_, settled.waiting, settled.current⟩
    rintro (init | running')
    · cases ready.symm.trans init
    · exact absurd running' running
  | @bump s identity next ready clear bumped =>
    refine ⟨fun _ => clear, fun running => ?_, fun _ same => ?_⟩
    · have none := settled.waiting running
      rw [show s.tenure.identity = .ready identity from ready] at none
      cases none
    · cases same
      exact Identity.generation_of_bumped bumped
  | reinit due =>
    refine ⟨fun _ => ?_, fun _ => rfl, fun _ same => by cases same⟩
    rcases due with init | ⟨identity, ready, clear⟩
    · exact settled.idle (.inl init)
    · exact clear
  | reinitDone =>
    exact ⟨fun idle => settled.idle (idle.imp_right nofun), nofun, settled.current⟩
  | adopt =>
    refine ⟨?_, nofun, fun _ same => ?_⟩
    · rintro (init | running')
      · cases init
      · cases running'
    · cases same
      rfl
  | setIdentity => exact nomatch mode_setIdentity.symm.trans mode
  | die =>
    refine ⟨?_, fun _ => rfl, fun _ same => by cases same⟩
    rintro (init | running)
    · cases init
    · exact settled.idle (.inr running)
  | prune => exact ⟨settled.idle, settled.waiting, settled.current⟩

theorem Turn.generation (turn : Turn p t t') (mode : t'.mode = .idempotent)
    (settled : t.Settled) : t'.generation = t.generation ∨ t.unresolved = 0 := by
  cases turn with
  | bump ready clear => exact .inr clear
  | adopt producerId epoch running => exact .inr (settled.idle (.inr running))
  | setIdentity => exact nomatch mode_setIdentity.symm.trans mode
  | _ => exact .inl rfl

theorem Turn.stamped {key : PartitionKey} {stamp : BatchIdentity}
    {records : List RecordData} {broker : Int} {sent : WireBatch} (turn : Turn p t t')
    (mode : t'.mode = .idempotent) (settled : t.Settled)
    (trace : t'.trace = t.trace ++ [Event.stamped key stamp records, .handed broker sent]) :
    stamp.generation = t'.generation := by
  cases turn with
  | quiet events unresolved routine =>
    obtain rfl := append_cancel_left trace
    exact (routine _ mem_cons_self).elim
  | stamp records broker sent identified ready next =>
    have same := append_cancel_left trace
    simp only [List.cons.injEq, Event.stamped.injEq] at same
    obtain ⟨⟨_, rfl, _⟩, _⟩ := same
    rw [PartitionSeq.stamp, Prod.mk.injEq] at next
    rw [← next.1]
    exact settled.current _ ready
  | bump | adopt => exact nomatch append_cancel_left trace
  | setIdentity => exact nomatch mode_setIdentity.symm.trans mode
  | _ => exact nomatch self_eq_append_right.mp trace

structure Custody.Exact (c : Custody) : Prop where
  counted : c.ledger.Counted
  settled : c.engine.tenure.Settled
  current : ∀ key stamp, c.ledger.Carries key stamp → stamp.generation = c.engine.generation

theorem Move.exact {c c' : Custody} (move : Move p c c') (effect : Effect p c.ledger c'.ledger)
    (mode : c'.engine.mode = .idempotent) (exact : c.Exact) : c'.Exact := by
  refine ⟨effect.counted exact.counted, move.turn.settled mode exact.settled,
    fun key stamp carried => ?_⟩
  rcases effect.carries carried with before | ⟨records, broker, sent, trace⟩
  · rcases move.turn.generation mode exact.settled with same | clear
    · exact (exact.current key stamp before).trans same.symm
    · exact (Custody.unstamped exact.counted clear key stamp before).elim
  · exact move.turn.stamped mode exact.settled trace

theorem spawn_exact (config : EngineConfig) : (Custody.rest (spawn config)).Exact := by
  refine ⟨rfl, ⟨fun _ => rfl, nofun, fun identity ready => ?_⟩, fun key stamp carried => ?_⟩
  · unfold Engine.tenure spawn at ready
    dsimp only at ready
    split at ready
    case h_2 => cases ready; rfl
    all_goals exact nomatch ready
  · have counted : (Custody.rest (spawn config)).ledger.Counted := rfl
    exact (Custody.unstamped counted rfl key stamp carried).elim

theorem run_exact (config : EngineConfig) (inputs : List Input)
    (mode : (run config inputs).mode = .idempotent) : (Custody.rest (run config inputs)).Exact := by
  refine run_invariant (p := {}) (fun c => c.engine.mode = .idempotent → c.Exact)
    (fun c c' move _ effect before mode => ?_) (fun _ => spawn_exact config) (along_any _ _) mode
  exact move.exact effect mode (before (move.turn.mode mode))

/-! A step that changes the identity -/

def turningAt (s : Engine) : Policy where
  bump := fun s' => s' = s
  adopt := fun s' _ _ => s' = s

def Engine.Turned (s : Engine) (identity : IdentityState) : Prop :=
  identity = s.identity ∨ identity.isFatal ∨ s.stampedUnresolved = 0

variable {s : Engine}

theorem Turn.turned (turn : Turn (turningAt s) t t')
    (mode : t'.mode = .idempotent) (settled : t.Settled) (before : s.Turned t.identity) :
    s.Turned t'.identity := by
  cases turn with
  | bump ready clear bumped allowed =>
    obtain rfl : _ = s := allowed
    exact .inr (.inr clear)
  | reinit due allowed =>
    obtain rfl : _ = s := allowed
    rcases due with init | ⟨identity, ready, clear⟩
    · exact .inl init.symm
    · exact .inr (.inr clear)
  | adopt producerId epoch running allowed =>
    obtain rfl : _ = s := allowed
    exact .inr (.inr (settled.idle (.inr running)))
  | setIdentity => exact nomatch mode_setIdentity.symm.trans mode
  | die => exact .inr (.inl rfl)
  | _ => exact before

theorem step_turned (sound : (Custody.rest s).Sound) (exact : (Custody.rest s).Exact)
    (input : Input) (mode : (s.step input).mode = .idempotent) :
    s.Turned (s.step input).identity := by
  have lenient : (turningAt s).Lenient := by
    constructor <;> intros <;> trivial
  have allowed : (turningAt s).Allows s input :=
    lenient.allows trivial rfl (fun _ _ => rfl) input fun _ _ _ => trivial
  have kept := invariant_of_step
    (fun c => c.Sound ∧ (c.engine.mode = .idempotent → c.Exact ∧ s.Turned c.engine.identity))
    (fun c c' move before => ⟨move.sound before.1, fun mode => ?_⟩) allowed
    ⟨sound, fun _ => ⟨exact, .inl rfl⟩⟩
  · exact (kept.2 mode).2
  · obtain ⟨exact, turned⟩ := before.2 (move.turn.mode mode)
    exact ⟨move.exact (move.effect before.1) mode exact,
      move.turn.turned mode exact.settled turned⟩

/-! The claim about the queues -/

def Engine.stampedBatches (s : Engine) : Nat :=
  s.partitions.total fun _ queue =>
    (queue.sealed ++ queue.inFlight.toList).countP (·.stamp.isSome)

theorem stampsOf_eq_countP (batches : List Batch) :
    stampsOf batches = batches.countP (·.stamp.isSome) := by
  induction batches with
  | nil => rfl
  | cons batch batches ih =>
    rw [stampsOf_cons, countP_cons, ih, Nat.add_comm]
    rfl

theorem stampTotal_eq_stampedBatches (fresh : s.OpenFresh) : s.stampTotal = s.stampedBatches := by
  refine AList.total_congr fun key queue present => ?_
  have opened : queue.openBatch.toList.countP (·.stamp.isSome) = 0 := by
    refine countP_eq_zero.mpr fun batch mem => ?_
    have := openFresh_of_lookup fresh present (Option.mem_toList.mp mem)
    simp [this.stamp]
  rw [stampsOf_eq_countP, PartitionQueue.batches, PartitionQueue.unsent]
  simp only [countP_append, opened]
  omega

/-- The counter is the number of stamped batches in the queues; their stamps are of the
current identity; and a step to another identity starts with none of them. -/
theorem stamped_unresolved_is_exact (config : EngineConfig) (inputs : List Input)
    (mode : (run config inputs).mode = .idempotent) :
    (run config inputs).stampedUnresolved = (run config inputs).stampedBatches ∧
    (∀ key, ∀ batch ∈ ((run config inputs).queue key).sealed ++
        ((run config inputs).queue key).inFlight.toList,
      ∀ stamp, batch.stamp = some stamp → stamp.generation = (run config inputs).generation) ∧
    (∀ identity, (run config inputs).identity = .ready identity →
      identity.generation = (run config inputs).generation) ∧
    ∀ input, ((run config inputs).step input).mode = .idempotent →
      ((run config inputs).step input).identity ≠ (run config inputs).identity →
      ((run config inputs).step input).identity.isFatal = false →
      (run config inputs).stampedBatches = 0 := by
  have sound := run_sound config inputs
  have exact := run_exact config inputs mode
  have count : (run config inputs).stampedUnresolved = (run config inputs).stampedBatches :=
    exact.counted.trans (stampTotal_eq_stampedBatches sound.fresh)
  refine ⟨count, fun key batch mem stamp carries => ?_, exact.settled.current,
    fun input mode' changed alive => ?_⟩
  · refine exact.current key stamp (.inl ⟨batch, ?_, carries⟩)
    have place : batch ∈ ((run config inputs).queue key).batches := by
      simp only [PartitionQueue.batches, PartitionQueue.unsent, mem_append] at mem ⊢
      tauto
    exact place
  · rcases step_turned sound exact input mode' with same | fatal | clear
    · exact absurd same changed
    · cases fatal.symm.trans alive
    · exact count.symm.trans clear

theorem stamped_unresolved_after_drain :
    (run (sampleConfig .idempotent) [sampleAppend, sampleDrain]).stampedUnresolved = 1 ∧
      (run (sampleConfig .idempotent) [sampleAppend, sampleDrain]).stampedUnresolved =
        (run (sampleConfig .idempotent) [sampleAppend, sampleDrain]).stampedBatches :=
  ⟨by decide, (stamped_unresolved_is_exact _ _ (by decide)).1⟩

end Krafka.Producer
