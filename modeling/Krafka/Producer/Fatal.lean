import Krafka.Producer.Frames
import Krafka.Producer.Unresolved

/-! The fatal identity: what the engine still does once it holds a fatal error, and what
brings it there. -/

namespace Krafka.Producer

open Engine

structure PartitionQueue.Stranded (identified : Bool) (queue : PartitionQueue) : Prop where
  opened : queue.openBatch = none
  unstamped : ∀ batch ∈ queue.sealed, identified ∧ batch.stamp = none
  answered : identified = false → ∀ batch, queue.inFlight = some batch → batch.waiters = none

def Engine.Stranded (s : Engine) : Prop := ∀ key, (s.queue key).Stranded s.mode.hasIdentity

namespace PartitionQueue.Stranded

variable {identified : Bool} {queue : PartitionQueue}

theorem empty : Stranded identified {} := ⟨rfl, List.forall_mem_nil _, fun _ _ slot => nomatch slot⟩

theorem sealOpen (stranded : queue.Stranded identified) : queue.sealOpen.Stranded identified := by
  refine ⟨rfl, fun batch mem => ?_, stranded.answered⟩
  rw [PartitionQueue.sealOpen, stranded.opened] at mem
  exact stranded.unstamped batch (by simpa using mem)

theorem clearUnsent (stranded : queue.Stranded identified) :
    queue.clearUnsent.Stranded identified := ⟨rfl, List.forall_mem_nil _, stranded.answered⟩

theorem clearExpired (now : Instant) (stranded : queue.Stranded identified) :
    (queue.clearExpired now).Stranded identified := by
  refine ⟨?_, fun batch mem => ?_, stranded.answered⟩
  · simp [PartitionQueue.clearExpired, stranded.opened]
  · exact stranded.unstamped batch ((List.dropWhile_sublist _).subset mem)

theorem backoff (wait : Option Instant) (stranded : queue.Stranded identified) :
    ({ queue with backoffUntil := wait } : PartitionQueue).Stranded identified :=
  ⟨stranded.opened, stranded.unstamped, stranded.answered⟩

theorem pushFront {batch : Batch} (stranded : queue.Stranded identified)
    (known : identified) (unstamped : batch.stamp = none) :
    (queue.pushFront batch).Stranded identified :=
  ⟨stranded.opened, List.forall_mem_cons.mpr ⟨⟨known, unstamped⟩, stranded.unstamped⟩,
    stranded.answered⟩

theorem popHead {left : PartitionQueue} {batch : Batch} (stranded : queue.Stranded identified)
    (head : queue.popHead = some (batch, left)) :
    (identified ∧ batch.stamp = none) ∧ left.pushFront batch = queue := by
  unfold PartitionQueue.popHead at head
  cases sealed : queue.sealed with
  | cons first =>
    simp only [sealed, Option.some.injEq, Prod.mk.injEq] at head
    obtain ⟨rfl, rfl⟩ := head
    refine ⟨stranded.unstamped first (sealed ▸ List.mem_cons_self), ?_⟩
    rw [PartitionQueue.pushFront, ← sealed]
  | nil =>
    simp [sealed, stranded.opened] at head

end PartitionQueue.Stranded

namespace Engine.Stranded

variable {s : Engine} {key : PartitionKey}

theorem setQueue {queue : PartitionQueue} (stranded : s.Stranded)
    (next : queue.Stranded s.mode.hasIdentity) : (s.setQueue key queue).Stranded := by
  intro k
  rw [queue_setQueue, Function.update_apply]
  split_ifs
  · exact next
  · exact stranded k

theorem modifyQueue {f : PartitionQueue → PartitionQueue} (stranded : s.Stranded)
    (keeps : (s.queue key).Stranded s.mode.hasIdentity →
      (f (s.queue key)).Stranded s.mode.hasIdentity) : (s.modifyQueue key f).Stranded := by
  cases present : s.partitions.lookup key with
  | none =>
    have same : s.modifyQueue key f = s := by simp only [Engine.modifyQueue, present]
    rw [same]
    exact stranded
  | some =>
    rw [modifyQueue_of_lookup present]
    rw [queue_of_lookup present] at keeps
    exact stranded.setQueue (keeps (queue_of_lookup present ▸ stranded key))

theorem prune (stranded : s.Stranded) : s.prune.Stranded := by
  intro k
  rcases queue_prune s k with same | ⟨gone, _⟩
  · rw [same]
    exact stranded k
  · rw [gone]
    exact .empty

theorem not_sendable (stranded : s.Stranded) (fatal : s.identity.isFatal) (now : Instant)
    (key : PartitionKey) : s.sendable now key = false := by
  unfold sendable
  cases present : s.partitions.lookup key with
  | none => rfl
  | some queue =>
    have here := queue_of_lookup present ▸ stranded key
    have lost : s.canStamp = false := by
      unfold canStamp
      cases identity : s.identity <;> simp_all [IdentityState.isFatal]
    have due : ∀ head, queue.due s.config.linger now = some head →
        s.mode.hasIdentity ∧ head.stamp = none := by
      intro head found
      unfold PartitionQueue.due at found
      cases sealed : queue.sealed with
      | cons =>
        simp only [sealed, Option.some.injEq] at found
        exact here.unstamped head (by simp [sealed, found])
      | nil =>
        simp [sealed, here.opened] at found
    cases found : queue.due s.config.linger now with
    | none => simp [found]
    | some head =>
      obtain ⟨known, unstamped⟩ := due head found
      simp [found, known, unstamped, lost]

theorem drain (stranded : s.Stranded) (fatal : s.identity.isFatal) (now : Instant)
    (leader : PartitionKey → Option Int) (delay : Nat → Duration) : s.drain now leader delay = s := by
  have bump : s.applyBump = s := by
    unfold applyBump
    cases identity : s.identity <;> simp_all [IdentityState.isFatal]
  have still : s.active.keys.filter (s.sendable now) = [] :=
    List.filter_eq_nil_iff.mpr fun key _ => by simp [stranded.not_sendable fatal now key]
  have ready : s.readyKeys now leader = [] := by rw [readyKeys, still, List.filterMap_nil]
  have leaderless : s.leaderless now leader = [] := by
    rw [Engine.leaderless, still, List.filter_nil, List.map_nil]
  unfold Engine.drain
  simp only [bump, ready, leaderless]
  rfl

end Engine.Stranded

/-! A halted engine stays halted -/

def wires (history : List Event) : List WireBatch :=
  history.filterMap fun
    | .handed _ sent => some sent
    | _ => none

theorem wires_append (history more : List Event) :
    wires (history ++ more) = wires history ++ wires more := List.filterMap_append ..

theorem wires_answers (key : PartitionKey) (batch : Batch)
    (result : Nat → RecordData → Result RecordMetadata) :
    wires (answers key batch result) = [] := by
  simp [wires, answers]

theorem wires_retracted (key : PartitionKey) (batch : Batch) :
    wires (batch.stamp.toList.map fun stamp => .retracted key stamp batch.records) = [] := by
  cases batch.stamp <;> rfl

/-- What keeps a fatal engine quiet: while it is fatal, no identity is installed and no batch
that was in flight is sent again. -/
def absorbing : Policy where
  setIdentity s := s.identity.isFatal = false
  adopt s _ _ := s.identity.isFatal = false
  retry s _ _ _ := s.identity.isFatal = false

structure Custody.Halted (sent : List WireBatch) (c : Custody) : Prop where
  fatal : c.engine.identity.isFatal = true
  stranded : c.engine.Stranded
  answered : c.engine.mode.hasIdentity = false →
    ∀ held, c.inHand = some held → held.2.1.waiters = none
  sent : wires c.engine.trace = sent

variable {sent : List WireBatch}

theorem wires_concat {history more : List Event}
    (before : wires history = sent) (silent : wires more = []) : wires (history ++ more) = sent := by
  rw [wires_append, before, silent, List.append_nil]

theorem Move.halted {c c' : Custody} (move : Move absorbing c c')
    (halted : c.Halted sent) : c'.Halted sent := by
  obtain ⟨fatal, stranded, answered, sent⟩ := halted
  have alive {s : Engine} {identity : Identity} (dead : s.identity.isFatal)
      (ready : s.identity = .ready identity) : False := by
    exact nomatch (congrArg IdentityState.isFatal ready).symm.trans dead
  have none {m : Bool} : m = false → ∀ held : PartitionKey × Batch × BatchOutcome,
      Option.none = some held → held.2.1.waiters = Option.none := fun _ _ held => nomatch held
  cases move with
  | @append s now append =>
    rcases s.append_cases now append with ⟨error, -, same⟩ | ⟨alive, -⟩
    · rw [same]
      exact ⟨fatal, stranded, none, wires_concat sent rfl⟩
    · cases alive.symm.trans fatal
  | sealOpen => exact ⟨fatal, stranded.modifyQueue (·.sealOpen), none, sent⟩
  | takeUnsent key present =>
    exact ⟨fatal, stranded.setQueue (queue_of_lookup present ▸ stranded key).clearUnsent, none, sent⟩
  | takeExpired now key present =>
    refine ⟨fatal, stranded.setQueue ?_, none, sent⟩
    exact (queue_of_lookup present ▸ stranded key).clearExpired now
  | fail =>
    exact ⟨fatal, stranded.modifyQueue (·.backoff _), none,
      wires_concat sent (wires_answers ..)⟩
  | answerInFlight =>
    refine ⟨fatal, stranded.modifyQueue fun here => ?_, none, wires_concat sent (wires_answers ..)⟩
    exact ⟨here.opened, here.unstamped, fun _ batch same => by cases same; rfl⟩
  | bump ready | stampOut broker key present free head fresh mode ready =>
    exact (alive fatal ready).elim
  | reinit idle due =>
    rcases due with fetching | ⟨identity, ready, _⟩
    · exact nomatch (congrArg IdentityState.isFatal fetching).symm.trans fatal
    · exact (alive fatal ready).elim
  | reinitDone | startRequest | finishRequest | skipResult | condemn | reorder | book =>
    exact ⟨fatal, stranded, none, sent⟩
  | adopt producerId epoch running allowed | setIdentity producerId epoch tv2 allowed
  | retry wait error present live unsettled allowed => exact nomatch fatal.symm.trans allowed
  | die => exact ⟨rfl, stranded, none, sent⟩
  | gate => exact ⟨fatal, stranded, none, wires_concat sent rfl⟩
  | putBack key present head =>
    have here := queue_of_lookup present ▸ stranded key
    rw [(here.popHead head).2]
    exact ⟨fatal, stranded.setQueue here, none, sent⟩
  | handOut broker key present free head ready =>
    -- the head of the queue lacks a stamp, so it was not put on the wire
    have here := queue_of_lookup present ▸ stranded key
    obtain ⟨known, unstamped⟩ := (here.popHead head).1
    have stamped := ready known
    rw [unstamped] at stamped
    cases stamped
  | endAttempt carrier encoded outcome carried present slot =>
    have here := queue_of_lookup present ▸ stranded carrier.key
    refine ⟨fatal, stranded.setQueue ⟨here.opened, here.unstamped, (fun _ _ same => nomatch same)⟩,
      fun unknown held same => ?_, wires_concat sent rfl⟩
    cases same
    simpa using here.answered unknown _ slot
  | acknowledge =>
    refine ⟨fatal, stranded.modifyQueue fun here => ?_, none, wires_concat sent (wires_answers ..)⟩
    exact ⟨here.opened, here.unstamped, here.answered⟩
  | restamp code present live mode =>
    have known : Mode.hasIdentity _ = true := congrArg Mode.hasIdentity mode
    exact ⟨fatal, stranded.modifyQueue (·.pushFront known rfl), none,
      wires_concat sent (wires_retracted ..)⟩
  | @split s wire key batch outcome bump present live several mode =>
    have known : s.mode.hasIdentity := by
      cases unknown : s.mode.hasIdentity with
      | true => rfl
      | false =>
        rw [answered unknown _ rfl] at live
        cases live
    obtain ⟨⟨first, second⟩, halves⟩ := batch.unstamp.split_of_several several
    obtain ⟨rfl, rfl⟩ := Batch.split_eq halves
    simp only [splitBatch, halves]
    exact ⟨fatal, stranded.modifyQueue fun here => (here.pushFront known rfl).pushFront known rfl,
      none, wires_concat sent (wires_retracted ..)⟩
  | prune => exact ⟨fatal, stranded.prune, none, sent⟩

/-! How the engine becomes fatal -/

section Clearing

variable {s : Engine}

theorem queue_fail (key k : PartitionKey) (batch : Batch) (error : KrafkaError) :
    ∃ wait, (s.fail key batch error).queue k = { s.queue k with backoffUntil := wait } := by
  obtain ⟨s', s'_eq⟩ : ∃ s' : Engine, s' = { s with
      stampedUnresolved := s.stampedUnresolved - batch.stampCount
      bumpRequested := s.bumpRequested || (batch.stamp.isSome && s.mode = Mode.idempotent) } :=
    ⟨_, rfl⟩
  have same : (s.fail key batch error).queue k =
      (s'.modifyQueue key fun queue => { queue with backoffUntil := none }).queue k := by
    rw [s'_eq]
    rfl
  have before : s'.queue k = s.queue k := by
    rw [s'_eq]
    rfl
  rw [same, ← before]
  cases present : s'.partitions.lookup key with
  | none => exact ⟨(s'.queue k).backoffUntil, by simp only [modifyQueue, present]⟩
  | some queue =>
    rw [modifyQueue_of_lookup present, queue_setQueue, Function.update_apply]
    split_ifs with here
    · subst here
      exact ⟨none, by rw [queue_of_lookup present]⟩
    · exact ⟨(s'.queue k).backoffUntil, rfl⟩

theorem queue_failEach (error : KrafkaError) (key k : PartitionKey) (batches : List Batch) :
    ∃ wait, (s.failEach error key batches).queue k = { s.queue k with backoffUntil := wait } := by
  induction batches generalizing s with
  | nil => exact ⟨(s.queue k).backoffUntil, rfl⟩
  | cons batch batches ih =>
    obtain ⟨_, first⟩ := queue_fail (s := s) key k batch error
    obtain ⟨wait, rest⟩ := ih (s := s.fail key batch error)
    refine ⟨wait, rest.trans ?_⟩
    rw [first]

theorem queues_foldl {f : Engine → PartitionKey → Engine} {P : PartitionQueue → Prop}
    (done : ∀ s key, P ((f s key).queue key))
    (keeps : ∀ s key k, P (s.queue k) → P ((f s key).queue k)) (keys : List PartitionKey) (s : Engine)
    (k : PartitionKey) (reached : k ∈ keys ∨ P (s.queue k)) : P ((keys.foldl f s).queue k) := by
  induction keys generalizing s with
  | nil => exact reached.resolve_left List.not_mem_nil
  | cons key keys ih =>
    apply ih
    rcases reached with member | already
    · rcases List.mem_cons.mp member with rfl | later
      · exact .inr (done s k)
      · exact .inl later
    · exact .inr (keeps s key k already)

theorem unsent_failUnsentOf (error : KrafkaError) (s : Engine) (key k : PartitionKey)
    (empty : k = key ∨ (s.queue k).unsent = []) :
    ((failUnsentOf error s key).queue k).unsent = [] := by
  unfold failUnsentOf
  cases present : s.partitions.lookup key with
  | none =>
    rcases empty with rfl | empty
    · simp [Engine.queue, present, PartitionQueue.unsent]
    · exact empty
  | some queue =>
    obtain ⟨wait, after⟩ := queue_failEach (s := s.setQueue key queue.clearUnsent) error key k
      queue.unsent
    dsimp only
    rw [after, queue_setQueue, Function.update_apply]
    split_ifs with here
    · rfl
    · exact empty.resolve_left here

theorem idle_of_uncovered (covered : ∀ key, s.lines key ≠ [] → key ∈ s.active.keys)
    {key : PartitionKey} (absent : key ∉ s.active.keys) :
    (s.queue key).unsent = [] ∧ (s.queue key).inFlight = none := by
  have idle : s.lines key = [] := by
    by_contra filled
    exact absent (covered key filled)
  obtain ⟨slot, unsent⟩ := List.append_eq_nil_iff.mp idle
  exact ⟨unsent, by simpa using slot⟩

theorem PartitionQueue.Stranded.of_unsent {identified : Bool} {queue : PartitionQueue}
    (empty : queue.unsent = [])
    (answered : identified = false → ∀ batch, queue.inFlight = some batch → batch.waiters = none) :
    queue.Stranded identified := by
  obtain ⟨sealed, opened⟩ := List.append_eq_nil_iff.mp empty
  refine ⟨by simpa using opened, ?_, answered⟩
  rw [sealed]
  exact List.forall_mem_nil _

theorem identity_fatal (error : KrafkaError) : (s.fatal error).identity = .fatal error := by
  obtain ⟨told, same, identity, -⟩ := s.exists_fatal error
  rw [same, identity_of_frame (frame_failUnsent told error), identity]

theorem stranded_fatal (covered : ∀ key, s.lines key ≠ [] → key ∈ s.active.keys)
    (known : s.mode.hasIdentity) (error : KrafkaError) : (s.fatal error).Stranded := by
  intro key
  obtain ⟨told, same, -, mode, active, queue, -⟩ := s.exists_fatal error
  rw [same, mode_of_frame (frame_failUnsent told error), mode, known]
  refine .of_unsent ?_ (fun unknown => nomatch unknown)
  refine queues_foldl (P := fun queue => queue.unsent = [])
    (fun s key => unsent_failUnsentOf error s key key (.inl rfl))
    (fun s key k empty => unsent_failUnsentOf error s key k (.inr empty)) _ _ _ ?_
  rw [active, queue]
  by_cases active : key ∈ s.active.keys
  · exact .inl active
  · exact .inr (idle_of_uncovered covered active).1

def PartitionQueue.Closed (queue : PartitionQueue) : Prop :=
  queue.unsent = [] ∧ ∀ batch, queue.inFlight = some batch → batch.waiters = none

theorem closed_terminateOf (error : KrafkaError) (s : Engine) (key k : PartitionKey)
    (closed : k = key ∨ (s.queue k).Closed) : ((terminateOf error s key).queue k).Closed := by
  unfold terminateOf
  cases present : s.partitions.lookup key with
  | none =>
    rcases closed with rfl | closed
    · simp [Engine.queue, present, PartitionQueue.Closed, PartitionQueue.unsent]
    · exact closed
  | some queue =>
    dsimp only
    cases slot : queue.inFlight with
    | none =>
      obtain ⟨wait, after⟩ := queue_failEach (s := s.setQueue key queue.clearUnsent) error key k
        queue.unsent
      dsimp only
      rw [after, queue_setQueue, Function.update_apply]
      split_ifs with here
      · exact ⟨rfl, fun batch same => by cases slot.symm.trans same⟩
      · exact closed.resolve_left here
    | some batch =>
      obtain ⟨wait, after⟩ := queue_failEach
        (s := (s.setQueue key queue.clearUnsent).answerInFlight key batch error) error key k
        queue.unsent
      have answered : ((s.setQueue key queue.clearUnsent).answerInFlight key batch error).queue =
          Function.update s.queue key
            { queue.clearUnsent with inFlight := some { batch with waiters := none } } := by
        have cleared : (s.setQueue key queue.clearUnsent).partitions.lookup key =
          some queue.clearUnsent := AList.lookup_insert _
        show ((s.setQueue key queue.clearUnsent).modifyQueue key _).queue = _
        rw [modifyQueue_of_lookup cleared, queue_setQueue, queue_setQueue, Function.update_idem]
      dsimp only
      rw [after, answered, Function.update_apply]
      split_ifs with here
      · refine ⟨rfl, fun batch same => ?_⟩
        cases same
        rfl
      · exact closed.resolve_left here

theorem stranded_terminate (covered : ∀ key, s.lines key ≠ [] → key ∈ s.active.keys)
    (error : KrafkaError) : (s.terminate error).Stranded := by
  refine Engine.Stranded.prune fun key => ?_
  have closed : ((s.terminateAll error).queue key).Closed := by
    refine queues_foldl (P := PartitionQueue.Closed)
      (fun s key => closed_terminateOf error s key key (.inl rfl))
      (fun s key k before => closed_terminateOf error s key k (.inr before)) _ _ _ ?_
    by_cases active : key ∈ s.active.keys
    · exact .inl active
    · obtain ⟨unsent, slot⟩ := idle_of_uncovered covered active
      exact .inr ⟨unsent, fun batch same => nomatch slot.symm.trans same⟩
  exact .of_unsent closed.1 fun _ => closed.2

end Clearing

/-! Steps that leave the identity alone -/

section Frames

variable {s : Engine}

theorem identity_sealActive (s : Engine) : s.sealActive.identity = s.identity :=
  identity_of_frame (frame_sealActive s)

theorem identity_drain (alive : s.identity.isFatal = false) (now : Instant)
    (leader : PartitionKey → Option Int) (delay : Nat → Duration) :
    (s.drain now leader delay).identity.isFatal = false := by
  have fetching : s.startReinit.identity.isFatal = false := by
    unfold startReinit
    split_ifs
    · exact alive
    · rfl
  have bumped : s.applyBump.identity.isFatal = false := by
    unfold applyBump
    split
    · exact fetching
    · split_ifs
      · exact alive
      · split
        · rfl
        · exact fetching
    · exact alive
  unfold drain
  dsimp only
  rw [Runs.foldl_keeps Engine.identity _ fun s broker => (s.drainBroker_frame _ _ broker).1,
    identity_of_frame (frame_requestRefresh ..)]
  exact bumped

end Frames

variable {s : Engine}

theorem completeResult_fate {wire : List WireBatch} (now : Instant)
    (delay : Nat → Duration) {result : BatchResult} {sent : WireBatch} (carried : sent ∈ wire)
    (same : sent.key = result.key) (sound : Custody.Sound ⟨s, wire, none, []⟩) :
    (completeResult now delay s result).identity = s.identity ∨
      (completeResult now delay s result).Stranded := by
  obtain ⟨key, encoded, outcome⟩ := result
  obtain rfl : sent.key = key := same
  unfold completeResult
  dsimp only
  cases present : s.partitions.lookup sent.key with
  | none => exact .inl rfl
  | some queue =>
    cases slot : queue.inFlight with
    | none =>
      simp only [slot]
      exact .inl trivial
    | some batch =>
      simp only [slot]
      by_cases mild : (s.endAttempt sent.key queue batch outcome).verdict sent.key
          ({ batch with encoded := encoded.or batch.encoded }.marked outcome) outcome = .fatal
      · obtain ⟨known, code, _, _, _, answered, failed, ends⟩ :=
          resolve_of_fatal now delay mild
        right
        rw [ends]
        -- the batch is failed before `fatal` looks at what is left
        have unsettled : ¬outcome.Settles := by
          rw [answered]
          exact failed
        have ended := (Move.endAttempt (p := {}) sent encoded outcome carried present slot
          trivial).sound sound
        have dropped := (Move.condemn (p := {}) unsettled).sound ended
        have failed := (Move.fail (p := {}) _ _ (fatalError sent.key code) (.inl trivial)).sound
          dropped
        exact stranded_fatal failed.covered known _
      · exact .inl (identity_of_frame (frame_resolve _ now delay _ _ mild))

def Engine.Contained (s : Engine) : Prop := s.identity.isFatal → s.Stranded

theorem Engine.Contained.of_alive (alive : s.identity.isFatal = false) :
    s.Contained := fun fatal => nomatch alive.symm.trans fatal

theorem Engine.Contained.of_same {s' : Engine} (alive : s.identity.isFatal = false)
    (same : s'.identity = s.identity) : s'.Contained := .of_alive (same ▸ alive)

theorem Engine.Contained.halted (contained : s.Contained)
    (fatal : s.identity.isFatal) (wire : List WireBatch) :
    Custody.Halted (wires s.trace) ⟨s, wire, none, []⟩ :=
  ⟨fatal, contained fatal, (fun _ _ held => nomatch held), rfl⟩

theorem Moves.halted {c c' : Custody} (moves : Moves absorbing c c')
    (halted : c.Halted sent) : c'.Halted sent := by
  induction moves with
  | refl => exact halted
  | tail _ move ih => exact move.halted ih

theorem contained_results {now : Instant} {delay : Nat → Duration} {results : List BatchResult}
    {wire : List WireBatch} (answered : (results.map (·.key)).Perm (wire.map (·.key)))
    (allowed : absorbing.AllowsResults now delay s results)
    (sound : Custody.Sound ⟨s, wire, none, []⟩) (contained : s.Contained) :
    (results.foldl (completeResult now delay) s).Contained := by
  induction results generalizing s wire with
  | nil => exact contained
  | cons result results ih =>
    obtain ⟨sent, carried, same⟩ : ∃ sent ∈ wire, sent.key = result.key :=
      List.mem_map.mp (answered.subset List.mem_cons_self)
    have rest : (results.map (·.key)).Perm ((wire.erase sent).map (·.key)) := by
      have split := answered.trans ((List.perm_cons_erase carried).map (·.key))
      simp only [List.map_cons, same] at split
      exact split.cons_inv
    have known : absorbing.AllowsError result.outcome := by
      cases result.outcome <;> trivial
    have moves : Moves absorbing ⟨s, wire, none, []⟩
        ⟨completeResult now delay s result, wire.erase sent, none, []⟩ :=
      moves_completeResult carried same known trivial allowed.1
    have kept : Custody.Sound ⟨completeResult now delay s result, wire.erase sent, none, []⟩ :=
      Relation.ReflTransGen.head_induction_on moves (motive := fun c _ => c.Sound → _)
        id (fun move _ ih before => ih (move.sound before)) sound
    apply ih rest allowed.2 kept
    cases alive : s.identity.isFatal with
    | true => exact fun _ => (Moves.halted moves (contained.halted alive wire)).stranded
    | false =>
      rcases completeResult_fate now delay carried same sound with same | gone
      · exact .of_same alive same
      · exact fun _ => gone

theorem contained_step {input : Input} (sound : (Custody.rest s).Sound)
    (fetching : s.reinit → s.mode.hasIdentity) (allowed : absorbing.Allows s input)
    (contained : s.Contained) : (s.step input).Contained := by
  cases alive : s.identity.isFatal with
  | true => exact fun _ => (Moves.halted (moves_step allowed) (contained.halted alive [])).stranded
  | false =>
    cases input with
    | command now command =>
      simp only [step]
      split_ifs
      · exact contained
      · cases command with
        | append append =>
          rcases s.append_cases now append with ⟨error, fatal, -⟩ | ⟨-, after, -, same⟩
          · cases (congrArg IdentityState.isFatal fatal).symm.trans alive
          · rw [handle, same]
            exact .of_alive alive
        | flush => exact .of_same alive (identity_sealActive _)
        | failUnsent error => exact .of_same alive (identity_of_frame (frame_failUnsent s error))
        | setIdentity =>
          apply Engine.Contained.of_alive
          simp only [handle, Engine.setIdentity]
          split
          · split_ifs
            · exact alive
            · rfl
          · rfl
        | terminate error => exact fun _ => stranded_terminate sound.covered error
    | expire now => exact .of_same alive (identity_of_frame (frame_expire s now))
    | drain now leader delay => exact .of_alive (identity_drain alive now leader delay)
    | complete now delay serial =>
      simp only [step, finish]
      simp only [Policy.Allows] at allowed
      cases found : s.requests.find? (·.serial = serial) with
      | none => exact contained
      | some request =>
        simp only [found] at allowed ⊢
        split_ifs with answered
        · obtain ⟨_, judged, _⟩ := allowed answered
          have taken := (Move.finishRequest (p := {}) request
            (List.mem_of_find?_eq_some found)).sound sound
          have after := contained_results answered judged taken (.of_alive alive)
          exact fun fatal => (after fatal).prune
        · exact contained
    | refreshed | reordered => exact .of_alive alive
    | reinitialised result =>
      simp only [step]
      split_ifs with running
      · cases result with
        | ok => exact .of_alive rfl
        | error error =>
          simp only [reinitialised]
          split_ifs
          · exact .of_alive alive
          · have ended := (Move.reinitDone (p := {})).sound sound
            exact fun _ => stranded_fatal ended.covered (fetching running) error
      · exact contained
    | closed =>
      simp only [step]
      split_ifs
      · exact contained
      · exact .of_same alive (identity_sealActive _)

def Tenure.Nameless (t : Tenure) : Prop :=
  t.mode = .plain → (t.identity = .plain ∨ t.identity.isFatal = true) ∧ t.reinit = false

theorem Turn.nameless {p : Policy} {t t' : Tenure} (turn : Turn p t t') (nameless : t.Nameless) :
    t'.Nameless := by
  intro plain
  cases turn with
  | quiet | stamp | prune => exact nameless plain
  | bump ready =>
    have before := (nameless plain).1
    simp only [tenure, ready] at before
    exact before.elim (nomatch ·) (nomatch ·)
  | reinit due =>
    have before := (nameless plain).1
    rcases due with fetching | ⟨_, ready, _⟩
    · simp only [tenure, fetching] at before
      exact before.elim (nomatch ·) (nomatch ·)
    · simp only [tenure, ready] at before
      exact before.elim (nomatch ·) (nomatch ·)
  | reinitDone => exact ⟨(nameless plain).1, rfl⟩
  | adopt producerId epoch running => cases running.symm.trans (nameless plain).2
  | setIdentity => exact nomatch mode_setIdentity.symm.trans plain
  | die => exact ⟨.inr rfl, (nameless plain).2⟩

theorem run_nameless (config : EngineConfig) (inputs : List Input) :
    (run config inputs).tenure.Nameless := by
  refine run_invariant (p := {}) (fun c => c.engine.tenure.Nameless)
    (fun _ _ move _ _ => move.turn.nameless) (fun plain => ⟨.inl ?_, rfl⟩) (along_any _ inputs)
  have mode : config.mode = .plain := plain
  show (spawn config).identity = .plain
  simp only [spawn, mode]

theorem fetching_identity (config : EngineConfig) (inputs : List Input)
    (running : (run config inputs).reinit) : (run config inputs).mode.hasIdentity := by
  cases mode : (run config inputs).mode with
  | plain => exact nomatch running.symm.trans (run_nameless config inputs mode).2
  | _ => rfl

theorem contained_run {config : EngineConfig} {inputs : List Input}
    (allowed : Runs.Along step absorbing.Allows (spawn config) inputs) :
    (run config inputs).Contained := by
  induction inputs using List.reverseRecOn with
  | nil =>
    apply Engine.Contained.of_alive
    show (spawn config).identity.isFatal = false
    unfold spawn
    dsimp only
    split <;> rfl
  | append_singleton inputs input ih =>
    obtain ⟨before, last⟩ := Runs.along_append.mp allowed
    have after := contained_step (run_sound config inputs) (fetching_identity config inputs) last.1
      (ih before)
    rwa [run_append]

/-- Once the identity is fatal it stays fatal: every later `Append` is refused, `drain` does
nothing, and no batch is handed to a request. This in every run that, while fatal, installs
no identity and sends no batch in flight again. -/
theorem fatal_is_absorbing (config : EngineConfig) (inputs more : List Input)
    (fatal : (run config inputs).identity.isFatal)
    (allowed : Runs.Along step absorbing.Allows (spawn config) (inputs ++ more)) :
    (run config (inputs ++ more)).identity.isFatal ∧
      (∀ now leader delay, (run config (inputs ++ more)).drain now leader delay =
        run config (inputs ++ more)) ∧
      wires (run config (inputs ++ more)).trace = wires (run config inputs).trace ∧
      ∀ now append, ∃ record waiter error, (run config (inputs ++ more)).append now append =
        { run config (inputs ++ more) with
          arrivals := (run config (inputs ++ more)).arrivals + 1
          trace := (run config (inputs ++ more)).trace ++ [.arrived append.key record,
            .answered append.key record waiter (.error error)] } := by
  obtain ⟨before, later⟩ := Runs.along_append.mp allowed
  have start := (contained_run before).halted fatal []
  have halted : (Custody.rest (run config (inputs ++ more))).Halted
      (wires (run config inputs).trace) := by
    rw [run_append]
    exact later.invariant (fun s => (Custody.rest s).Halted (wires (run config inputs).trace))
      (fun _ _ => invariant_of_step _ fun _ _ => Move.halted) start
  refine ⟨halted.fatal, halted.stranded.drain halted.fatal, halted.sent, fun now append => ?_⟩
  rcases (run config (inputs ++ more)).append_cases now append with ⟨error, -, same⟩ | ⟨alive, -⟩
  · exact ⟨_, _, error, same⟩
  · cases alive.symm.trans halted.fatal

def fencedRun : List Input :=
  [sampleAppend, sampleDrain, sampleDone 0 (.answer .producerFenced (-1) (-1) (-1))]

theorem fenced_producer_stays_fatal :
    (run (sampleConfig .idempotent) (fencedRun ++ [sampleAppend, sampleDrain])).identity.isFatal =
      true := by
  refine (fatal_is_absorbing (sampleConfig .idempotent) fencedRun [sampleAppend, sampleDrain] rfl
    ⟨trivial, trivial, ?_, trivial, trivial, trivial⟩).1
  exact fun _ => ⟨by simp [Policy.AllowsError, absorbing], ⟨trivial, trivial⟩, trivial⟩

def terminated : Input := .command 0 (.terminate (.illegalState "producer closed"))

def fencedBeside : List Input :=
  [appendTo 1, sampleDrain, sampleAppend, sampleDrain,
    sampleDone 1 (.answer .producerFenced (-1) (-1) (-1))]

def brokenConnection : List Input :=
  [.complete 0 (fun _ => 0) 0 [{ key := ("t", 1), outcome := .noAnswer (.network "reset") }],
    sampleDrain]

/-- An `InitProducerId` call that was under way when the producer was terminated makes it
ready again; and a batch that was in flight when another one was fenced is sent again. -/
theorem fatal_is_left : (run { sampleConfig .idempotent with identity := none }
        [sampleDrain, terminated]).identity.isFatal ∧
      (run { sampleConfig .idempotent with identity := none }
        ([sampleDrain, terminated] ++ [.reinitialised (.ok (7, 0))])).identity.isFatal = false ∧
      (run (sampleConfig .idempotent) fencedBeside).identity.isFatal ∧
      wires (run (sampleConfig .idempotent) (fencedBeside ++ brokenConnection)).trace ≠
        wires (run (sampleConfig .idempotent) fencedBeside).trace := by
  refine ⟨rfl, rfl, rfl, fun same => ?_⟩
  exact absurd (congrArg List.length same) (by decide)

end Krafka.Producer
