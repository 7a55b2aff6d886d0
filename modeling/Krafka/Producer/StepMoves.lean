import Krafka.Library.Lists
import Krafka.Producer.Moves
import Mathlib.Data.List.Dedup

/-! Every step of the engine is a sequence of moves. -/

namespace Krafka.Producer

open List Relation Engine

variable {p : Policy}

variable {error : KrafkaError} {batch : Batch}

theorem Policy.Credible.honest (credible : p.Credible error) :
    p.error error ∨ batch.HonestError error :=
  credible.imp_right fun other message denies => absurd denies (other message)

/-! Loops -/

variable {wire : List WireBatch}

theorem moves_foldl {α : Type*} {f : Engine → α → Engine} {items : List α}
    (body : ∀ s a, Moves p ⟨s, wire, none, []⟩ ⟨f s a, wire, none, []⟩) (s : Engine) :
    Moves p ⟨s, wire, none, []⟩ ⟨items.foldl f s, wire, none, []⟩ := by
  induction items generalizing s with
  | nil => exact .refl
  | cons a items ih => exact (body s a).trans (ih (f s a))

theorem moves_sealActive (s : Engine) : Moves p (.rest s) (.rest s.sealActive) :=
  moves_foldl (fun _ key => .single (.sealOpen key)) s

theorem moves_failEach (credible : p.Credible error) (key : PartitionKey)
    (wire : List WireBatch) (batches : List Batch) (s : Engine) :
    Moves p ⟨s, wire, none, batches.map (key, ·)⟩ ⟨s.failEach error key batches, wire, none, []⟩ := by
  induction batches generalizing s with
  | nil => exact .refl
  | cons batch batches ih =>
    exact .head (.fail key batch error credible.honest) (ih _)

theorem moves_failUnsentOf (credible : p.Credible error) (wire : List WireBatch)
    (s : Engine) (key : PartitionKey) :
    Moves p ⟨s, wire, none, []⟩ ⟨failUnsentOf error s key, wire, none, []⟩ := by
  unfold failUnsentOf
  cases present : s.partitions.lookup key with
  | none => exact .refl
  | some =>
    exact .head (.takeUnsent key present) (moves_failEach credible key wire _ _)

theorem moves_failUnsent (credible : p.Credible error) (wire : List WireBatch)
    (s : Engine) : Moves p ⟨s, wire, none, []⟩ ⟨s.failUnsent error, wire, none, []⟩ :=
  moves_foldl (moves_failUnsentOf credible wire) s

theorem moves_fatal (credible : p.Credible error) (wire : List WireBatch)
    (s : Engine) : Moves p ⟨s, wire, none, []⟩ ⟨s.fatal error, wire, none, []⟩ := by
  refine .head (.die error) ?_
  unfold fatal
  by_cases gate : (s.die error).config.gate = true
  · simp only [gate, if_true]
    exact .head (.gate gate) (moves_failUnsent credible wire _)
  · simp only [gate]
    exact moves_failUnsent credible wire _

/-! Commands and time -/

theorem moves_terminateOf (credible : p.Credible error) (s : Engine)
    (key : PartitionKey) : Moves p (.rest s) (.rest (terminateOf error s key)) := by
  cases present : s.partitions.lookup key with
  | none =>
    simp only [terminateOf, present]
    exact .refl
  | some queue =>
    refine .head (.takeUnsent key present) ?_
    cases slot : queue.inFlight with
    | none =>
      simp only [terminateOf, present, slot]
      exact moves_failEach credible key [] _ _
    | some =>
      have kept : (s.setQueue key queue.clearUnsent).partitions.lookup key =
          some queue.clearUnsent := AList.lookup_insert _
      refine .head (.answerInFlight key error kept slot credible) ?_
      simp only [terminateOf, present, slot]
      exact moves_failEach credible key [] _ _

theorem moves_terminateAll (credible : p.Credible error) (s : Engine) :
    Moves p (.rest s) (.rest (s.terminateAll error)) :=
  .head (.die error) (moves_foldl (moves_terminateOf credible) _)

theorem moves_expireOf (now : Instant) (s : Engine) (taken : List (PartitionKey × Batch))
    (key : PartitionKey) :
    Moves p ⟨s, [], none, taken⟩
      ⟨(expireOf now (s, taken) key).1, [], none, (expireOf now (s, taken) key).2⟩ := by
  cases present : s.partitions.lookup key with
  | none =>
    simp only [expireOf, present]
    exact .refl
  | some queue =>
    refine .head (.takeExpired now key present) ?_
    cases slot : queue.inFlight with
    | none =>
      simp only [expireOf, present, slot]
      exact .refl
    | some batch =>
      by_cases late : batch.waiters.isSome ∧ batch.deadline ≤ now
      · have kept : (s.setQueue key (queue.clearExpired now)).partitions.lookup key =
            some (queue.clearExpired now) := AList.lookup_insert _
        have credible : p.Credible (deliveryTimeout batch true) := .inr (by simp [deliveryTimeout])
        simp only [expireOf, present, slot, late, and_self, if_true]
        exact .single (.answerInFlight key _ kept slot credible)
      · simp only [expireOf, present, slot, late, if_false]
        exact .refl

theorem moves_expireOf_foldl (now : Instant) (keys : List PartitionKey)
    (acc : Engine × List (PartitionKey × Batch)) :
    Moves p ⟨acc.1, [], none, acc.2⟩
      ⟨(keys.foldl (expireOf now) acc).1, [], none, (keys.foldl (expireOf now) acc).2⟩ := by
  induction keys generalizing acc with
  | nil => exact .refl
  | cons key keys ih => exact (moves_expireOf now acc.1 acc.2 key).trans (ih _)

theorem honest_deliveryTimeout (batch : Batch) :
    batch.HonestError (deliveryTimeout batch batch.maybeAppended) := by
  intro message denies
  simp only [deliveryTimeout, KrafkaError.deliveryTimeout.injEq] at denies
  exact denies.1

theorem moves_failTaken (taken : List (PartitionKey × Batch)) (s : Engine) :
    Moves p ⟨s, [], none, taken⟩ (.rest (s.failTaken taken)) := by
  induction taken generalizing s with
  | nil => exact .refl
  | cons entry taken ih =>
    exact .head
      (.fail entry.1 entry.2 _ (.inr (honest_deliveryTimeout entry.2))) (ih _)

theorem moves_expire (now : Instant) (s : Engine) : Moves p (.rest s) (.rest (s.expire now)) :=
  (moves_expireOf_foldl now s.active.keys (s, [])).trans (moves_failTaken _ _)

/-! Drain -/

variable {queue left : PartitionQueue} {now : Instant}

theorem PartitionQueue.popHead_of_due {linger : Duration}
    {head : Batch} (next : queue.due linger now = some head)
    (popped : queue.popHead = some (batch, left)) : batch = head := by
  unfold PartitionQueue.due at next
  unfold PartitionQueue.popHead at popped
  split at next <;> simp_all

structure Standing (s₀ s : Engine) (keys : List PartitionKey) : Prop where
  mode : s.mode = s₀.mode
  identity : s.identity = s₀.identity
  bump : s.bumpRequested = s₀.bumpRequested
  lookup : ∀ key ∈ keys, s.partitions.lookup key = s₀.partitions.lookup key

variable {s₀ s : Engine} {key : PartitionKey} {keys : List PartitionKey}

theorem Standing.tail
    (standing : Standing s₀ s (key :: keys)) : Standing s₀ s keys :=
  { standing with lookup := fun k hk => standing.lookup k (mem_cons_of_mem _ hk) }

theorem Standing.step {s' : Engine} (standing : Standing s₀ s (key :: keys)) (fresh : key ∉ keys)
    (mode : s'.mode = s.mode) (identity : s'.identity = s.identity)
    (bump : s'.bumpRequested = s.bumpRequested)
    (partitions : s'.partitions = s.partitions.insert key queue) : Standing s₀ s' keys where
  mode := mode.trans standing.mode
  identity := identity.trans standing.identity
  bump := bump.trans standing.bump
  lookup := by
    intro k hk
    have other : k ≠ key := fun h => fresh (h ▸ hk)
    rw [partitions, AList.lookup_insert_ne other]
    exact standing.lookup k (mem_cons_of_mem _ hk)

theorem Standing.sendable
    (standing : Standing s₀ s (key :: keys)) (sendable : s₀.sendable now key)
    (present : s.partitions.lookup key = some queue) (head : queue.popHead = some (batch, left)) :
    queue.inFlight = none ∧
      (s.mode.hasIdentity → batch.stamp = none → s₀.canStamp = true) := by
  have before : s₀.partitions.lookup key = some queue :=
    (standing.lookup key mem_cons_self).symm.trans present
  simp only [Engine.sendable, before, Option.any_some, Bool.and_eq_true, Option.isNone_iff_eq_none,
    Option.any_eq_true] at sendable
  obtain ⟨⟨free, _⟩, next, due, allowed⟩ := sendable
  obtain rfl := PartitionQueue.popHead_of_due due head
  refine ⟨free, fun identity fresh => ?_⟩
  simpa [← standing.mode, identity, fresh] using allowed

theorem Standing.handOut
    (standing : Standing s₀ s (key :: keys)) (sendable : s₀.sendable now key)
    (broker : Int) (present : s.partitions.lookup key = some queue)
    (head : queue.popHead = some (batch, left))
    (stamped : ¬(s.mode.hasIdentity && batch.stamp.isNone)) :
    Move p ⟨s, wire, none, []⟩
      ⟨(s.handOut broker key batch left).1, wire ++ [(s.handOut broker key batch left).2],
        none, []⟩ := by
  refine Move.handOut broker key present (standing.sendable sendable present head).1 head ?_
  intro identity
  simpa [identity, Option.isSome_iff_ne_none] using stamped

theorem Standing.stampOut
    {identity : Identity} (standing : Standing s₀ s (key :: keys))
    (read : s₀.identity.identity? = some identity) (sendable : s₀.sendable now key)
    (broker : Int) (present : s.partitions.lookup key = some queue)
    (head : queue.popHead = some (batch, left))
    (unstamped : (s.mode.hasIdentity && batch.stamp.isNone)) :
    Move p ⟨s, wire, none, []⟩
      ⟨(s.stampOut broker key identity batch left).1,
        wire ++ [(s.stampOut broker key identity batch left).2], none, []⟩ := by
  obtain ⟨mode, fresh⟩ : s.mode.hasIdentity ∧ batch.stamp = none := by
    simpa using unstamped
  obtain ⟨free, allowed⟩ := standing.sendable sendable present head
  have ready : s₀.identity = .ready identity := by
    cases h : s₀.identity <;> simp_all [IdentityState.identity?]
  have still : s₀.bumpRequested = false := by
    simpa [canStamp, ready] using allowed mode fresh
  exact Move.stampOut broker key present free head fresh mode (standing.identity.trans ready)
    (standing.bump.trans still)

theorem Standing.drop {others : List PartitionKey}
    (standing : Standing s₀ s (keys ++ others)) : Standing s₀ s others :=
  { standing with lookup := fun k hk => standing.lookup k (mem_append_right _ hk) }

variable {identity : Option Identity}

theorem moves_fillRequest
    (broker : Int) {others : List PartitionKey} {size : Nat}
    (read : s₀.identity.identity? = identity) (nodup : (keys ++ others).Nodup)
    (sendable : ∀ key ∈ keys, s₀.sendable now key) (standing : Standing s₀ s (keys ++ others)) :
    Moves p ⟨s, wire, none, []⟩
        ⟨(fillRequest identity broker keys s wire size).1,
          (fillRequest identity broker keys s wire size).2, none, []⟩ ∧
      Standing s₀ (fillRequest identity broker keys s wire size).1 others := by
  have later : ∀ {key keys}, (∀ k ∈ key :: keys, s₀.sendable now k = true) →
      ∀ k ∈ keys, s₀.sendable now k = true := fun h k hk => h k (mem_cons_of_mem _ hk)
  fun_induction fillRequest identity broker keys s wire size with
  | case1 => exact ⟨.refl, standing⟩
  | case2 key keys s wire size absent ih
  | case3 key keys s wire size queue present headBytes headAlone full ih
  | case4 key keys s wire size queue present headBytes headAlone room empty ih =>
    exact ih (nodup_cons.mp nodup).2 (later sendable) standing.tail
  | case5 key keys s wire size queue present headBytes headAlone room batch left head unstamped
      noIdentity ih =>
    subst noIdentity
    have rest := ih (nodup_cons.mp nodup).2 (later sendable)
      (standing.step (nodup_cons.mp nodup).1 rfl rfl rfl rfl)
    exact ⟨.head (.putBack key present head) rest.1, rest.2⟩
  | case6 key keys s wire size queue present headBytes headAlone room batch left head unstamped id hasId =>
    subst hasId
    have next : Standing s₀ (s.stampOut broker key id batch left).1 (keys ++ others) :=
      standing.step (nodup_cons.mp nodup).1 rfl rfl rfl rfl
    exact ⟨.single (standing.stampOut read (sendable key mem_cons_self) broker
      present head unstamped), next.drop⟩
  | case7 key keys s wire size queue present headBytes headAlone room batch left head unstamped id
      hasId out alone ih =>
    subst hasId
    have rest := ih (nodup_cons.mp nodup).2 (later sendable)
      (standing.step (nodup_cons.mp nodup).1 rfl rfl rfl rfl)
    exact ⟨.head (standing.stampOut read (sendable key mem_cons_self) broker
      present head unstamped) rest.1, rest.2⟩
  | case8 key keys s wire size queue present headBytes headAlone room batch left head stamped =>
    have next : Standing s₀ (s.handOut broker key batch left).1 (keys ++ others) :=
      standing.step (nodup_cons.mp nodup).1 rfl rfl rfl rfl
    exact ⟨.single (standing.handOut (sendable key mem_cons_self) broker present
      head stamped), next.drop⟩
  | case9 key keys s wire size queue present headBytes headAlone room batch left head stamped out
      alone ih =>
    have rest := ih (nodup_cons.mp nodup).2 (later sendable)
      (standing.step (nodup_cons.mp nodup).1 rfl rfl rfl rfl)
    exact ⟨.head (standing.handOut (sendable key mem_cons_self) broker present
      head stamped) rest.1, rest.2⟩

theorem moves_drainBroker
    {ready : List (Int × PartitionKey)} {broker : Int} {brokers : List Int}
    (read : s₀.identity.identity? = identity) (nodup : (ready.map (·.2)).Nodup)
    (sendable : ∀ entry ∈ ready, s₀.sendable now entry.2) (fresh : broker ∉ brokers)
    (standing : Standing s₀ s ((ready.filter (·.1 ∈ broker :: brokers)).map (·.2))) :
    Moves p (.rest s) (.rest (drainBroker identity ready s broker)) ∧
      Standing s₀ (drainBroker identity ready s broker)
        ((ready.filter (·.1 ∈ brokers)).map (·.2)) := by
  set keys := ((ready.filter (·.1 = broker)).map (·.2)).insertionSort
    fun a b => a.1 < b.1 ∨ a.1 = b.1 ∧ a.2 ≤ b.2 with keys_eq
  have mem_keys : ∀ k, k ∈ keys ↔ (broker, k) ∈ ready := by
    intro k
    simp [keys_eq, mem_insertionSort]
  have distinct : (keys ++ (ready.filter (·.1 ∈ brokers)).map (·.2)).Nodup := by
    refine nodup_append.mpr ⟨?_, ?_, ?_⟩
    · exact (perm_insertionSort _ _).nodup_iff.mpr
        (nodup.sublist (filter_sublist.map _))
    · exact nodup.sublist (filter_sublist.map _)
    · intro k hk k' hk' same
      subst same
      obtain ⟨entry, mem, rfl⟩ := mem_map.mp hk'
      obtain ⟨mem, listed⟩ := mem_filter.mp mem
      have same := inj_on_of_nodup_map nodup ((mem_keys _).mp hk) mem rfl
      have broker_eq : broker = entry.1 := congrArg Prod.fst same
      exact fresh (broker_eq ▸ of_decide_eq_true listed)
  have stands : Standing s₀ s (keys ++ (ready.filter (·.1 ∈ brokers)).map (·.2)) := by
    refine { standing with lookup := fun k hk => standing.lookup k ?_ }
    rcases mem_append.mp hk with hk | hk
    · exact mem_map.mpr ⟨(broker, k), by simpa using (mem_keys k).mp hk, rfl⟩
    · obtain ⟨entry, mem, rfl⟩ := mem_map.mp hk
      obtain ⟨mem, listed⟩ := mem_filter.mp mem
      have listed : entry.1 ∈ broker :: brokers :=
        mem_cons_of_mem _ (of_decide_eq_true listed)
      exact mem_map.mpr ⟨entry, mem_filter.mpr ⟨mem, decide_eq_true listed⟩, rfl⟩
  obtain ⟨filled, left⟩ : Moves p (.rest s)
        ⟨(fillRequest identity broker keys s [] perBatchOverhead).1,
          (fillRequest identity broker keys s [] perBatchOverhead).2, none, []⟩ ∧ _ :=
    moves_fillRequest broker read distinct (fun k hk => sendable _ ((mem_keys k).mp hk)) stands
  unfold drainBroker
  simp only [← keys_eq]
  split_ifs with empty
  · have none : (fillRequest identity broker keys s [] perBatchOverhead).2 = [] := by
      simpa using empty
    exact ⟨by simpa [none, Custody.rest] using filled, left⟩
  · refine ⟨filled.tail (.startRequest broker (by simpa using empty)), ?_⟩
    exact { left with }

theorem moves_drainBrokers
    {ready : List (Int × PartitionKey)} {brokers : List Int}
    (read : s₀.identity.identity? = identity) (nodup : (ready.map (·.2)).Nodup)
    (sendable : ∀ entry ∈ ready, s₀.sendable now entry.2) (distinct : brokers.Nodup)
    (standing : Standing s₀ s ((ready.filter (·.1 ∈ brokers)).map (·.2))) :
    Moves p (.rest s) (.rest (brokers.foldl (drainBroker identity ready) s)) := by
  induction brokers generalizing s with
  | nil => exact .refl
  | cons broker brokers ih =>
    obtain ⟨first, left⟩ := moves_drainBroker read nodup sendable
      (nodup_cons.mp distinct).1 standing
    exact first.trans (ih (nodup_cons.mp distinct).2 left)

theorem moves_startReinit (due : s.identity = .init ∨
    ∃ identity, s.identity = .ready identity ∧ s.stampedUnresolved = 0) (allowed : p.bump s) :
    Moves p (.rest s) (.rest s.startReinit) := by
  unfold startReinit
  split_ifs with running
  · exact .refl
  · exact .single (.reinit (by simpa using running) due allowed)

theorem moves_applyBump (allowed : p.bump s) : Moves p (.rest s) (.rest s.applyBump) := by
  unfold applyBump
  split
  next init => exact moves_startReinit (.inl init) allowed
  next identity ready =>
    split_ifs with hold
    · exact .refl
    · obtain ⟨requested, clear⟩ : s.bumpRequested ∧ s.stampedUnresolved = 0 := by
        simpa using hold
      split
      next next bumped => exact .single (.bump ready requested clear bumped allowed)
      next => exact moves_startReinit (.inr ⟨identity, ready, clear⟩) allowed
  next => exact .refl

theorem moves_requestRefresh (s : Engine) (topics : List String) (now : Instant)
    (delay : Nat → Duration) : Moves p (.rest s) (.rest (s.requestRefresh topics now delay)) := by
  unfold requestRefresh
  split_ifs
  · exact .refl
  · exact .single (.book s.sealedThrough _ _ s.channelClosed)

theorem target_key {leader : PartitionKey → Option Int}
    {entry : Int × PartitionKey} (chosen : s.target leader key = some entry) : entry.2 = key := by
  obtain ⟨broker, _, rfl⟩ := Option.map_eq_some_iff.mp chosen
  rfl

theorem readyKeys_sendable {leader : PartitionKey → Option Int}
    {entry : Int × PartitionKey} (ready : entry ∈ s.readyKeys now leader) :
    s.sendable now entry.2 := by
  obtain ⟨key, mem, chosen⟩ := mem_filterMap.mp ready
  rw [target_key chosen]
  exact (mem_filter.mp mem).2

theorem readyKeys_nodup (s : Engine) (now : Instant) (leader : PartitionKey → Option Int) :
    ((s.readyKeys now leader).map (·.2)).Nodup := by
  refine (s.active.nodup.filter (s.sendable now)).sublist ?_
  rw [← map_id (s.active.keys.filter (s.sendable now))]
  exact Lists.map_filterMap_sublist id Prod.snd (fun _ _ chosen => target_key chosen) _

theorem moves_drained (s : Engine) (now : Instant) (leader : PartitionKey → Option Int)
    (delay : Nat → Duration) : Moves p (.rest s.applyBump) (.rest (s.drain now leader delay)) := by
  set s₀ := s.applyBump with s₀_eq
  have standing (keys : List PartitionKey) :
      Standing s₀ (s₀.requestRefresh (s₀.leaderless now leader) now delay) keys := by
    unfold requestRefresh
    split_ifs <;> exact ⟨rfl, rfl, rfl, fun _ _ => rfl⟩
  have distinct : (((s₀.readyKeys now leader).map (·.1)).dedup.insertionSort (· ≤ ·)).Nodup :=
    (perm_insertionSort _ _).nodup_iff.mpr (nodup_dedup _)
  exact (moves_requestRefresh s₀ _ now delay).trans
    (moves_drainBrokers rfl (readyKeys_nodup s₀ now leader) (fun _ => readyKeys_sendable) distinct
      (standing _))

theorem moves_drain (allowed : p.bump s) (now : Instant)
    (leader : PartitionKey → Option Int) (delay : Nat → Duration) :
    Moves p (.rest s) (.rest (s.drain now leader delay)) :=
  (moves_applyBump allowed).trans (moves_drained s now leader delay)

/-! Completion -/

theorem modifyQueue_of_lookup
    (present : s.partitions.lookup key = some queue) (f : PartitionQueue → PartitionQueue) :
    s.modifyQueue key f = s.setQueue key (f queue) := by
  simp only [modifyQueue, setQueue, present]

theorem acknowledge_of_lookup
    (batch : Batch) (offset time : Int) (delivery : DeliveryConfirmation)
    (present : s.partitions.lookup key = some queue) :
    s.acknowledge key batch offset time delivery =
      ((s.release batch).setQueue key { queue with
        backoffUntil := none
        lastAckedOffset :=
          if 0 ≤ offset then some (offset + batch.len - 1) else queue.lastAckedOffset }).emit
        (.acknowledged key batch.records :: answers key batch fun index data =>
          .ok (ackMetadata key offset time delivery index data)) := by
  unfold acknowledge
  dsimp only
  rw [modifyQueue_of_lookup (s := s.release batch) present]

theorem lookup_endAttempt (s : Engine) (key : PartitionKey) (queue : PartitionQueue) (batch : Batch)
    (outcome : BatchOutcome) : (s.endAttempt key queue batch outcome).partitions.lookup key =
      some { queue with inFlight := none } := AList.lookup_insert _

theorem honest_retryTimeout (batch : Batch) (error : KrafkaError) :
    batch.HonestError (retryTimeout batch error) := by
  intro message denies
  simp only [retryTimeout, deliveryTimeout, KrafkaError.deliveryTimeout.injEq] at denies
  exact denies.1

section Resolve

variable {s : Engine} {wire : List WireBatch} {key : PartitionKey} {batch : Batch}
  {outcome : BatchOutcome}

theorem moves_failInHand {error : KrafkaError} (unsettled : ¬outcome.Settles)
    (honest : p.error error ∨ batch.HonestError error) :
    Moves p ⟨s, wire, some (key, batch, outcome), []⟩ ⟨s.fail key batch error, wire, none, []⟩ :=
  .head (.condemn unsettled)
    (.single (.fail key batch error honest))

variable {queue : PartitionQueue} {now : Instant} {delay : Nat → Duration}

theorem moves_retryOrFail
    {error : KrafkaError} (present : s.partitions.lookup key = some queue)
    (unsettled : ¬outcome.Settles) (allowed : batch.Live now → p.retry s key batch outcome) :
    Moves p ⟨s, wire, some (key, batch, outcome), []⟩
      ⟨s.retryOrFail now delay key batch error batch.waiters.isNone, wire, none, []⟩ := by
  unfold retryOrFail
  split_ifs with spent
  · exact moves_failInHand unsettled (.inr (honest_retryTimeout batch error))
  · have live : batch.Live now := by
      simpa [Batch.Live, Option.isSome_iff_ne_none] using spent
    rw [modifyQueue_of_lookup present]
    exact .single (.retry _ error present live.1 unsettled (allowed live))

theorem moves_act
    {code : ErrorCode} {baseOffset logAppendTime : Int}
    (present : s.partitions.lookup key = some queue)
    (allowed : p.AllowsVerdict s now key batch outcome)
    (acks : ∀ duplicate, s.verdict key batch outcome = .ack duplicate → outcome.Acknowledges s.mode)
    (settles : outcome.Settles → ∃ duplicate, s.verdict key batch outcome = .ack duplicate)
    (restamps : s.verdict key batch outcome = .restamp → s.mode = .idempotent)
    (splits : ∀ bump, s.verdict key batch outcome = .split bump →
      1 < batch.len ∧ s.mode.isTransactional = false ∧
        (s.mode = .idempotent → batch.stamp.isSome → bump = true)) :
    Moves p ⟨s, wire, some (key, batch, outcome), []⟩
      ⟨s.act now delay key batch (s.verdict key batch outcome) code baseOffset logAppendTime
        batch.waiters.isNone, wire, none, []⟩ := by
  have mem : key ∈ s.partitions := AList.mem_of_lookup present
  unfold Policy.AllowsVerdict at allowed
  cases verdict : s.verdict key batch outcome with
  | ack duplicate =>
    exact .single (.acknowledge _ _ _ mem (acks duplicate verdict))
  | retry =>
    have unsettled : ¬outcome.Settles := by simpa [verdict] using settles
    simp only [verdict] at allowed
    exact moves_retryOrFail present unsettled allowed
  | restamp =>
    have unsettled : ¬outcome.Settles := by simpa [verdict] using settles
    simp only [verdict] at allowed
    simp only [act]
    split_ifs with live
    · have live : batch.Live now := by
        simpa [Batch.Live, Option.isSome_iff_ne_none] using live
      exact .single
        (.restamp code mem live.1 (restamps verdict) unsettled (allowed live))
    · exact moves_failInHand unsettled (.inr (honest_deliveryTimeout batch))
  | split bump =>
    have unsettled : ¬outcome.Settles := by simpa [verdict] using settles
    simp only [verdict] at allowed
    obtain ⟨several, mode, bumps⟩ := splits bump verdict
    simp only [act]
    split_ifs with go
    · obtain ⟨live, depth⟩ : batch.Live now ∧ batch.splitDepth < maxSplitDepth := by
        simpa [Batch.Live, Option.isSome_iff_ne_none] using go
      exact .single
        (.split bump mem live.1 several mode bumps unsettled (allowed live depth))
    · exact moves_failInHand unsettled (.inr (by intro message denies; cases denies))
  | fail failure =>
    have unsettled : ¬outcome.Settles := by simpa [verdict] using settles
    refine moves_failInHand unsettled (.inr fun message denies => ?_)
    cases failure <;> simp [failureError, compressionUnsupported, produceFailed] at denies
    split_ifs at denies
  | fatal =>
    have unsettled : ¬outcome.Settles := by simpa [verdict] using settles
    have other : ∀ message, fatalError key code ≠ .deliveryTimeout false message := by
      intro message
      unfold fatalError produceFailed
      split_ifs <;> simp
    exact (moves_failInHand unsettled (Policy.Credible.honest (.inr other))).trans
      (moves_fatal (.inr other) wire _)

theorem moves_resolve
    (present : s.partitions.lookup key = some queue) (known : p.AllowsError outcome)
    (allowed : p.AllowsVerdict s now key (batch.marked outcome) outcome) :
    Moves p ⟨s, wire, some (key, batch.marked outcome, outcome), []⟩
      ⟨s.resolve now delay key batch outcome, wire, none, []⟩ := by
  have mem : key ∈ s.partitions := AList.mem_of_lookup present
  unfold resolve
  rw [← batch.marked_waiters outcome]
  cases outcome with
  | unacknowledged => exact .single (.acknowledge _ _ _ mem trivial)
  | noAnswer => exact moves_retryOrFail present id allowed
  | notWritten =>
    dsimp only
    split_ifs with retriable
    · exact moves_retryOrFail present id (by
        simpa only [Policy.AllowsVerdict, verdict, retriable, if_true] using allowed)
    · exact moves_failInHand id (.inl known)
  | answer =>
    refine moves_act present allowed ?_ ?_ ?_ ?_
    · intro duplicate acked
      exact classify_ack acked
    · intro success
      exact ⟨false, classify_of_none success⟩
    · intro restamped
      exact (classify_restamp restamped).1
    · intro bump halved
      obtain ⟨mode, several, _, bumps⟩ := classify_split halved
      exact ⟨several, mode, fun idempotent _ => by simp_all⟩
  | tooLarge =>
    refine moves_act present allowed ?_ ?_ ?_ ?_ <;> simp only [verdict, tooLargeAction]
    · intro duplicate acked
      split_ifs at acked
    · intro impossible
      exact absurd impossible id
    · intro restamped
      split_ifs at restamped
    · intro bump halved
      split_ifs at halved with go
      obtain ⟨several, mode⟩ : 1 < (batch.marked .tooLarge).len ∧ s.mode.isTransactional = false := by
        simpa using go
      cases halved
      exact ⟨several, mode, fun _ stamped => stamped⟩

end Resolve

variable {delay : Nat → Duration}

theorem moves_completeResult
    {result : BatchResult} {sent : WireBatch} (carried : sent ∈ wire)
    (same : sent.key = result.key) (known : p.AllowsError result.outcome)
    (outcome : p.outcome sent result.outcome) (allowed : p.AllowsResult s now result) :
    Moves p ⟨s, wire, none, []⟩ ⟨completeResult now delay s result, wire.erase sent, none, []⟩ := by
  unfold Policy.AllowsResult at allowed
  unfold completeResult
  rw [← same] at allowed ⊢
  cases present : s.partitions.lookup sent.key with
  | none =>
    exact .single (.skipResult sent carried (by simp [Engine.queue, present]))
  | some queue =>
    simp only [present] at allowed ⊢
    cases slot : queue.inFlight with
    | none =>
      exact .single (.skipResult sent carried (by simp [Engine.queue, present, slot]))
    | some =>
      simp only [slot] at allowed ⊢
      exact .head
        (.endAttempt sent result.encoded result.outcome carried present slot outcome)
        (moves_resolve (lookup_endAttempt ..) known allowed)

theorem moves_completeResults {results : List BatchResult}
    (answered : (results.map (·.key)).Perm (wire.map (·.key)))
    (known : ∀ result ∈ results, p.AllowsError result.outcome ∧
      ∀ sent ∈ wire, sent.key = result.key → p.outcome sent result.outcome)
    (allowed : p.AllowsResults now delay s results) :
    Moves p ⟨s, wire, none, []⟩ (.rest (results.foldl (completeResult now delay) s)) := by
  induction results generalizing s wire with
  | nil =>
    have none : wire = [] := by simpa using answered.symm
    subst none
    exact .refl
  | cons result results ih =>
    obtain ⟨sent, carried, same⟩ : ∃ sent ∈ wire, sent.key = result.key :=
      mem_map.mp (answered.subset mem_cons_self)
    obtain ⟨error, outcome⟩ := known result mem_cons_self
    refine (moves_completeResult carried same error (outcome sent carried same) allowed.1).trans
      (ih ?_ ?_ allowed.2)
    · have split := answered.trans ((perm_cons_erase carried).map (·.key))
      simp only [map_cons, same] at split
      exact split.cons_inv
    · intro later mem
      obtain ⟨error, outcome⟩ := known later (mem_cons_of_mem _ mem)
      exact ⟨error, fun w hw => outcome w (mem_of_mem_erase hw)⟩

theorem moves_finish {serial : Nat}
    {results : List BatchResult} (allowed : p.Allows s (.complete now delay serial results)) :
    Moves p (.rest s) (.rest (s.finish now delay serial results)) := by
  unfold finish
  simp only [Policy.Allows] at allowed
  cases found : s.requests.find? (·.serial = serial) with
  | none => exact .refl
  | some request =>
    simp only [found] at allowed ⊢
    split_ifs with answered
    · obtain ⟨known, results, pruned⟩ := allowed answered
      refine .head (.finishRequest request (mem_of_find?_eq_some found)) ?_
      exact (moves_completeResults answered known results).tail (.prune pruned)
    · exact .refl

/-! Whole steps -/

theorem moves_reinitialised {result : Result (Int × Int)}
    (running : s.reinit) (allowed : p.Allows s (.reinitialised result)) :
    Moves p (.rest s) (.rest (s.reinitialised result)) := by
  cases result with
  | ok identity =>
    exact .single (.adopt identity.1 identity.2 running (allowed running))
  | error =>
    refine .head .reinitDone ?_
    simp only [reinitialised]
    split_ifs
    · exact .refl
    · exact moves_fatal (.inl allowed) [] _

theorem moves_handle {command : Command} (allowed : p.Allows s (.command now command)) :
    Moves p (.rest s) (.rest (s.handle now command)) := by
  cases command with
  | append append => exact .single (.append now append allowed)
  | flush =>
    exact .head (.book _ s.refresh s.nextRefreshAt s.channelClosed)
      (moves_sealActive _)
  | failUnsent =>
    exact (moves_failUnsent (.inl allowed.1) [] s).tail (.prune allowed.2)
  | setIdentity producerId epoch tv2 => exact .single (.setIdentity _ _ tv2 allowed)
  | terminate => exact (moves_terminateAll (.inl allowed.1) s).tail (.prune allowed.2)

theorem moves_step {input : Input} (allowed : p.Allows s input) :
    Moves p (.rest s) (.rest (s.step input)) := by
  cases input with
  | command =>
    simp only [step]
    split_ifs
    · exact .refl
    · exact moves_handle allowed
  | expire now => exact moves_expire now s
  | drain now leader delay => exact moves_drain allowed now leader delay
  | complete => exact moves_finish allowed
  | refreshed =>
    exact .single (.book s.sealedThrough _ s.nextRefreshAt s.channelClosed)
  | reinitialised =>
    simp only [step]
    split_ifs with running
    · exact moves_reinitialised running allowed
    · exact .refl
  | closed =>
    simp only [step]
    split_ifs
    · exact .refl
    · exact .head (.book _ s.refresh s.nextRefreshAt true) (moves_sealActive _)
  | reordered order => exact .single (.reorder order)

theorem invariant_of_step (Inv : Custody → Prop) {input : Input}
    (preserved : ∀ c c', Move p c c' → Inv c → Inv c') (allowed : p.Allows s input)
    (before : Inv (.rest s)) : Inv (.rest (s.step input)) := by
  have moves : ∀ c, Moves p (.rest s) c → Inv c := by
    intro c moves
    induction moves with
    | refl => exact before
    | tail _ move ih => exact preserved _ _ move ih
  exact moves _ (moves_step allowed)

theorem invariant_of_moves (Inv : Custody → Prop) {config : EngineConfig} {inputs : List Input}
    (preserved : ∀ c c', Move p c c' → Inv c → Inv c') (start : Inv (.rest (spawn config)))
    (allowed : Runs.Along step p.Allows (spawn config) inputs) : Inv (.rest (run config inputs)) :=
  allowed.invariant (fun s => Inv (.rest s)) (fun _ _ => invariant_of_step Inv preserved) start

end Krafka.Producer
