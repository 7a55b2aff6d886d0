import Krafka.Library.Maps
import Krafka.Library.Runs
import Krafka.Consumer.State

/-! Runs over the subscription state. Fetches, offset lookups and deliveries finish whenever
they like, so their results come in any order between the application's own calls; a
delivery is completed or put back once. -/

namespace Krafka.Consumer

inductive Operation where
  | addPartitions (keys : List PartitionKey)
  | removePartitions (keys : List PartitionKey)
  | clearAssignment
  | seek (key : PartitionKey) (offset : Offset)
  | requestReset (key : PartitionKey) (reset : OffsetReset)
  | resetIfCurrent (key : PartitionKey) (version : Nat) (reset : OffsetReset)
  | setInitialPosition (key : PartitionKey) (version : Nat) (offset : Offset) (epoch : Option Int)
  | setPendingReset (key : PartitionKey) (version : Nat) (reset : OffsetReset)
  | backOff (key : PartitionKey) (version : Option Nat) (now : Instant)
  | truncate (key : PartitionKey) (version : Option Nat) (endOffset : Offset)
  | markValidated (key : PartitionKey) (version : Nat)
  | markUnvalidated (key : PartitionKey)
  | setPaused (topic : String) (partitions : List Int) (paused : Bool)
  | fetchTargets (now : Instant)
  | installFetch (target : FetchTarget) (fetch : CompletedFetch)
  | clearBackoff (key : PartitionKey) (version : Nat)
  | updateWatermarks (key : PartitionKey)
      (highWatermark lastStableOffset logStartOffset : Option Offset) (now : Instant)
  | setPreferredReplica (key : PartitionKey) (replica : Option (Int × Instant))
  | takeDelivery (max : Nat)
  | completeDelivery (index handedOut : Nat)
  | abortDelivery (index : Nat)

inductive Event where
  | accepted (key : PartitionKey) (version : Nat) (offset : Offset) (fetch : CompletedFetch)
  | handed (key : PartitionKey) (version : Nat) (records : List ConsumerRecord)

def Event.ofDelivered (delivered : DeliveredPartition × List ConsumerRecord) : Event :=
  .handed delivered.1.key delivered.1.version delivered.2

structure Client where
  state : SubscriptionState := {}
  outstanding : List Delivery := []
  history : List Event := []

namespace Client

def finish (c : Client) (index handedOut : Nat) : Client :=
  match c.outstanding[index]? with
  | none => c
  | some delivery =>
    let (out, state) :=
      c.state.completeParts delivery.partitions delivery.records handedOut
    { state
      outstanding := c.outstanding.eraseIdx index
      history := c.history ++ out.map .ofDelivered }

def step (c : Client) : Operation → Client
  | .addPartitions keys => { c with state := c.state.addPartitions keys }
  | .removePartitions keys => { c with state := c.state.removePartitions keys }
  | .clearAssignment => { c with state := c.state.clearAssignment }
  | .seek key offset => { c with state := (c.state.seek key offset).2 }
  | .requestReset key reset => { c with state := (c.state.requestReset key reset).2 }
  | .resetIfCurrent key version reset => { c with state := c.state.resetIfCurrent key version reset }
  | .setInitialPosition key version offset epoch =>
    { c with state := (c.state.setInitialPosition key version offset epoch).2 }
  | .setPendingReset key version reset =>
    { c with state := c.state.setPendingReset key version reset }
  | .backOff key version now => { c with state := c.state.backOff key version now }
  | .truncate key version endOffset =>
    { c with state := (c.state.truncate key version endOffset).2 }
  | .markValidated key version => { c with state := c.state.markValidated key version }
  | .markUnvalidated key => { c with state := c.state.markUnvalidated key }
  | .setPaused topic partitions paused =>
    { c with state := (c.state.setPaused topic partitions paused).2 }
  | .fetchTargets now => { c with state := (c.state.fetchTargets now).2 }
  | .installFetch target fetch =>
    let (applied, state) := c.state.installFetch target fetch
    { c with
      state
      history := c.history ++
        if applied then [.accepted target.key target.version target.offset fetch] else [] }
  | .clearBackoff key version => { c with state := c.state.clearBackoff key version }
  | .updateWatermarks key highWatermark lastStableOffset logStartOffset now =>
    { c with state :=
        c.state.updateWatermarks key highWatermark lastStableOffset logStartOffset now }
  | .setPreferredReplica key replica => { c with state := c.state.setPreferredReplica key replica }
  | .takeDelivery max =>
    let (delivery, state) := c.state.takeDelivery max
    { c with state, outstanding := c.outstanding ++ delivery.toList }
  | .completeDelivery index handedOut => c.finish index handedOut
  | .abortDelivery index => c.finish index 0

def run (operations : List Operation) : Client := operations.foldl step {}

end Client

/-! What the operations do to one partition. Apart from fetches and deliveries an operation
keeps what decides the flow of records, or gives the partition a version of its own. -/

def PartitionRecord.core (r : PartitionRecord) : Nat × Option Offset × Bool × Option CompletedFetch :=
  (r.version, r.position, r.delivering, r.buffered)

inductive Change (before after : Nat) : Option PartitionRecord → Option PartitionRecord → Prop where
  | kept {o o'} (same : o'.map PartitionRecord.core = o.map PartitionRecord.core) :
      Change before after o o'
  | removed {o} : Change before after o none
  | renewed {o r} (fresh : before < r.version) (known : r.version ≤ after)
      (empty : r.buffered = none) (idle : r.delivering = false) : Change before after o (some r)
  | placed {r : PartitionRecord} {offset} {r' : PartitionRecord} (unplaced : r.position = none)
      (core : r'.core = (r.version, some offset, r.delivering, r.buffered)) :
      Change before after (some r) (some r')

def SubscriptionState.counter (s : SubscriptionState) : Nat × List Nat := (s.nextVersion, s.issued)

structure Moves (s s' : SubscriptionState) : Prop where
  counted : s'.counter = s.counter ∨ s'.counter = s.bump.2.counter
  change : ∀ key, Change s.nextVersion s'.nextVersion
    (s.partitions.lookup key) (s'.partitions.lookup key)

theorem Moves.version {s s' : SubscriptionState} (moves : Moves s s') :
    s.nextVersion ≤ s'.nextVersion := by
  rcases moves.counted with same | bumped
  · exact (congrArg Prod.fst same).ge
  · exact (Nat.le_succ _).trans (congrArg Prod.fst bumped).ge

def Operation.repositions (key : PartitionKey) : Operation → Bool
  | .removePartitions keys => key ∈ keys
  | .clearAssignment => true
  | .seek k _ | .requestReset k _ | .resetIfCurrent k _ _ | .truncate k _ _ => k = key
  | _ => false

def Keeps (key : PartitionKey) (s s' : SubscriptionState) : Prop :=
  ∀ r, s.partitions.lookup key = some r →
    ∃ r', s'.partitions.lookup key = some r' ∧ r'.version = r.version

namespace Keeps

variable {key : PartitionKey} {s s' s'' : SubscriptionState}

theorem of_lookup (same : s'.partitions.lookup key = s.partitions.lookup key) : Keeps key s s' :=
  fun r found => ⟨r, same.trans found, rfl⟩

theorem trans (first : Keeps key s s') (second : Keeps key s' s'') : Keeps key s s'' := by
  intro r found
  obtain ⟨r', found', version⟩ := first r found
  obtain ⟨r'', found'', version'⟩ := second r' found'
  exact ⟨r'', found'', version'.trans version⟩

end Keeps

structure Shifts (touched : PartitionKey → Bool) (s s' : SubscriptionState) : Prop
    extends Moves s s' where
  keeps : ∀ key, touched key = false → Keeps key s s'

open Relation

namespace SubscriptionState

variable {s : SubscriptionState} {key k : PartitionKey} {touched : PartitionKey → Bool}

theorem lookup_put (k : PartitionKey) (r : PartitionRecord) :
    (s.put key r).partitions.lookup k = if k = key then some r else s.partitions.lookup k := by
  by_cases same : k = key
  · subst same
    simp [put]
  · simp [put, same]

theorem lookup_put_self {r : PartitionRecord} (found : s.partitions.lookup k = some r) :
    (s.put k r).partitions.lookup key = s.partitions.lookup key := by
  rw [lookup_put]
  split
  · rename_i here
    rw [here, found]
  · rfl

theorem lookup_modify (f : PartitionRecord → PartitionRecord)
    (idle : ∀ r, key = k → s.partitions.lookup key = some r → f r = r) :
    (s.modify k f).partitions.lookup key = s.partitions.lookup key := by
  unfold modify
  split
  · rename_i r found
    by_cases here : key = k
    · rw [idle r here (here ▸ found)]
      exact lookup_put_self found
    · rw [lookup_put, if_neg here]
  · rfl

theorem lookup_reposition (f : PartitionRecord → PartitionRecord) (apart : key ≠ k) :
    (s.reposition k f).partitions.lookup key = s.partitions.lookup key :=
  lookup_modify _ fun _ here => absurd here apart

@[simp] theorem nextVersion_put (r : PartitionRecord) :
    (s.put key r).nextVersion = s.nextVersion := rfl

theorem shifts_put {r r' : PartitionRecord} (found : s.partitions.lookup key = some r)
    (change : Change s.nextVersion s.nextVersion (some r) (some r'))
    (version : r'.version = r.version) : Shifts touched s (s.put key r') where
  counted := .inl rfl
  change k := by
    rw [lookup_put, nextVersion_put]
    by_cases same : k = key
    · rw [if_pos same, same, found]
      exact change
    · rw [if_neg same]
      exact .kept rfl
  keeps k _ q at_ := by
    rw [lookup_put]
    split
    · rename_i here
      obtain rfl := Option.some.inj (at_.symm.trans (here ▸ found))
      exact ⟨r', rfl, version⟩
    · exact ⟨q, at_, rfl⟩

theorem shifts_refl (s : SubscriptionState) : Shifts touched s s :=
  ⟨⟨.inl rfl, fun _ => .kept rfl⟩, fun _ _ => .of_lookup rfl⟩

theorem shifts_modify {f : PartitionRecord → PartitionRecord} (same : ∀ r, (f r).core = r.core) :
    Shifts touched s (s.modify key f) := by
  unfold modify
  split
  · rename_i r found
    exact shifts_put found (.kept (congrArg some (same r))) (congrArg Prod.fst (same r))
  · exact shifts_refl s

theorem shifts_addPartition (key : PartitionKey) : Shifts touched s (s.addPartition key) := by
  simp only [addPartition, bump]
  split
  · exact shifts_refl s
  · rename_i fresh
    refine ⟨⟨.inr rfl, fun k => ?_⟩, fun k _ r found => ⟨r, ?_, rfl⟩⟩
    · rw [lookup_put]
      split
      · exact .renewed (Nat.lt_succ_self _) le_rfl rfl rfl
      · exact .kept rfl
    · rw [lookup_put, if_neg]
      · exact found
      · rintro rfl
        exact fresh (AList.mem_of_lookup found)

theorem apart_of_touched (mine : touched key) (other : touched k = false) : k ≠ key := by
  rintro rfl
  cases mine.symm.trans other

theorem shifts_removePartition (mine : touched key) :
    Shifts touched s (s.removePartition key) where
  counted := .inl rfl
  change k := by
    by_cases same : k = key
    · subst same
      simp only [removePartition, AList.lookup_erase]
      exact .removed
    · simp only [removePartition, AList.lookup_erase_ne same]
      exact .kept rfl
  keeps _ other := .of_lookup (AList.lookup_erase_ne (apart_of_touched mine other))

theorem shifts_reposition (mine : touched key) (f : PartitionRecord → PartitionRecord) :
    Shifts touched s (s.reposition key f) := by
  have counted : (s.reposition key f).counter = s.bump.2.counter := by
    unfold reposition modify
    simp only [bump]
    split <;> rfl
  have version : (s.reposition key f).nextVersion = s.nextVersion + 1 := congrArg Prod.fst counted
  refine ⟨⟨.inr counted, fun k => ?_⟩, fun _ other =>
    .of_lookup (lookup_reposition f (apart_of_touched mine other))⟩
  rw [version]
  unfold reposition modify
  simp only [bump]
  split
  · rw [lookup_put]
    split
    · exact .renewed (Nat.lt_succ_self _) le_rfl rfl rfl
    · exact .kept rfl
  · exact .kept rfl

theorem shifts_requestReset (mine : touched key) (reset : OffsetReset) :
    Shifts touched s (s.requestReset key reset).2 := by
  unfold requestReset
  split
  · exact shifts_reposition mine _
  · exact shifts_refl s

theorem shifts_setInitialPosition (version : Nat) (offset : Offset) (epoch : Option Int) :
    Shifts touched s (s.setInitialPosition key version offset epoch).2 := by
  unfold setInitialPosition
  split
  · rename_i r found
    split
    · rename_i current
      exact shifts_put found (.placed current.2 rfl) rfl
    · exact shifts_refl s
  · exact shifts_refl s

theorem shifts_truncate (mine : touched key) (version : Option Nat) (endOffset : Offset) :
    Shifts touched s (s.truncate key version endOffset).2 := by
  unfold truncate
  split
  · exact shifts_refl s
  · split
    · exact shifts_refl s
    · exact shifts_reposition mine _

theorem core_expireReplica (r : PartitionRecord) (now : Instant) :
    (r.expireReplica now).core = r.core := by
  unfold PartitionRecord.expireReplica
  split
  · split <;> rfl
  · rfl

theorem shifts_visitTarget (now : Instant) (visited : List FetchTarget × SubscriptionState)
    (key : PartitionKey) : Shifts touched visited.2 (visitTarget now visited key).2 := by
  unfold visitTarget
  split
  · exact shifts_refl _
  · rename_i r found
    have core := core_expireReplica r now
    exact shifts_put found (.kept (congrArg some core)) (congrArg Prod.fst core)

theorem shifts_foldl {α β : Type} {f : α → β → α} (state : α → SubscriptionState) {l : List β}
    (one : ∀ a, ∀ b ∈ l, Shifts touched (state a) (state (f a b))) (a : α) :
    ReflTransGen (Shifts touched) (state a) (state (l.foldl f a)) := by
  induction l generalizing a with
  | nil => exact .refl
  | cons b l ih =>
    exact .head (one a b List.mem_cons_self)
      (ih (fun a b mem => one a b (List.mem_cons_of_mem _ mem)) (f a b))

theorem shifts_fetchTargets (now : Instant) :
    ReflTransGen (Shifts touched) s (s.fetchTargets now).2 := by
  have visits : ReflTransGen (Shifts touched) s
      (s.assignedKeys.foldl (visitTarget now) ([], s)).2 :=
    shifts_foldl Prod.snd (fun visited key _ => shifts_visitTarget now visited key) ([], s)
  simp only [fetchTargets]
  split
  · exact visits
  · exact visits.tail ⟨⟨.inl rfl, fun _ => .kept rfl⟩, fun _ _ => .of_lookup rfl⟩

end SubscriptionState

def Operation.flows : Operation → Bool
  | .installFetch .. | .takeDelivery _ | .completeDelivery .. | .abortDelivery _ => true
  | _ => false

namespace Client

variable (c : Client) {operation : Operation}

theorem step_still (still : operation.flows = false) :
    c.step operation = { c with state := (c.step operation).state } := by
  cases operation <;> first | rfl | cases still

open SubscriptionState in
theorem step_shifts (still : operation.flows = false) :
    ReflTransGen (Shifts (Operation.repositions · operation)) c.state
      (c.step operation).state := by
  cases operation with
  | addPartitions => exact shifts_foldl id (fun _ key _ => shifts_addPartition key) _
  | removePartitions =>
    exact shifts_foldl id (fun _ key mem => shifts_removePartition (decide_eq_true mem)) _
  | clearAssignment => exact .single ⟨⟨.inl rfl, fun _ => .removed⟩, fun _ kept => nomatch kept⟩
  | seek key offset =>
    simp only [step, seek]
    split
    · exact .single (shifts_reposition (decide_eq_true rfl) _)
    · exact .refl
  | requestReset key reset => exact .single (shifts_requestReset (decide_eq_true rfl) reset)
  | resetIfCurrent key version reset =>
    simp only [step, resetIfCurrent]
    split
    · exact .single (shifts_requestReset (decide_eq_true rfl) reset)
    · exact .refl
  | setInitialPosition key version offset epoch =>
    exact .single (shifts_setInitialPosition version offset epoch)
  | truncate key version endOffset =>
    exact .single (shifts_truncate (decide_eq_true rfl) version endOffset)
  | fetchTargets now => exact shifts_fetchTargets now
  | setPaused topic partitions paused =>
    have one (s : SubscriptionState) (partition : Int) :
        Shifts (Operation.repositions · (.setPaused topic partitions paused)) s
          (s.modify (topic, partition) ({ · with paused })) := shifts_modify fun _ => rfl
    exact shifts_foldl id (fun s partition _ => one s partition) c.state
  | setPendingReset | backOff | markValidated | clearBackoff =>
    exact .single (shifts_modify fun r => by split <;> rfl)
  | markUnvalidated | updateWatermarks | setPreferredReplica =>
    exact .single (shifts_modify fun _ => rfl)
  | installFetch | takeDelivery | completeDelivery | abortDelivery => cases still

end Client

end Krafka.Consumer
