import Krafka.Consumer.Operations

/-! Which partitions are assigned. Apart from the three operations that assign or revoke, none
changes the set. -/

namespace Krafka.Consumer

open SubscriptionState

def Operation.assigns : Operation → Bool
  | .addPartitions _ | .removePartitions _ | .clearAssignment => true
  | _ => false

namespace SubscriptionState

variable {s : SubscriptionState} {key : PartitionKey}

theorem mem_assignedKeys : key ∈ s.assignedKeys ↔ key ∈ s.partitions := by
  rw [assignedKeys, (List.perm_insertionSort _ _).mem_iff, AList.mem_keys]

theorem mem_addPartition {k : PartitionKey} :
    key ∈ (s.addPartition k).partitions ↔ key = k ∨ key ∈ s.partitions := by
  simp only [addPartition, bump]
  split
  · rename_i present
    constructor
    · exact .inr
    · rintro (rfl | old)
      · exact present
      · exact old
  · exact AList.mem_insert _

theorem mem_addPartitions {keys : List PartitionKey} :
    key ∈ (s.addPartitions keys).partitions ↔ key ∈ s.partitions ∨ key ∈ keys := by
  induction keys generalizing s with
  | nil => simp [addPartitions]
  | cons k keys ih =>
    show key ∈ ((s.addPartition k).addPartitions keys).partitions ↔ _
    rw [ih, mem_addPartition, List.mem_cons]
    tauto

theorem mem_removePartitions {keys : List PartitionKey} :
    key ∈ (s.removePartitions keys).partitions ↔ key ∈ s.partitions ∧ key ∉ keys := by
  induction keys generalizing s with
  | nil => simp [removePartitions]
  | cons k keys ih =>
    show key ∈ ((s.removePartition k).removePartitions keys).partitions ↔ _
    have one : key ∈ (s.removePartition k).partitions ↔ key ≠ k ∧ key ∈ s.partitions :=
      AList.mem_erase
    rw [ih, one, List.mem_cons]
    tauto

end SubscriptionState

def SameKeys (s s' : SubscriptionState) : Prop := ∀ key, key ∈ s'.partitions ↔ key ∈ s.partitions

namespace SameKeys

variable {s s' s'' : SubscriptionState} {k : PartitionKey}

theorem refl (s : SubscriptionState) : SameKeys s s := fun _ => .rfl

theorem trans (first : SameKeys s s') (second : SameKeys s' s'') : SameKeys s s'' :=
  fun key => (second key).trans (first key)

theorem foldl {α β : Type} {f : α → β → α} (state : α → SubscriptionState)
    (one : ∀ a b, SameKeys (state a) (state (f a b))) (l : List β) (a : α) :
    SameKeys (state a) (state (l.foldl f a)) := by
  induction l generalizing a with
  | nil => exact refl _
  | cons b l ih => exact (one a b).trans (ih (f a b))

theorem put {r : PartitionRecord} (found : s.partitions.lookup k = some r) (r' : PartitionRecord) :
    SameKeys s (s.put k r') :=
  fun _ => AList.mem_insert_of_mem (AList.mem_of_lookup found) r'

theorem modify (f : PartitionRecord → PartitionRecord) : SameKeys s (s.modify k f) := by
  unfold SubscriptionState.modify
  split
  · next r found => exact put found _
  · exact refl s

theorem reposition (f : PartitionRecord → PartitionRecord) : SameKeys s (s.reposition k f) := by
  unfold SubscriptionState.reposition
  exact (show SameKeys s s.bump.2 from refl s).trans (modify _)

theorem requestReset (reset : OffsetReset) : SameKeys s (s.requestReset k reset).2 := by
  unfold SubscriptionState.requestReset
  split
  · exact reposition _
  · exact refl s

theorem visitTarget (now : Instant) (visited : List FetchTarget × SubscriptionState)
    (k : PartitionKey) : SameKeys visited.2 (SubscriptionState.visitTarget now visited k).2 := by
  unfold SubscriptionState.visitTarget
  split
  · exact refl _
  · next r found => exact put found _

theorem takeFrom (max : Nat) (taken : Delivery × SubscriptionState) (k : PartitionKey) :
    SameKeys taken.2 (SubscriptionState.takeFrom max taken k).2 := by
  simp only [SubscriptionState.takeFrom]
  split
  · exact refl _
  · split
    · exact refl _
    · next r found =>
      split
      · exact refl _
      · exact put found _

theorem completeParts (parts : List DeliveredPartition) (records : List ConsumerRecord)
    (remaining : Nat) (s : SubscriptionState) :
    SameKeys s (s.completeParts parts records remaining).2 := by
  induction parts generalizing s records remaining with
  | nil => exact refl s
  | cons part parts ih =>
    simp only [SubscriptionState.completeParts]
    split
    · exact ih _ _ s
    · next r found =>
      split
      · exact ih _ _ s
      · exact (put found _).trans (ih _ _ _)

end SameKeys

open SubscriptionState in
theorem Client.step_sameKeys (c : Client) {operation : Operation}
    (still : operation.assigns = false) : SameKeys c.state (c.step operation).state := by
  have finish (index handedOut : Nat) : SameKeys c.state (c.finish index handedOut).state := by
    unfold Client.finish
    split
    · exact .refl _
    · exact .completeParts _ _ _ _
  cases operation with
  | addPartitions | removePartitions | clearAssignment => cases still
  | seek =>
    simp only [Client.step, seek]
    split
    · exact .reposition _
    · exact .refl _
  | requestReset k reset => exact .requestReset reset
  | resetIfCurrent k version reset =>
    simp only [Client.step, resetIfCurrent]
    split
    · exact .requestReset reset
    · exact .refl _
  | truncate =>
    simp only [Client.step, truncate]
    split
    · exact .refl _
    · split
      · exact .refl _
      · exact .reposition _
  | setInitialPosition =>
    simp only [Client.step, setInitialPosition]
    split
    · next r found =>
      split
      · exact .put found _
      · exact .refl _
    · exact .refl _
  | setPendingReset | backOff | markValidated | clearBackoff | markUnvalidated | updateWatermarks
  | setPreferredReplica => exact .modify _
  | setPaused topic partitions => exact .foldl id (fun _ _ => .modify _) partitions c.state
  | fetchTargets now =>
    have visits := SameKeys.foldl Prod.snd (SameKeys.visitTarget now) c.state.assignedKeys
      ([], c.state)
    simp only [Client.step, fetchTargets]
    split <;> exact visits
  | installFetch =>
    simp only [Client.step, installFetch]
    split
    · exact .refl _
    · next r found =>
      split
      · exact .refl _
      · exact .put found _
  | takeDelivery max =>
    simp only [Client.step, takeDelivery]
    split
    · exact .refl _
    · split
      · exact .refl _
      · exact .foldl Prod.snd (SameKeys.takeFrom max) _ ({}, { c.state with rotation := _ })
  | completeDelivery index handedOut => exact finish index handedOut
  | abortDelivery index => exact finish index 0

/-! Applying an assignment: what it takes away goes first, then what it brings comes. -/

def Exactly (s : SubscriptionState) (keys : List PartitionKey) : Prop :=
  ∀ key, key ∈ s.partitions ↔ key ∈ keys

def ExactlyWith (s : SubscriptionState) (added keys : List PartitionKey) : Prop :=
  ∀ key, key ∈ s.partitions ∨ key ∈ added ↔ key ∈ keys

def ExactlyAfter (s : SubscriptionState) (revoked added keys : List PartitionKey) : Prop :=
  ∀ key, key ∈ s.partitions ∧ key ∉ revoked ∨ key ∈ added ↔ key ∈ keys

section Apply

variable {s s' : SubscriptionState} {revoked added new keys : List PartitionKey}

theorem Exactly.congr (same : SameKeys s s') (exactly : Exactly s keys) : Exactly s' keys :=
  fun key => (same key).trans (exactly key)

theorem ExactlyWith.congr (same : SameKeys s s') (exactly : ExactlyWith s added keys) :
    ExactlyWith s' added keys :=
  fun key => (or_congr_left (same key)).trans (exactly key)

theorem ExactlyAfter.congr (same : SameKeys s s') (exactly : ExactlyAfter s revoked added keys) :
    ExactlyAfter s' revoked added keys :=
  fun key => (or_congr_left (and_congr_left' (same key))).trans (exactly key)

theorem ExactlyWith.add (exactly : ExactlyWith s added keys) :
    Exactly (s.addPartitions added) keys :=
  fun key => mem_addPartitions.trans (exactly key)

theorem ExactlyAfter.revoke (exactly : ExactlyAfter s revoked added keys) :
    ExactlyWith (s.removePartitions revoked) added keys :=
  fun key => (or_congr_left mem_removePartitions).trans (exactly key)

theorem ExactlyAfter.of_isEmpty (none_ : revoked.isEmpty)
    (exactly : ExactlyAfter s revoked added keys) : ExactlyWith s added keys := by
  rw [List.isEmpty_iff.mp none_] at exactly
  simpa [ExactlyAfter, ExactlyWith] using exactly

theorem exactlyAfter_difference (s : SubscriptionState) (same : ∀ key, key ∈ new ↔ key ∈ keys) :
    ExactlyAfter s (s.assignedKeys.filter (· ∉ new))
      ((new.filter (· ∉ s.partitions)).insertionSort PartitionKey.le) keys := by
  intro key
  rw [(List.perm_insertionSort _ _).mem_iff, List.mem_filter, List.mem_filter,
    mem_assignedKeys, ← same key]
  simp only [decide_not, Bool.not_eq_true', decide_eq_false_iff_not]
  tauto

end Apply

/-! The assignment as a set, changed by three operations. -/

def Operation.assign (assigned : Set PartitionKey) : Operation → Set PartitionKey
  | .addPartitions keys => assigned ∪ {key | key ∈ keys}
  | .removePartitions keys => assigned \ {key | key ∈ keys}
  | .clearAssignment => ∅
  | _ => assigned

def Client.assigned (c : Client) : Set PartitionKey := {key | key ∈ c.state.partitions}

theorem Client.assigned_step (c : Client) (operation : Operation) :
    (c.step operation).assigned = operation.assign c.assigned := by
  cases operation with
  | addPartitions => exact Set.ext fun _ => mem_addPartitions
  | removePartitions => exact Set.ext fun _ => mem_removePartitions
  | clearAssignment => exact Set.eq_empty_of_forall_notMem fun _ => AList.notMem_empty _
  | _ => exact Set.ext (c.step_sameKeys rfl)

/-- Through fetches, deliveries, seeks and resets of any kind, the assigned partitions are the set
that the assignments and revocations among the operations make. -/
theorem assigned_refines_set (operations : List Operation) :
    (Client.run operations).assigned = operations.foldl Operation.assign ∅ := by
  induction operations using List.reverseRecOn with
  | nil => exact Set.eq_empty_of_forall_notMem fun _ => AList.notMem_empty _
  | append_singleton operations operation ih =>
    rw [Client.run, List.foldl_concat, List.foldl_concat, ← ih]
    exact Client.assigned_step _ operation

end Krafka.Consumer
