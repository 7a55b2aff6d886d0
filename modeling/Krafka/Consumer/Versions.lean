import Krafka.Consumer.Delivery

/-! The versions of partitions. Every lookup, fetch and delivery carries the version it was
started under, so a partition that has moved since is left alone by its result. -/

namespace Krafka.Consumer

open Relation

/-! Versions only grow -/

structure Advances (s s' : SubscriptionState) : Prop where
  counter : s.nextVersion ≤ s'.nextVersion
  issues : ∃ more, s'.issued = s.issued ++ more ∧ more.Pairwise (· < ·) ∧
    ∀ version ∈ more, s.nextVersion < version ∧ version ≤ s'.nextVersion
  draws : ∀ key r', s'.partitions.lookup key = some r' →
    (∃ r, s.partitions.lookup key = some r ∧ r'.version = r.version) ∨
      s.nextVersion < r'.version ∧ r'.version ∈ s'.issued

namespace Advances

variable {s s' s'' : SubscriptionState}

theorem of_counter (same : s'.counter = s.counter)
    (draws : ∀ key r', s'.partitions.lookup key = some r' →
      ∃ r, s.partitions.lookup key = some r ∧ r'.version = r.version) : Advances s s' where
  counter := (congrArg Prod.fst same).ge
  issues := ⟨[], (congrArg Prod.snd same).trans (List.append_nil _).symm, .nil, by simp⟩
  draws key r' found := .inl (draws key r' found)

theorem refl (s : SubscriptionState) : Advances s s :=
  of_counter rfl fun _ r' found => ⟨r', found, rfl⟩

theorem trans (first : Advances s s') (second : Advances s' s'') : Advances s s'' where
  counter := first.counter.trans second.counter
  issues := by
    obtain ⟨more, eq, increasing, bounds⟩ := first.issues
    obtain ⟨more', eq', increasing', bounds'⟩ := second.issues
    refine ⟨more ++ more', by rw [eq', eq, List.append_assoc], ?_, fun version mem => ?_⟩
    · refine List.pairwise_append.mpr ⟨increasing, increasing', fun v mem v' mem' => ?_⟩
      exact (bounds v mem).2.trans_lt (bounds' v' mem').1
    · rcases List.mem_append.mp mem with old | new
      · exact ⟨(bounds version old).1, (bounds version old).2.trans second.counter⟩
      · exact ⟨first.counter.trans_lt (bounds' version new).1, (bounds' version new).2⟩
  draws key r'' found := by
    obtain ⟨more', eq', -, -⟩ := second.issues
    rcases second.draws key r'' found with ⟨r', found', same'⟩ | ⟨fresh, drawn⟩
    · rcases first.draws key r' found' with ⟨r, before, same⟩ | ⟨fresh, drawn⟩
      · exact .inl ⟨r, before, same'.trans same⟩
      · refine .inr ⟨same' ▸ fresh, ?_⟩
        rw [eq', same']
        exact List.mem_append_left _ drawn
    · exact .inr ⟨first.counter.trans_lt fresh, drawn⟩

theorem of_moves (moves : Moves s s') : Advances s s' where
  counter := moves.version
  issues := by
    rcases moves.counted with same | bumped
    · exact ⟨[], (congrArg Prod.snd same).trans (List.append_nil _).symm, .nil, by simp⟩
    · refine ⟨[s.nextVersion + 1], congrArg Prod.snd bumped, List.pairwise_singleton _ _, ?_⟩
      have counter : s'.nextVersion = s.nextVersion + 1 := congrArg Prod.fst bumped
      intro version mem
      rw [List.mem_singleton.mp mem, counter]
      exact ⟨Nat.lt_succ_self _, le_rfl⟩
  draws key r' found := by
    rcases (found ▸ moves.change key).flow with ⟨fresh, known, -⟩ | ⟨old, before, version, -⟩
    · right
      rcases moves.counted with same | bumped
      · have counter : s'.nextVersion = s.nextVersion := congrArg Prod.fst same
        omega
      · have counter : s'.nextVersion = s.nextVersion + 1 := congrArg Prod.fst bumped
        have issued : s'.issued = s.issued ++ [s.nextVersion + 1] := congrArg Prod.snd bumped
        have drawn : r'.version = s.nextVersion + 1 := by omega
        rw [issued, drawn]
        exact ⟨Nat.lt_succ_self _, List.mem_append_right _ List.mem_cons_self⟩
    · exact .inl ⟨old, before, version⟩

end Advances

namespace Client

variable {c : Client} {operation : Operation}

theorem step_flows (sound : Sound c) (flows : operation.flows) :
    (c.step operation).state.counter = c.state.counter ∧
      ∀ key, ((c.step operation).state.partitions.lookup key).map (·.version) =
        (c.state.partitions.lookup key).map (·.version) := by
  have finish (index handedOut : Nat) : (c.finish index handedOut).state.counter = c.state.counter ∧
      ∀ key, ((c.finish index handedOut).state.partitions.lookup key).map (·.version) =
        (c.state.partitions.lookup key).map (·.version) := by
    unfold Client.finish
    split
    · exact ⟨rfl, fun _ => rfl⟩
    · rename_i d at_
      obtain ⟨counted, -, each⟩ := completeParts_completed
        (sound.distinct d (List.mem_of_getElem? at_)) c.state d.records handedOut
      refine ⟨counted, fun key => ?_⟩
      cases each key with
      | left same => exact congrArg _ same
      | settled before _ now =>
        dsimp only
        rw [before, now]
        exact congrArg some (version_settle ..)
  cases operation with
  | installFetch target fetch =>
    simp only [Client.step]
    rcases installFetch_cases c.state target fetch with
      rejected | ⟨r, r', found, -, -, -, installed, version, -⟩
    · rw [rejected]
      exact ⟨rfl, fun _ => rfl⟩
    · rw [installed]
      refine ⟨rfl, fun key => ?_⟩
      rw [SubscriptionState.lookup_put]
      split
      · rename_i here
        rw [here, found]
        exact congrArg some version
      · rfl
  | takeDelivery max =>
    simp only [Client.step]
    rcases takeDelivery_cases c.state max with nothing | ⟨d, s, keys, took, counted, -, -, -, each⟩
    · rw [nothing]
      exact ⟨rfl, fun _ => rfl⟩
    · rw [took]
      refine ⟨counted, fun key => ?_⟩
      cases each key with
      | left same => exact congrArg _ same
      | taken _ before _ _ now =>
        rw [before, now]
        rfl
  | completeDelivery index handedOut => exact finish index handedOut
  | abortDelivery index => exact finish index 0
  | _ => cases flows

theorem step_advances (sound : Sound c) (operation : Operation) :
    Advances c.state (c.step operation).state := by
  cases flows : operation.flows with
  | false =>
    have shifts := c.step_shifts flows
    generalize (c.step operation).state = s at shifts
    induction shifts with
    | refl => exact .refl _
    | tail _ one ih => exact ih.trans (.of_moves one.toMoves)
  | true =>
    obtain ⟨counted, versions⟩ := step_flows sound flows
    refine .of_counter counted fun key r' found => ?_
    have same := versions key
    rw [found] at same
    obtain ⟨r, before, version⟩ := Option.map_eq_some_iff.mp same.symm
    exact ⟨r, before, version.symm⟩

theorem run_concat (before during : List Operation) (operation : Operation) :
    run (before ++ (during ++ [operation])) = (run (before ++ during)).step operation := by
  simp [run]

theorem run_advances (before during : List Operation) :
    Advances (run before).state (run (before ++ during)).state := by
  induction during using List.reverseRecOn with
  | nil => simpa using Advances.refl _
  | append_singleton during operation ih =>
    rw [run_concat]
    exact ih.trans (step_advances (Sound.run _) operation)

end Client

/-! Results that come back late -/

inductive Captured where
  | fetch (target : FetchTarget) (fetch : CompletedFetch)
  | initialPosition (key : PartitionKey) (version : Nat) (offset : Offset) (epoch : Option Int)
  | pendingReset (key : PartitionKey) (version : Nat) (reset : OffsetReset)
  | reset (key : PartitionKey) (version : Nat) (reset : OffsetReset)
  | truncation (key : PartitionKey) (version : Nat) (endOffset : Offset)
  | backoff (key : PartitionKey) (version : Nat) (now : Instant)
  | validation (key : PartitionKey) (version : Nat)
  | delivery (delivery : Delivery) (handedOut : Nat)

namespace Captured

def apply (s : SubscriptionState) : Captured → SubscriptionState
  | .fetch target result => (s.installFetch target result).2
  | .initialPosition key version offset epoch => (s.setInitialPosition key version offset epoch).2
  | .pendingReset key version policy => s.setPendingReset key version policy
  | .reset key version policy => s.resetIfCurrent key version policy
  | .truncation key version endOffset => (s.truncate key (some version) endOffset).2
  | .backoff key version now => s.backOff key (some version) now
  | .validation key version => s.markValidated key version
  | .delivery taken handedOut => (s.completeDelivery taken handedOut).2

def partitions : Captured → List (PartitionKey × Nat)
  | .fetch target _ => [(target.key, target.version)]
  | .initialPosition key version _ _ | .pendingReset key version _ | .reset key version _
  | .truncation key version _ | .backoff key version _ | .validation key version => [(key, version)]
  | .delivery taken _ => taken.partitions.map fun part => (part.key, part.version)

/-- Nothing in the result was captured under the version the partition has now, if it is
assigned at all. -/
def Stale (s : SubscriptionState) (key : PartitionKey) (captured : Captured) : Prop :=
  ∀ r, s.partitions.lookup key = some r → (key, r.version) ∉ captured.partitions

end Captured

namespace SubscriptionState

variable {s : SubscriptionState} {key k : PartitionKey}

theorem lookup_completeParts {parts : List DeliveredPartition} {records : List ConsumerRecord}
    {n : Nat} (stale : ∀ r, s.partitions.lookup key = some r →
      ∀ part ∈ parts, part.key = key → part.version ≠ r.version) :
    (s.completeParts parts records n).2.partitions.lookup key = s.partitions.lookup key := by
  induction parts generalizing s records n with
  | nil => rfl
  | cons part parts ih =>
    have later : ∀ r, s.partitions.lookup key = some r →
        ∀ part ∈ parts, part.key = key → part.version ≠ r.version :=
      fun r found part mem => stale r found part (List.mem_cons_of_mem _ mem)
    simp only [completeParts]
    split
    · exact ih later
    · rename_i r found
      split
      · exact ih later
      · rename_i current
        rw [not_not] at current
        have apart : key ≠ part.key := by
          rintro rfl
          exact stale r found part List.mem_cons_self rfl current.symm
        have elsewhere (r' : PartitionRecord) :
            (s.put part.key r').partitions.lookup key = s.partitions.lookup key := by
          rw [lookup_put, if_neg apart]
        exact (ih (by rwa [elsewhere])).trans (elsewhere _)

end SubscriptionState

open SubscriptionState in
theorem Captured.Stale.inert {s : SubscriptionState} {key : PartitionKey} {captured : Captured}
    (stale : captured.Stale s key) :
    (captured.apply s).partitions.lookup key = s.partitions.lookup key := by
  cases captured with
  | fetch target fetch =>
    simp only [apply]
    rcases installFetch_cases s target fetch with rejected | ⟨r, r', found, current, -, -, installed, -⟩
    · rw [rejected]
    · have apart : key ≠ target.key := by
        rintro rfl
        exact stale r found (by simp [Captured.partitions, current])
      rw [installed, lookup_put, if_neg apart]
  | initialPosition k =>
    simp only [apply, setInitialPosition]
    split
    · rename_i r found
      split
      · rename_i current
        have apart : key ≠ k := by
          rintro rfl
          exact stale r found (by simp [Captured.partitions, current.1])
        rw [lookup_put, if_neg apart]
      · rfl
    · rfl
  | pendingReset =>
    refine lookup_modify _ fun r here found => if_neg fun current => ?_
    exact stale r found (by simp [Captured.partitions, here, current.1])
  | reset k version =>
    simp only [apply, resetIfCurrent]
    split
    · rename_i current
      obtain ⟨r, found, version⟩ : ∃ r, s.partitions.lookup k = some r ∧ r.version = version := by
        simpa [Option.any_eq_true] using current
      have apart : key ≠ k := by
        rintro rfl
        exact stale r found (by simp [Captured.partitions, version])
      unfold requestReset
      split
      · exact lookup_reposition _ apart
      · rfl
    · rfl
  | truncation k version =>
    simp only [apply, truncate]
    split
    · rfl
    · rename_i r found
      split
      · rfl
      · rename_i current
        have version : version = r.version := by simpa using current
        refine lookup_reposition _ ?_
        rintro rfl
        exact stale r found (by simp [Captured.partitions, version])
  | backoff k version =>
    refine lookup_modify _ fun r here found => if_neg fun current => ?_
    have version : version = r.version := by simpa using current
    exact stale r found (by simp [Captured.partitions, here, version])
  | validation =>
    refine lookup_modify _ fun r here found => if_neg fun current => ?_
    exact stale r found (by simp [Captured.partitions, here, current])
  | delivery =>
    refine lookup_completeParts fun r found part mem here version => stale r found ?_
    exact List.mem_map.mpr ⟨part, mem, by rw [here, version]⟩

/-- Over a whole run the versions issued increase, a partition keeps its version or draws one above
all that were issued before, and a result captured under another version changes nothing of the
partition. -/
theorem stale_results_are_inert (before during : List Operation) :
    let s := (Client.run before).state
    let s' := (Client.run (before ++ during)).state
    s'.issued.Pairwise (· < ·) ∧
      (∀ key r', s'.partitions.lookup key = some r' →
        (∃ r, s.partitions.lookup key = some r ∧ r'.version = r.version) ∨
          r'.version ∈ s'.issued ∧ ∀ version ∈ s.issued, version < r'.version) ∧
      ∀ key (captured : Captured), captured.Stale s' key →
        (captured.apply s').partitions.lookup key = s'.partitions.lookup key := by
  intro s s'
  have origin (operations : List Operation) :
      (Client.run operations).state.issued.Pairwise (· < ·) ∧
        ∀ version ∈ (Client.run operations).state.issued,
          version ≤ (Client.run operations).state.nextVersion := by
    obtain ⟨more, issued, increasing, bounds⟩ := (Client.run_advances [] operations).issues
    have all : (Client.run operations).state.issued = more := issued
    rw [all]
    exact ⟨increasing, fun version mem => (bounds version mem).2⟩
  refine ⟨(origin _).1, fun key r' found => ?_, fun key captured stale => stale.inert⟩
  rcases (Client.run_advances before during).draws key r' found with kept | ⟨fresh, drawn⟩
  · exact .inl kept
  · exact .inr ⟨drawn, fun version mem => ((origin before).2 version mem).trans_lt fresh⟩

/-- A fetch issued before a seek comes back after it, once the partition was also taken away
and assigned again. -/
theorem stale_results_sample :
    let key := ("t", 0)
    let late : Captured := .fetch { key, version := 2, offset := 5 }
      { records := [{ offset := 5 }], nextOffset := 6 }
    let before := [.addPartitions [key], .seek key 5]
    let during := [.seek key 7, .removePartitions [key], .addPartitions [key], .seek key 5]
    let s := (Client.run (before ++ during)).state
    late.Stale s key ∧ s.issued = [1, 2, 3, 4, 5] ∧
      (late.apply s).partitions.lookup key = s.partitions.lookup key := by
  intro key late before during s
  have current : s.partitions.lookup key = some { version := 5, position := some 5 } := by decide
  have stale : late.Stale s key := by
    intro r found
    obtain rfl := Option.some.inj (current.symm.trans found)
    decide
  exact ⟨stale, by decide, (stale_results_are_inert before during).2.2 key late stale⟩

end Krafka.Consumer
