import Krafka.Consumer.Versions

/-! What the application receives. Between two repositions of a partition it is handed a
prefix of what was fetched, and what it may commit never covers a record it has not been
handed. -/

namespace Krafka.Consumer

open Client

variable {key : PartitionKey}

theorem Client.step_keeps {c : Client} (sound : Sound c)
    {operation : Operation} (still : operation.repositions key = false) :
    Keeps key c.state (c.step operation).state := by
  cases flows : operation.flows with
  | false =>
    have shifts := c.step_shifts flows
    generalize (c.step operation).state = s at shifts
    induction shifts with
    | refl => exact .of_lookup rfl
    | tail _ one ih => exact ih.trans (one.keeps key still)
  | true =>
    intro r found
    have same := (step_flows sound flows).2 key
    rw [found] at same
    exact Option.map_eq_some_iff.mp same

theorem Client.run_keeps (before during : List Operation)
    (undisturbed : ∀ operation ∈ during, operation.repositions key = false) :
    Keeps key (run before).state (run (before ++ during)).state := by
  induction during using List.reverseRecOn with
  | nil => exact .of_lookup (by rw [List.append_nil])
  | append_singleton during operation ih =>
    rw [run_concat]
    exact (ih fun o mem => undisturbed o (List.mem_append_left _ mem)).trans
      (step_keeps (Sound.run _) (undisturbed operation (by simp)))

def Client.undelivered (c : Client) (key : PartitionKey) (r : PartitionRecord) :
    List ConsumerRecord :=
  (c.leaving key r.version).flatten ++ (r.buffered.map (·.records)).getD []

variable {fetch : CompletedFetch}

theorem Holds.undelivered_eq {r : PartitionRecord}
    {rest : List ConsumerRecord} {out : List (List ConsumerRecord)} (holds : Holds r fetch rest out) :
    out.flatten ++ (r.buffered.map (·.records)).getD [] = rest := by
  cases holds with
  | usedUp buffered | ready _ buffered | leaving _ buffered => simp [buffered]

/-- From any point of a run, as long as the partition is not sought, reset, truncated or reassigned:
what was handed out under its version is a prefix of the accepted fetches, each issued from where
the one before ended, the rest is held, and the position stands after what was handed out. -/
theorem handed_out_prefix_of_accepted (before during : List Operation) (key : PartitionKey)
    (r : PartitionRecord) (assigned : (run before).state.partitions.lookup key = some r)
    (undisturbed : ∀ operation ∈ during, operation.repositions key = false) :
    let c := run (before ++ during)
    let accepted := acceptedUnder key r.version c.history
    let handed := handedUnder key r.version c.history
    ∃ r', c.state.partitions.lookup key = some r' ∧ r'.version = r.version ∧
      handed ++ c.undelivered key r' = accepted.flatMap (·.2.records) ∧
      accepted.IsChain FollowsOn ∧
      ∀ past offset fetch, accepted = past ++ [(offset, fetch)] →
        ∃ done, handed = past.flatMap (·.2.records) ++ done ∧
          r'.position = some (positionAfter offset fetch done (c.undelivered key r')) := by
  intro c accepted handed
  obtain ⟨r', found, version⟩ := run_keeps before during undisturbed r assigned
  refine ⟨r', found, version, ?_⟩
  have flow : Flow r' accepted handed (c.leaving key r'.version) := by
    have whole := (Sound.run (before ++ during)).flow key r' found
    rwa [version] at whole ⊢
  unfold undelivered
  generalize c.leaving key r'.version = out at flow
  generalize accepted = accepted at flow
  generalize handed = handed at flow
  cases flow with
  | untouched buffered => simp [buffered]
  | @fetched past offset fetch done rest _ chained records position holds =>
    rw [holds.undelivered_eq]
    refine ⟨by simp [records], chained, fun past' offset' fetch' same => ⟨done, ?_⟩⟩
    obtain ⟨rfl, last⟩ := List.append_inj' same rfl
    obtain ⟨rfl, rfl⟩ : offset = offset' ∧ fetch = fetch' := by simpa using last
    exact ⟨rfl, position⟩

/-- Two records are delivered in two steps: the first poll hands out one, the second is dropped
and puts the other back. -/
theorem handed_out_prefix_sample :
    let key := ("t", 0)
    let fetch : CompletedFetch := { records := [{ offset := 5 }, { offset := 6 }], nextOffset := 9 }
    let before := [.addPartitions [key], .seek key 5]
    let during := [.fetchTargets 0, .installFetch { key, version := 2, offset := 5 } fetch,
      .takeDelivery 10, .completeDelivery 0 1, .setPaused "t" [0] false, .takeDelivery 10,
      .abortDelivery 0]
    ∃ r r', (run before).state.partitions.lookup key = some r ∧
      (run (before ++ during)).state.partitions.lookup key = some r' ∧
      r'.version = r.version ∧
      handedUnder key r.version (run (before ++ during)).history ++
        (run (before ++ during)).undelivered key r' =
          (acceptedUnder key r.version (run (before ++ during)).history).flatMap
            (·.2.records) := by
  intro key fetch before during
  have assigned : (run before).state.partitions.lookup key =
      some { version := 2, position := some 5 } := by decide
  obtain ⟨r', found, version, whole, -⟩ :=
    handed_out_prefix_of_accepted before during key _ assigned (by decide)
  exact ⟨_, r', assigned, found, version, whole⟩

/-! Commits -/

/-- What a fetch from `offset` may bring: records in offset order, from there on and before the
offset it says comes next. -/
def CompletedFetch.WellFormed (offset : Offset) (fetch : CompletedFetch) : Prop :=
  fetch.records.Pairwise (·.offset < ·.offset) ∧
    ∀ record ∈ fetch.records, offset ≤ record.offset ∧ record.offset < fetch.nextOffset

def Operation.WellFormed : Operation → Prop
  | .installFetch target fetch => fetch.WellFormed target.offset
  | _ => True

def Event.WellFormed : Event → Prop
  | .accepted _ _ offset fetch => fetch.WellFormed offset
  | .handed .. => True

theorem Client.step_wellFormed {c : Client} {operation : Operation} (formed : operation.WellFormed)
    (history : ∀ event ∈ c.history, event.WellFormed) :
    ∀ event ∈ (c.step operation).history, event.WellFormed := by
  have finish (index handedOut : Nat) :
      ∀ event ∈ (c.finish index handedOut).history, event.WellFormed := by
    unfold finish
    split
    · exact history
    · intro event mem
      rcases List.mem_append.mp mem with old | new
      · exact history event old
      · obtain ⟨delivered, -, rfl⟩ := List.mem_map.mp new
        trivial
  by_cases still : operation.flows = false
  · rw [c.step_still still]
    exact history
  · cases operation with
    | installFetch target fetch =>
      intro event mem
      rcases List.mem_append.mp mem with old | new
      · exact history event old
      · obtain ⟨-, rfl⟩ : _ ∧ event = .accepted target.key target.version target.offset fetch := by
          simpa using new
        exact formed
    | takeDelivery => exact history
    | completeDelivery index handedOut => exact finish index handedOut
    | abortDelivery index => exact finish index 0
    | _ => exact absurd rfl still

theorem Client.run_wellFormed {operations : List Operation}
    (formed : ∀ operation ∈ operations, operation.WellFormed) :
    ∀ event ∈ (run operations).history, event.WellFormed := by
  have start : ∀ event ∈ ({} : Client).history, event.WellFormed := by simp
  exact List.foldlRecOn (motive := fun c => ∀ event ∈ c.history, event.WellFormed) operations
    step start fun _ history _ mem => step_wellFormed (formed _ mem) history

theorem wellFormed_of_acceptedUnder {version : Nat} {history : List Event}
    (formed : ∀ event ∈ history, event.WellFormed) {offset : Offset}
    (mem : (offset, fetch) ∈ acceptedUnder key version history) : fetch.WellFormed offset := by
  obtain ⟨event, inside, shown⟩ := List.mem_filterMap.mp mem
  cases event with
  | handed => cases shown
  | accepted =>
    simp only [Option.ite_none_right_eq_some, Option.some.injEq, Prod.mk.injEq] at shown
    obtain ⟨-, rfl, rfl⟩ := shown
    exact formed _ inside

theorem positionAfter_le {offset : Offset} (formed : fetch.WellFormed offset)
    {done rest : List ConsumerRecord} (records : fetch.records = done ++ rest)
    {record : ConsumerRecord} (mem : record ∈ rest) :
    positionAfter offset fetch done rest ≤ record.offset := by
  obtain ⟨increasing, bounds⟩ := formed
  have left : rest ≠ [] := List.ne_nil_of_mem mem
  simp only [positionAfter, if_neg left]
  cases last : done.getLast? with
  | none => exact (bounds record (by simp [records, mem])).1
  | some before =>
    have earlier : before ∈ done := List.mem_of_getLast? last
    rw [records] at increasing
    have lt := (List.pairwise_append.mp increasing).2.2 before earlier record mem
    exact (min_le_left _ _).trans (Int.add_one_le_of_lt lt)

/-- However the operations interleave, the offset committed for a partition is at or before
every record of it that is buffered or out for delivery under its current version. -/
theorem committable_le_undelivered (operations : List Operation)
    (formed : ∀ operation ∈ operations, operation.WellFormed) (key : PartitionKey)
    (offset : Offset) (epoch : Option Int) (r : PartitionRecord)
    (assigned : (run operations).state.partitions.lookup key = some r)
    (committed : (key, offset, epoch) ∈ (run operations).state.committable) :
    ∀ record ∈ (run operations).undelivered key r, offset ≤ record.offset := by
  intro record mem
  have position : r.position = some offset := by
    obtain ⟨k, -, shown⟩ := List.mem_filterMap.mp committed
    obtain ⟨r', found, at_⟩ := Option.bind_eq_some_iff.mp shown
    obtain ⟨p, position, same⟩ := Option.map_eq_some_iff.mp at_
    simp only [Prod.mk.injEq] at same
    obtain ⟨rfl, rfl, -⟩ := same
    rwa [← Option.some.inj (found.symm.trans assigned)]
  have flow := (Sound.run operations).flow key r assigned
  have accepted : ∀ entry ∈ acceptedUnder key r.version (run operations).history,
      entry.2.WellFormed entry.1 := fun entry inside =>
    wellFormed_of_acceptedUnder (run_wellFormed formed) inside
  unfold undelivered at mem
  generalize (run operations).leaving key r.version = out at flow mem
  generalize acceptedUnder key r.version (run operations).history = all at flow accepted
  generalize handedUnder key r.version (run operations).history = handed at flow
  cases flow with
  | untouched buffered => simp [buffered] at mem
  | @fetched _ start fetch done rest _ _ records stands holds =>
    rw [holds.undelivered_eq] at mem
    obtain rfl : positionAfter start fetch done rest = offset :=
      Option.some.inj (stands.symm.trans position)
    exact positionAfter_le (accepted (start, fetch) (by simp)) records mem

/-- One of two records is handed out: the commit stands right before the other. -/
theorem committable_le_undelivered_sample :
    let key := ("t", 0)
    let fetch : CompletedFetch := { records := [{ offset := 5 }, { offset := 8 }], nextOffset := 9 }
    let operations := [.addPartitions [key], .seek key 5,
      .installFetch { key, version := 2, offset := 5 } fetch, .takeDelivery 10,
      .completeDelivery 0 1]
    ∃ r, (run operations).state.partitions.lookup key = some r ∧
      (key, 6, none) ∈ (run operations).state.committable ∧
      { offset := 8 } ∈ (run operations).undelivered key r ∧
      ∀ record ∈ (run operations).undelivered key r, 6 ≤ record.offset := by
  intro key fetch operations
  have formed : ∀ operation ∈ operations, operation.WellFormed := by
    simp [operations, fetch, Operation.WellFormed, CompletedFetch.WellFormed]
  have assigned : (run operations).state.partitions.lookup key = some
      { version := 2, position := some 6
        buffered := some { records := [{ offset := 8 }], nextOffset := 9 } } := by
    decide
  have committed : (key, 6, none) ∈ (run operations).state.committable := by decide
  exact ⟨_, assigned, committed, by decide,
    committable_le_undelivered operations formed key 6 none _ assigned committed⟩

end Krafka.Consumer
