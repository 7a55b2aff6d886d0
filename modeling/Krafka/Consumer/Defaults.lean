import Krafka.Consumer.Positions
import Krafka.Consumer.Versions
import Krafka.Library.Lists

/-! What the initial offset or the reset of a partition rests on. The result map of
`fetch_committed_offsets` has no entry for a partition that was never committed and none for one
that could not be read, so the two are told apart only if the response answers for every
partition. -/

namespace Krafka.Consumer

def OffsetFetchResponse.Entry (response : OffsetFetchResponse) (key : PartitionKey)
    (entry : OffsetFetchResponsePartition) : Prop :=
  ∃ topic ∈ response.topics, topic.name = key.1 ∧ entry ∈ topic.partitions ∧
    entry.partitionIndex = key.2

namespace OffsetFetchResponse

variable {response : OffsetFetchResponse} {key : PartitionKey}

def Answers (response : OffsetFetchResponse) (key : PartitionKey) : Prop :=
  ∃ entry, response.Entry key entry ∧ entry.errorCode = .none

def NeverCommitted (response : OffsetFetchResponse) (key : PartitionKey) : Prop :=
  ∃ entry, response.Entry key entry ∧ entry.errorCode = .none ∧ entry.committedOffset < 0

theorem entry_of_committedPositions {position : CommittedPosition}
    (found : (committedPositions response).lookup key = some position) :
    0 ≤ position.offset ∧ ∃ entry, response.Entry key entry ∧ entry.errorCode = .none ∧
      entry.committedOffset = position.offset ∧
      entry.committedLeaderEpoch = position.leaderEpoch := by
  rcases AList.mem_of_lookup_insertAll found with listed | absent
  · obtain ⟨topic, mem, listed⟩ := List.mem_flatMap.mp listed
    obtain ⟨entry, entered, made⟩ := List.mem_filterMap.mp listed
    split_ifs at made with committed
    cases made
    exact ⟨committed.2, entry, ⟨topic, mem, rfl, entered, rfl⟩, committed.1, rfl, rfl⟩
  · cases absent

theorem committedPositions_lookup_eq_none
    (absent : (committedPositions response).lookup key = none) {entry : OffsetFetchResponsePartition}
    (listed : response.Entry key entry) (fine : entry.errorCode = .none) :
    entry.committedOffset < 0 := by
  have unlisted := AList.notMem_of_lookup_insertAll absent
  by_contra committed
  obtain ⟨topic, mem, name, entered, index⟩ := listed
  refine unlisted (List.mem_map.mpr ⟨(key, ⟨entry.committedOffset, entry.committedLeaderEpoch⟩),
    List.mem_flatMap.mpr ⟨topic, mem, List.mem_filterMap.mpr ⟨entry, entered, ?_⟩⟩, rfl⟩)
  rw [if_pos ⟨fine, not_lt.mp committed⟩, name, index]

theorem neverCommitted_iff_answers {needing : List PendingPosition} :
    (∀ p ∈ needing, (committedPositions response).lookup p.key = none →
        response.NeverCommitted p.key) ↔
      ∀ p ∈ needing, response.Answers p.key := by
  refine forall₂_congr fun p _ => ⟨fun never => ?_, fun ⟨entry, listed, fine⟩ absent => ?_⟩
  · cases found : (committedPositions response).lookup p.key with
    | none =>
      obtain ⟨entry, listed, fine, -⟩ := never found
      exact ⟨entry, listed, fine⟩
    | some =>
      obtain ⟨-, entry, listed, fine, -⟩ := entry_of_committedPositions found
      exact ⟨entry, listed, fine⟩
  · exact ⟨entry, listed, fine, committedPositions_lookup_eq_none absent listed fine⟩

end OffsetFetchResponse

section Attempts

variable {group : OffsetFetchGroup} {attempts : Nat → OffsetFetchAttempt} {topics : List String}

theorem fetchAttempts_eq_ok {left attempt : Nat} {lastError : Option KrafkaError}
    {committed : AList fun _ : PartitionKey => CommittedPosition}
    (fetched : (fetchAttempts group attempts topics left attempt lastError).1 = .ok committed) :
    ∃ i, (fetchCommittedOffsetsOnce group (attempts i) topics).1 = .ok committed := by
  induction left generalizing attempt lastError with
  | zero => cases fetched
  | succ left ih =>
    rw [fetchAttempts] at fetched
    split at fetched
    · split_ifs at fetched
      exact ih fetched
    · next committed' _ once =>
      cases fetched
      exact ⟨attempt, congrArg Prod.fst once⟩

theorem fetchCommittedOffsets_eq_ok (asked : topics ≠ [])
    {committed : AList fun _ : PartitionKey => CommittedPosition}
    (fetched : (fetchCommittedOffsets group attempts topics).1 = .ok committed) :
    ∃ i response, (acceptedResponse group (attempts i) topics).1 = .ok response ∧
      committed = committedPositions response := by
  obtain ⟨i, once⟩ := fetchAttempts_eq_ok fetched
  rw [fetchCommittedOffsetsOnce, if_neg (by simpa using asked)] at once
  split at once
  · cases once
  · next response _ accepted =>
    cases once
    exact ⟨i, response, congrArg Prod.fst accepted, rfl⟩

end Attempts

/-! Operations on one partition each -/

structure Local (f : SubscriptionState → PendingPosition → SubscriptionState) : Prop where
  apart : ∀ s p k, k ≠ p.key → (f s p).partitions.lookup k = s.partitions.lookup k
  own : ∀ s s' p, s.partitions.lookup p.key = s'.partitions.lookup p.key →
    (f s p).partitions.lookup p.key = (f s' p).partitions.lookup p.key

namespace Local

variable {f : SubscriptionState → PendingPosition → SubscriptionState}

theorem lookup_foldl_of_notMem (loc : Local f) {l : List PendingPosition} {k : PartitionKey}
    (absent : k ∉ l.map (·.key)) (s : SubscriptionState) :
    (l.foldl f s).partitions.lookup k = s.partitions.lookup k :=
  Lists.view_foldl_of_notMem (fun s k => s.partitions.lookup k) loc.apart absent s

theorem lookup_foldl (loc : Local f) {l : List PendingPosition} (nodup : (l.map (·.key)).Nodup)
    {p : PendingPosition} (mem : p ∈ l) (s : SubscriptionState) :
    (l.foldl f s).partitions.lookup p.key = (f s p).partitions.lookup p.key := by
  obtain ⟨s', same, final⟩ :=
    Lists.view_foldl (fun s k => s.partitions.lookup k) loc.apart nodup mem s
  exact final.trans (loc.own s' s p same)

end Local

namespace SubscriptionState

theorem lookup_modify_eq (s : SubscriptionState) (key k : PartitionKey)
    (f : PartitionRecord → PartitionRecord) :
    (s.modify key f).partitions.lookup k =
      if k = key then (s.partitions.lookup k).map f else s.partitions.lookup k := by
  unfold modify
  cases found : s.partitions.lookup key with
  | some =>
    by_cases here : k = key
    · subst here
      simp [lookup_put, found]
    · simp [lookup_put, here]
  | none =>
    by_cases here : k = key
    · subst here
      simp [found]
    · simp [here]

theorem setInitialPosition_eq_modify (s : SubscriptionState) (key : PartitionKey) (version : Nat)
    (offset : Offset) (epoch : Option Int) (k : PartitionKey) :
    (s.setInitialPosition key version offset epoch).2.partitions.lookup k =
      (s.modify key fun r =>
        if r.version = version ∧ r.position = none then
          { r with position := some offset, epoch, reset := none, validated := false,
                   backoff := none }
        else r).partitions.lookup k := by
  rw [lookup_modify_eq]
  unfold setInitialPosition
  split
  · next r found =>
    split_ifs with current here here
    · subst here
      simp [lookup_put, found, current]
    · simp [lookup_put, here]
    · subst here
      simp [found, current]
    · rfl
  · next found =>
    by_cases here : k = key
    · subst here
      simp [found]
    · simp [here]

theorem local_modify (f : PendingPosition → PartitionRecord → PartitionRecord) :
    Local fun s p => s.modify p.key (f p) where
  apart := fun s p k apart => by rw [lookup_modify_eq, if_neg apart]
  own := fun s s' p same => by rw [lookup_modify_eq, lookup_modify_eq, same]

theorem local_setInitialPosition (offset : Offset) (epoch : Option Int) :
    Local fun s p => (s.setInitialPosition p.key p.version offset epoch).2 where
  apart := fun s p k apart => by
    rw [setInitialPosition_eq_modify, lookup_modify_eq, if_neg apart]
  own := fun s s' p same => by
    rw [setInitialPosition_eq_modify, setInitialPosition_eq_modify, lookup_modify_eq,
      lookup_modify_eq, same]

theorem local_installCommitted (committed : AList fun _ : PartitionKey => CommittedPosition) :
    Local (installCommitted committed) where
  apart := fun s p k apart => by
    unfold installCommitted
    split
    · split
      · exact (local_setInitialPosition _ _).apart s p k apart
      · rfl
    · rfl
  own := fun s s' p same => by
    unfold installCommitted
    split
    · split
      · exact (local_setInitialPosition _ _).own s s' p same
      · exact same
    · exact same

theorem local_setPendingReset (reset : OffsetReset) :
    Local fun s p => s.setPendingReset p.key p.version reset :=
  local_modify fun p r =>
    if r.version = p.version ∧ r.position = none then { r with reset := some reset } else r

theorem local_installDefault (config : PositionConfig) : Local (installDefault config) where
  apart := fun s p k apart => by
    unfold installDefault
    split
    · exact (local_setInitialPosition _ _).apart s p k apart
    · split
      · exact (local_setPendingReset _).apart s p k apart
      · rfl
  own := fun s s' p same => by
    unfold installDefault
    split
    · exact (local_setInitialPosition _ _).own s s' p same
    · split
      · exact (local_setPendingReset _).own s s' p same
      · exact same

theorem local_backOff (now : Instant) : Local fun s p => s.backOff p.key (some p.version) now :=
  local_modify fun p r => if (some p.version).all (· = r.version) then
    let previous := (r.backoff.map (·.2)).getD 0
    let next := min (max (previous * 2) backoffInitial) backoffMax
    { r with backoff := some (now + next, next) } else r

theorem key_of_partitionsNeedingPosition {s : SubscriptionState} {now : Instant} :
    ((s.partitionsNeedingPosition now).map (·.key)).Sublist s.assignedKeys := by
  rw [← List.map_id s.assignedKeys]
  refine Lists.map_filterMap_sublist id PendingPosition.key (fun key p made => ?_) _
  obtain ⟨r, -, given⟩ := Option.bind_eq_some_iff.mp made
  split_ifs at given
  cases given
  rfl

theorem nodup_assignedKeys (s : SubscriptionState) : s.assignedKeys.Nodup :=
  (List.perm_insertionSort _ _).nodup_iff.mpr s.partitions.keys_nodup

end SubscriptionState

/-! The defaults -/

section Defaults

variable (group : OffsetFetchGroup) (attempts : Nat → OffsetFetchAttempt) (config : PositionConfig)
  (only : Option PartitionKey) (s₀ s₁ s₂ : SubscriptionState) (now now₁ : Instant)

def needingPosition : List PendingPosition :=
  (s₀.partitionsNeedingPosition now).filter fun p => only.all (· = p.key)

theorem nodup_needingPosition : ((needingPosition only s₀ now).map (·.key)).Nodup :=
  (s₀.nodup_assignedKeys.sublist SubscriptionState.key_of_partitionsNeedingPosition).sublist
    (List.filter_sublist.map _)

def fetchFor (needing : List PendingPosition) :
    Result (AList fun _ : PartitionKey => CommittedPosition) :=
  (fetchCommittedOffsets group attempts (needing.map (·.key.1))).1

def Told (needing : List PendingPosition) (said : OffsetFetchResponse → Prop) : Prop :=
  ∃ i response, (acceptedResponse group (attempts i) (needing.map (·.key.1))).1 = .ok response ∧
    said response

variable {group attempts}

theorem fetchFor_eq_ok {needing : List PendingPosition} {p : PendingPosition} (mem : p ∈ needing)
    {committed : AList fun _ : PartitionKey => CommittedPosition}
    (fetched : fetchFor group attempts needing = .ok committed) :
    ∃ i response, (acceptedResponse group (attempts i) (needing.map (·.key.1))).1 = .ok response ∧
      committed = committedPositions response :=
  fetchCommittedOffsets_eq_ok (List.ne_nil_of_mem (List.mem_map_of_mem mem)) fetched

/-- As long as every response whose offsets are used answers for every partition, a default is
given, or its lack reported, only where the coordinator says that nothing is committed. All other
partitions get their committed offset or are backed off. `s₁` and `s₂` are the states when the
two locks are taken. -/
theorem defaults_only_for_uncommitted
    (answered : ∀ i response,
      (acceptedResponse group (attempts i) ((needingPosition only s₀ now).map (·.key.1))).1 =
        .ok response →
      ∀ p ∈ needingPosition only s₀ now, response.Answers p.key) :
    let needing := needingPosition only s₀ now
    let committed := s₁.applyCommittedPositions needing (some (fetchFor group attempts needing)) now₁
    let settled := s₂.applyDefaults config committed.1
    (∀ key, settled.2.partitions.lookup key ≠ s₂.partitions.lookup key ∨ key ∈ settled.1 →
      Told group attempts needing (·.NeverCommitted key)) ∧
    ∀ p ∈ needing, Told group attempts needing (·.NeverCommitted p.key) ∨
      (∃ entry : OffsetFetchResponsePartition,
        Told group attempts needing (·.Entry p.key entry) ∧ entry.errorCode = .none ∧
          0 ≤ entry.committedOffset ∧
          committed.2.partitions.lookup p.key =
            (s₁.setInitialPosition p.key p.version entry.committedOffset
              (if 0 ≤ entry.committedLeaderEpoch then some entry.committedLeaderEpoch
                else none)).2.partitions.lookup p.key) ∨
      committed.2.partitions.lookup p.key =
        (s₁.backOff p.key (some p.version) now₁).partitions.lookup p.key := by
  intro needing committed settled
  have nodup : (needing.map (·.key)).Nodup := nodup_needingPosition only s₀ now
  -- the partitions left without a committed offset are those never committed
  have without : ∀ p ∈ committed.1, Told group attempts needing (·.NeverCommitted p.key) := by
    intro p left
    cases fetched : fetchFor group attempts needing with
    | error =>
      have none_ : committed.1 = [] := by simp only [committed, fetched]; rfl
      rw [none_] at left
      cases left
    | ok positions =>
      have kept : committed.1 =
          needing.filter fun p => !(positions.lookup p.key).any (0 ≤ ·.offset) := by
        simp only [committed, fetched]
        rfl
      rw [kept] at left
      obtain ⟨mem, uncommitted⟩ := List.mem_filter.mp left
      obtain ⟨i, response, accepted, rfl⟩ := fetchFor_eq_ok mem fetched
      refine ⟨i, response, accepted, ?_⟩
      refine OffsetFetchResponse.neverCommitted_iff_answers.mpr (answered i response accepted) p mem ?_
      cases found : (committedPositions response).lookup p.key with
      | none => rfl
      | some =>
        have nonneg := (OffsetFetchResponse.entry_of_committedPositions found).1
        simp [found, nonneg] at uncommitted
  constructor
  · intro key given
    have listed : key ∈ committed.1.map (·.key) := by
      by_contra absent
      rcases given with changed | reported
      · exact changed ((SubscriptionState.local_installDefault config).lookup_foldl_of_notMem
          absent s₂)
      · obtain ⟨p, mem, rfl⟩ := List.mem_map.mp reported
        exact absent (List.mem_map_of_mem (List.mem_filter.mp mem).1)
    obtain ⟨p, left, rfl⟩ := List.mem_map.mp listed
    exact without p left
  · intro p mem
    cases fetched : fetchFor group attempts needing with
    | error =>
      refine .inr (.inr ?_)
      have backed : committed.2 =
          needing.foldl (fun s p => s.backOff p.key (some p.version) now₁) s₁ := by
        simp only [committed, fetched]
        rfl
      rw [backed]
      exact (SubscriptionState.local_backOff now₁).lookup_foldl nodup mem s₁
    | ok =>
      obtain ⟨i, response, accepted, rfl⟩ := fetchFor_eq_ok mem fetched
      have installed : committed.2 = needing.foldl
          (SubscriptionState.installCommitted (committedPositions response)) s₁ := by
        simp only [committed, fetched]
        rfl
      cases found : (committedPositions response).lookup p.key with
      | none =>
        exact .inl ⟨i, response, accepted, OffsetFetchResponse.neverCommitted_iff_answers.mpr
          (answered i response accepted) p mem found⟩
      | some =>
        obtain ⟨nonneg, entry, listed, fine, offset, epoch⟩ :=
          OffsetFetchResponse.entry_of_committedPositions found
        refine .inr (.inl ⟨entry, ⟨i, response, accepted, listed⟩, fine, offset ▸ nonneg, ?_⟩)
        rw [installed, (SubscriptionState.local_installCommitted _).lookup_foldl nodup mem s₁,
          SubscriptionState.installCommitted, found, offset, epoch]
        simp only [if_pos nonneg]

end Defaults

def sampleAttempt (version : Nat) (topics : List OffsetFetchResponseTopic) : OffsetFetchAttempt where
  negotiated := .ok (some version)
  topicIdForName := fun _ => some 7
  response := fun _ => .ok { topics }

def sampleAssigned : SubscriptionState := SubscriptionState.addPartition {} ("t", 0)

def sampleSettled (attempt : OffsetFetchAttempt) (config : PositionConfig) :
    Option PartitionRecord :=
  let needing := needingPosition none sampleAssigned 0
  let committed := sampleAssigned.applyCommittedPositions needing
    (some (fetchFor {} (fun _ => attempt) needing)) 0
  (committed.2.applyDefaults config committed.1).2.partitions.lookup ("t", 0)

def sampleUnread : List OffsetFetchAttempt :=
  [sampleAttempt 9 [{ name := "t", partitions := [⟨0, -1, -1, .unknownTopicOrPartition⟩] }],
    sampleAttempt 9 [],
    sampleAttempt 10 [{ topicId := some (7 : Uuid), partitions := [⟨0, 500, -1, .none⟩] }]]

/-- In all three cases the partition is taken for one that was never committed. -/
theorem unread_offset_is_reset :
    sampleUnread.length = 3 ∧ ∀ attempt ∈ sampleUnread,
      (∃ response, (acceptedResponse {} attempt ["t"]).1 = .ok response ∧
        ¬ response.NeverCommitted ("t", 0)) ∧
      (sampleSettled attempt {}).map (·.reset) = some (some .latest) ∧
      (sampleSettled attempt { initialOffsets := AList.singleton ("t", 0) 42 }).map (·.position) =
        some (some 42) := by
  refine ⟨rfl, fun attempt mem => ?_⟩
  simp only [sampleUnread, List.mem_cons, List.not_mem_nil, or_false] at mem
  rcases mem with rfl | rfl | rfl
  · refine ⟨⟨_, rfl, ?_⟩, by decide, by decide⟩
    rintro ⟨entry, ⟨topic, listed, -, entered, -⟩, fine, -⟩
    cases List.mem_singleton.mp listed
    cases List.mem_singleton.mp entered
    cases fine
  · refine ⟨⟨_, rfl, ?_⟩, by decide, by decide⟩
    rintro ⟨entry, ⟨topic, listed, -, entered, -⟩, fine, -⟩
    cases listed
  · refine ⟨⟨_, rfl, ?_⟩, by decide, by decide⟩
    rintro ⟨entry, ⟨topic, listed, named, entered, -⟩, fine, -⟩
    cases List.mem_singleton.mp listed
    exact absurd named (by decide)

/-- The coordinator says that nothing is committed, so the partition is reset. -/
theorem uncommitted_offset_is_reset :
    Told {} (fun _ => sampleAttempt 9 [{ name := "t", partitions := [⟨0, -1, -1, .none⟩] }])
      (needingPosition none sampleAssigned 0) (·.NeverCommitted ("t", 0)) := by
  refine (defaults_only_for_uncommitted {} none sampleAssigned sampleAssigned sampleAssigned 0 0
    fun i response accepted p mem => ?_).1 ("t", 0) (.inl (by decide))
  have asked : needingPosition none sampleAssigned 0 = [⟨("t", 0), 1⟩] := by decide
  rw [asked] at mem accepted
  cases List.mem_singleton.mp mem
  cases accepted
  exact ⟨⟨0, -1, -1, .none⟩, ⟨_, List.mem_singleton_self _, rfl, List.mem_singleton_self _, rfl⟩, rfl⟩

end Krafka.Consumer
