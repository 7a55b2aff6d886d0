import Krafka.Consumer.Defaults
import Krafka.Library.Lists

/-! Leader-epoch validation of positions: before the consumer fetches from a position that was just
set, it asks the leader where the log of the position's epoch ends, and goes back if it is past it. -/

namespace Krafka.Consumer

open SubscriptionState

/-! The `OffsetForLeaderEpoch` exchange -/

structure OffsetForLeaderEpochPartition where
  partition : Int
  currentLeaderEpoch : Int
  leaderEpoch : Int

structure OffsetForLeaderEpochTopic where
  topic : String
  partitions : List OffsetForLeaderEpochPartition

structure OffsetForLeaderEpochRequest where
  replicaId : Int
  topics : List OffsetForLeaderEpochTopic

structure OffsetForLeaderEpochPartitionResult where
  errorCode : ErrorCode := .none
  partition : Int
  endOffset : Offset

structure OffsetForLeaderEpochTopicResult where
  topic : String
  partitions : List OffsetForLeaderEpochPartitionResult

structure OffsetForLeaderEpochResponse where
  topics : List OffsetForLeaderEpochTopicResult

def OffsetForLeaderEpochResponse.results (response : OffsetForLeaderEpochResponse) :
    List OffsetForLeaderEpochPartitionResult :=
  response.topics.flatMap (·.partitions)

inductive Validation where
  | valid
  | truncated (endOffset : Offset)
  | rejected (code : ErrorCode)

structure Leaders where
  leaderEpoch : PartitionKey → Option Int
  leader : PartitionKey → Option Int
  broker : Int → Option String
  getConnectionById : Int → String → Result Unit
  negotiateApiVersion : Int → Option Nat
  sendRequest : Int → Nat → OffsetForLeaderEpochRequest →
    Result OffsetForLeaderEpochResponse

def requestedEpoch (positionEpoch : Option Int) (leaderEpoch : Int) : Int :=
  (positionEpoch.filter (0 ≤ ·)).getD leaderEpoch

def epochRequest (key : PartitionKey) (positionEpoch : Option Int) (leaderEpoch : Int) :
    OffsetForLeaderEpochRequest where
  replicaId := -1
  topics := [{
    topic := key.1
    partitions := [{
      partition := key.2
      currentLeaderEpoch := leaderEpoch
      leaderEpoch := requestedEpoch positionEpoch leaderEpoch }] }]

def classify (response : OffsetForLeaderEpochResponse) (partition : Int) (position : Offset) :
    Validation :=
  match response.results.find? (·.partition = partition) with
  | none => .valid
  | some result =>
    if result.errorCode ≠ .none then .rejected result.errorCode
    else if 0 ≤ result.endOffset ∧ result.endOffset < position then .truncated result.endOffset
    else .valid

def validatePosition (leaders : Leaders) (key : PartitionKey) (position : Offset)
    (positionEpoch : Option Int) : Result Validation :=
  match leaders.leaderEpoch key with
  | none => .ok .valid
  | some leaderEpoch => do
    let topic := key.1
    let partition := key.2
    let leaderId ← (leaders.leader key).elim
      (.error (.broker .leaderNotAvailable s!"no leader for {topic}-{partition}")) .ok
    let address ← (leaders.broker leaderId).elim
      (.error (.network s!"broker {leaderId} not found")) .ok
    leaders.getConnectionById leaderId address
    match leaders.negotiateApiVersion leaderId with
    | none => .ok .valid
    | some version => do
      let response ← leaders.sendRequest leaderId version (epochRequest key positionEpoch leaderEpoch)
      .ok (classify response partition position)

structure Unvalidated where
  key : PartitionKey
  version : Nat
  position : Offset
  epoch : Option Int
  deriving DecidableEq

def SubscriptionState.unvalidated (s : SubscriptionState) (now : Instant) : List Unvalidated :=
  s.assignedKeys.filterMap fun key =>
    (s.partitions.lookup key).bind fun r =>
      if !r.validated && !r.paused && r.backoffElapsed now then
        r.position.map fun position => ⟨key, r.version, position, r.epoch⟩
      else none

def needsMetadataRefresh : ErrorCode → Bool
  | .fencedLeaderEpoch | .unknownLeaderEpoch | .notLeaderForPartition | .leaderNotAvailable
  | .unknownTopicOrPartition => true
  | _ => false

def applyValidation (now : Instant) (result : Result Validation) (p : Unvalidated)
    (s : SubscriptionState × List String) : SubscriptionState × List String :=
  match result with
  | .ok .valid => (s.1.markValidated p.key p.version, s.2)
  | .ok (.truncated endOffset) => ((s.1.truncate p.key (some p.version) endOffset).2, s.2)
  | .ok (.rejected code) =>
    (s.1.backOff p.key (some p.version) now,
      if needsMetadataRefresh code && p.key.1 ∉ s.2 then s.2 ++ [p.key.1] else s.2)
  | .error _ => s

/-- The partitions are read from `s` at `asked`; when the answers are in, the state is `s'`. -/
def validatePositions (leaders : Leaders) (s : SubscriptionState) (asked : Instant)
    (s' : SubscriptionState) (now : Instant) : SubscriptionState × List String :=
  (s.unvalidated asked).foldl
    (fun done p => applyValidation now (validatePosition leaders p.key p.position p.epoch) p done)
    (s', [])

/-! The leader's log -/

structure LogEpoch where
  epoch : Int
  startOffset : Offset

structure EpochLog where
  epochs : List LogEpoch
  endOffset : Offset
  increasing : epochs.Pairwise fun a b => a.epoch < b.epoch ∧ a.startOffset < b.startOffset
  within : ∀ a ∈ epochs, 0 ≤ a.startOffset ∧ a.startOffset ≤ endOffset

namespace EpochLog

def endBefore (log : EpochLog) (later : List LogEpoch) : Offset :=
  (later.head?.map (·.startOffset)).getD log.endOffset

def endOf (log : EpochLog) (e : Int) : List LogEpoch → Option Offset
  | [] => none
  | a :: later =>
    if a.epoch ≤ e then some ((log.endOf e later).getD (log.endBefore later)) else none

def answer (log : EpochLog) (e : Int) : Offset := (log.endOf e log.epochs).getD (-1)

def Knows (log : EpochLog) (e : Int) : Prop := ∃ a ∈ log.epochs, a.epoch ≤ e

def Reaches (log : EpochLog) (e : Int) (offset : Offset) : Prop :=
  ∃ before a later, log.epochs = before ++ a :: later ∧ a.epoch ≤ e ∧
    (∀ b ∈ later, e < b.epoch) ∧ offset ≤ log.endBefore later

theorem endBefore_nonneg (log : EpochLog) {before later : List LogEpoch} {a : LogEpoch}
    (parts : log.epochs = before ++ a :: later) : 0 ≤ log.endBefore later := by
  have listed : ∀ b ∈ a :: later, b ∈ log.epochs := fun b there =>
    parts ▸ List.mem_append_right before there
  cases later with
  | nil =>
    have := log.within a (listed a List.mem_cons_self)
    exact Int.le_trans this.1 this.2
  | cons b => exact (log.within b (listed b (by simp))).1

theorem endOf_eq_none (log : EpochLog) {e : Int} {later : List LogEpoch}
    (none : log.endOf e later = none)
    (increasing : later.Pairwise fun a b => a.epoch < b.epoch ∧ a.startOffset < b.startOffset) :
    ∀ b ∈ later, e < b.epoch := by
  cases later with
  | nil => exact fun _ there => nomatch there
  | cons a =>
    have past : e < a.epoch := by
      rw [endOf] at none
      split at none
      · cases none
      · exact Int.not_le.mp ‹_›
    rw [List.forall_mem_cons]
    exact ⟨past, fun b there => past.trans ((List.pairwise_cons.mp increasing).1 b there).1⟩

theorem endOf_eq_some (log : EpochLog) {e : Int} {rest : List LogEpoch} {offset : Offset}
    (found : log.endOf e rest = some offset)
    (increasing : rest.Pairwise fun a b => a.epoch < b.epoch ∧ a.startOffset < b.startOffset) :
    ∃ before a later, rest = before ++ a :: later ∧ a.epoch ≤ e ∧ (∀ b ∈ later, e < b.epoch) ∧
      offset = log.endBefore later := by
  induction rest with
  | nil => cases found
  | cons a rest ih =>
    obtain ⟨-, increasing⟩ := List.pairwise_cons.mp increasing
    rw [endOf] at found
    split at found
    · next low =>
      cases deeper : log.endOf e rest with
      | none =>
        rw [deeper] at found
        cases found
        exact ⟨[], a, rest, rfl, low, log.endOf_eq_none deeper increasing, rfl⟩
      | some =>
        rw [deeper] at found
        cases found
        obtain ⟨before, b, later, rfl, more⟩ := ih deeper increasing
        exact ⟨a :: before, b, later, rfl, more⟩
    · cases found

theorem answer_eq {log : EpochLog} {e : Int} (known : log.Knows e) :
    0 ≤ log.answer e ∧ ∀ offset, offset ≤ log.answer e → log.Reaches e offset := by
  cases found : log.endOf e log.epochs with
  | none =>
    obtain ⟨a, there, low⟩ := known
    exact absurd (log.endOf_eq_none found log.increasing a there) (Int.not_lt.mpr low)
  | some =>
    obtain ⟨before, a, later, parts, low, high, rfl⟩ := log.endOf_eq_some found log.increasing
    rw [answer, found]
    exact ⟨log.endBefore_nonneg parts, fun offset below => ⟨before, a, later, parts, low, high, below⟩⟩

theorem answer_of_unknown {log : EpochLog} {e : Int} (unknown : ¬ log.Knows e) :
    log.answer e = -1 := by
  cases found : log.endOf e log.epochs with
  | none => rw [answer, found, Option.getD_none]
  | some =>
    obtain ⟨before, a, later, parts, low, -⟩ := log.endOf_eq_some found log.increasing
    exact absurd ⟨a, parts ▸ by simp, low⟩ unknown

theorem Reaches.knows {log : EpochLog} {e : Int} {offset : Offset} (reaches : log.Reaches e offset) :
    log.Knows e := by
  obtain ⟨before, a, later, parts, low, -⟩ := reaches
  exact ⟨a, parts ▸ by simp, low⟩

end EpochLog

/-- Every answer of a leader has results for the partition, and each of them is an error or the one
of its log. -/
def Leaders.Answer (leaders : Leaders) (logs : PartitionKey → EpochLog) : Prop :=
  ∀ key leaderId version epoch leaderEpoch response, leaders.leader key = some leaderId →
    leaders.sendRequest leaderId version (epochRequest key epoch leaderEpoch) = .ok response →
    (∃ result ∈ response.results, result.partition = key.2) ∧
    ∀ result ∈ response.results, result.partition = key.2 → result.errorCode ≠ .none ∨
      result.endOffset = (logs key).answer (requestedEpoch epoch leaderEpoch)

def Leaders.Unchecked (leaders : Leaders) (key : PartitionKey) : Prop :=
  leaders.leaderEpoch key = none ∨
    ∃ leaderId, leaders.leader key = some leaderId ∧ leaders.negotiateApiVersion leaderId = none

/-- The leader was asked about the position, and this is what it said. -/
def Leaders.Tells (leaders : Leaders) (key : PartitionKey) (epoch : Option Int) (leaderEpoch : Int)
    (response : OffsetForLeaderEpochResponse) : Prop :=
  leaders.leaderEpoch key = some leaderEpoch ∧ ∃ leaderId address version,
    leaders.leader key = some leaderId ∧ leaders.broker leaderId = some address ∧
    leaders.getConnectionById leaderId address = .ok () ∧
    leaders.negotiateApiVersion leaderId = some version ∧
    leaders.sendRequest leaderId version (epochRequest key epoch leaderEpoch) = .ok response

/-- The leader was asked about the position and answered without an error. -/
def Leaders.Answered (leaders : Leaders) (key : PartitionKey) (epoch : Option Int)
    (leaderEpoch : Int) : Prop :=
  ∃ response result, leaders.Tells key epoch leaderEpoch response ∧
    response.results.find? (·.partition = key.2) = some result ∧ result.errorCode = .none

/-! One check -/

section Check

variable {leaders : Leaders} {logs : PartitionKey → EpochLog} {key : PartitionKey}
  {position : Offset} {epoch : Option Int} {v : Validation}

theorem validatePosition_of_tells {leaderEpoch : Int} {response : OffsetForLeaderEpochResponse}
    (told : leaders.Tells key epoch leaderEpoch response) :
    validatePosition leaders key position epoch = .ok (classify response key.2 position) := by
  obtain ⟨current, leaderId, address, version, leads, known, connected, served, sent⟩ := told
  simp only [validatePosition, current, leads, known, Option.elim, bind, Except.bind, connected, served,
    sent]

theorem validatePosition_eq_ok (checked : validatePosition leaders key position epoch = .ok v) :
    (leaders.Unchecked key ∧ v = .valid) ∨ ∃ leaderEpoch response,
      leaders.Tells key epoch leaderEpoch response ∧ v = classify response key.2 position := by
  cases current : leaders.leaderEpoch key with
  | none =>
    simp only [validatePosition, current] at checked
    cases checked
    exact .inl ⟨.inl current, rfl⟩
  | some leaderEpoch =>
    simp only [validatePosition, current] at checked
    obtain ⟨leaderId, leads, checked⟩ := bind_eq_ok checked
    obtain ⟨address, known, checked⟩ := bind_eq_ok checked
    obtain ⟨_, connected, checked⟩ := bind_eq_ok checked
    have leads : leaders.leader key = some leaderId := by
      cases at_ : leaders.leader key <;> rw [at_] at leads <;> cases leads
      rfl
    have known : leaders.broker leaderId = some address := by
      cases at_ : leaders.broker leaderId <;> rw [at_] at known <;> cases known
      rfl
    cases served : leaders.negotiateApiVersion leaderId with
    | none =>
      rw [served] at checked
      cases checked
      exact .inl ⟨.inr ⟨leaderId, leads, served⟩, rfl⟩
    | some version =>
      rw [served] at checked
      obtain ⟨response, sent, checked⟩ := bind_eq_ok checked
      cases checked
      exact .inr ⟨leaderEpoch, response,
        ⟨current, leaderId, address, version, leads, known, connected, served, sent⟩, rfl⟩

variable (answer : leaders.Answer logs)
include answer

theorem endOffset_of_tells {leaderEpoch : Int} {response : OffsetForLeaderEpochResponse}
    (told : leaders.Tells key epoch leaderEpoch response) :
    ∃ result, response.results.find? (·.partition = key.2) = some result ∧
      (result.errorCode = .none →
        result.endOffset = (logs key).answer (requestedEpoch epoch leaderEpoch)) := by
  obtain ⟨-, leaderId, -, version, leads, -, -, -, sent⟩ := told
  obtain ⟨⟨result, listed, here⟩, honest⟩ := answer key leaderId version epoch leaderEpoch response
    leads sent
  cases found : response.results.find? (·.partition = key.2) with
  | none => exact absurd here (by simpa using List.find?_eq_none.mp found result listed)
  | some first =>
    have own : first.partition = key.2 := by simpa using List.find?_some found
    refine ⟨first, rfl, fun fine => ?_⟩
    exact (honest first (List.mem_of_find?_eq_some found) own).resolve_left (not_not.mpr fine)

theorem check_truncated {endOffset : Offset}
    (checked : validatePosition leaders key position epoch = .ok (.truncated endOffset)) :
    ∃ leaderEpoch, leaders.leaderEpoch key = some leaderEpoch ∧ 0 ≤ endOffset ∧
      endOffset = (logs key).answer (requestedEpoch epoch leaderEpoch) ∧ endOffset < position := by
  rcases validatePosition_eq_ok checked with ⟨-, ⟨⟩⟩ | ⟨leaderEpoch, response, told, made⟩
  obtain ⟨result, found, said⟩ := endOffset_of_tells answer told
  simp only [classify, found] at made
  split_ifs at made with failed past
  cases made
  exact ⟨leaderEpoch, told.1, past.1, said (not_not.mp failed), past.2⟩

theorem check_valid
    (known : ∀ leaderEpoch, leaders.Answered key epoch leaderEpoch →
      (logs key).Knows (requestedEpoch epoch leaderEpoch))
    (checked : validatePosition leaders key position epoch = .ok .valid) :
    leaders.Unchecked key ∨ ∃ leaderEpoch, leaders.leaderEpoch key = some leaderEpoch ∧
      (logs key).Reaches (requestedEpoch epoch leaderEpoch) position := by
  rcases validatePosition_eq_ok checked with ⟨unchecked, -⟩ | ⟨leaderEpoch, response, told, made⟩
  · exact .inl unchecked
  · obtain ⟨result, found, said⟩ := endOffset_of_tells answer told
    simp only [classify, found] at made
    split_ifs at made with failed past
    rw [said (not_not.mp failed)] at past
    obtain ⟨nonneg, reaches⟩ := EpochLog.answer_eq
      (known leaderEpoch ⟨response, result, told, found, not_not.mp failed⟩)
    refine .inr ⟨leaderEpoch, told.1, reaches position ?_⟩
    exact Int.not_lt.mp fun beyond => past ⟨nonneg, beyond⟩

/-- The answer `-1` counts as valid. -/
theorem valid_of_unknown {leaderEpoch : Int} (answered : leaders.Answered key epoch leaderEpoch)
    (unknown : ¬ (logs key).Knows (requestedEpoch epoch leaderEpoch)) :
    validatePosition leaders key position epoch = .ok .valid := by
  obtain ⟨response, result, told, found, fine⟩ := answered
  obtain ⟨first, found', said⟩ := endOffset_of_tells answer told
  cases found.symm.trans found'
  rw [validatePosition_of_tells told, classify, found]
  dsimp only
  rw [if_neg (not_not.mpr fine), said fine, EpochLog.answer_of_unknown unknown]
  exact congrArg Except.ok (if_neg fun past => absurd past.1 (by decide))

end Check

/-! What the results do -/

section Apply

variable (now : Instant) (result : Result Validation) {p : Unvalidated}
  {s : SubscriptionState × List String}

theorem lookup_truncate (s : SubscriptionState) (key k : PartitionKey) (version : Nat)
    (endOffset : Offset) :
    (s.truncate key (some version) endOffset).2.partitions.lookup k =
      if k = key then (s.partitions.lookup k).map fun r =>
        if r.version = version then
          { r with
            version := s.nextVersion + 1, position := some endOffset, epoch := none, reset := none
            validated := true, buffered := none, delivering := false }
        else r
      else s.partitions.lookup k := by
  unfold truncate
  cases found : s.partitions.lookup key with
  | none =>
    split_ifs with here
    · rw [here, found]
      rfl
    · rfl
  | some r =>
    by_cases current : version = r.version
    · simp only [Option.any_some, ne_eq, current, not_true_eq_false, decide_false, if_neg,
        Bool.false_eq_true, not_false_eq_true, reposition,
        lookup_modify_eq]
      split_ifs with here
      · subst here
        show Option.map _ (s.partitions.lookup k) = _
        rw [found]
        simp [bump]
      · rfl
    · simp only [Option.any_some, ne_eq, current, not_false_eq_true, decide_true, if_true]
      split_ifs with here
      · rw [here, found, Option.map_some, if_neg (Ne.symm current)]
      · rfl

theorem lookup_applyValidation_of_ne {k : PartitionKey} (other : k ≠ p.key) :
    (applyValidation now result p s).1.partitions.lookup k = s.1.partitions.lookup k := by
  unfold applyValidation
  split
  · exact (lookup_modify_eq ..).trans (if_neg other)
  · rw [lookup_truncate, if_neg other]
  · exact (lookup_modify_eq ..).trans (if_neg other)
  · rfl

theorem lookup_applyValidation {r : PartitionRecord}
    (found : s.1.partitions.lookup p.key = some r) :
    ∃ r', (applyValidation now result p s).1.partitions.lookup p.key = some r' ∧
      (p.version = r.version → result = .ok .valid → r' = { r with validated := true }) ∧
      ((r'.validated = r.validated ∧ r'.position = r.position) ∨
        (p.version = r.version ∧
          ((result = .ok .valid ∧ r' = { r with validated := true }) ∨
            ∃ endOffset, result = .ok (.truncated endOffset) ∧ r'.position = some endOffset))) := by
  unfold applyValidation
  split
  · rw [markValidated, lookup_modify_eq, if_pos rfl, found,
      Option.map_some]
    refine ⟨_, rfl, fun same _ => if_pos same.symm, ?_⟩
    split_ifs with current
    · exact .inr ⟨current.symm, .inl ⟨rfl, rfl⟩⟩
    · exact .inl ⟨rfl, rfl⟩
  · next endOffset =>
    rw [lookup_truncate, if_pos rfl, found, Option.map_some]
    refine ⟨_, rfl, nofun, ?_⟩
    split_ifs with current
    · exact .inr ⟨current.symm, .inr ⟨endOffset, rfl, rfl⟩⟩
    · exact .inl ⟨rfl, rfl⟩
  · rw [backOff, lookup_modify_eq, if_pos rfl, found,
      Option.map_some]
    refine ⟨_, rfl, nofun, .inl ?_⟩
    split_ifs <;> exact ⟨rfl, rfl⟩
  · exact ⟨r, found, nofun, .inl ⟨rfl, rfl⟩⟩

theorem nodup_unvalidated (s : SubscriptionState) (asked : Instant) :
    ((s.unvalidated asked).map (·.key)).Nodup := by
  have keys : ((s.unvalidated asked).map (·.key)).Sublist (s.assignedKeys.map id) := by
    refine Lists.map_filterMap_sublist id Unvalidated.key (fun key p made => ?_) _
    obtain ⟨r, -, given⟩ := Option.bind_eq_some_iff.mp made
    split_ifs at given
    obtain ⟨-, -, rfl⟩ := Option.map_eq_some_iff.mp given
    rfl
  rw [List.map_id] at keys
  exact s.nodup_assignedKeys.sublist keys

end Apply

/-- A record is marked as validated only if its position cannot be checked or the leader's log
reaches it in its epoch, and otherwise goes back to the answered offset or is left as it was, just if
the log knows the epoch that was asked about and answered without an error. `s'` is the state when
the answers are in. -/
theorem truncation_is_noticed {leaders : Leaders} {logs : PartitionKey → EpochLog}
    (answer : leaders.Answer logs) (s : SubscriptionState) (asked : Instant)
    (s' : SubscriptionState) (now : Instant) {key : PartitionKey} {r : PartitionRecord}
    (found : s'.partitions.lookup key = some r) :
    (∃ r', (validatePositions leaders s asked s' now).1.partitions.lookup key = some r' ∧
      ((r'.validated = r.validated ∧ r'.position = r.position) ∨
        ∃ p ∈ s.unvalidated asked, p.key = key ∧ p.version = r.version ∧
          ((r' = { r with validated := true } ∧ (leaders.Unchecked key ∨
              ∃ leaderEpoch, leaders.leaderEpoch key = some leaderEpoch ∧
                (logs key).Reaches (requestedEpoch p.epoch leaderEpoch) p.position)) ∨
            ∃ leaderEpoch, leaders.leaderEpoch key = some leaderEpoch ∧
              0 ≤ (logs key).answer (requestedEpoch p.epoch leaderEpoch) ∧
              r'.position = some ((logs key).answer (requestedEpoch p.epoch leaderEpoch)) ∧
              (logs key).answer (requestedEpoch p.epoch leaderEpoch) < p.position))) ↔
      ∀ p ∈ s.unvalidated asked, p.key = key → p.version = r.version → r.validated = false →
        ∀ leaderEpoch, leaders.Answered key p.epoch leaderEpoch →
          (logs key).Knows (requestedEpoch p.epoch leaderEpoch) := by
  have apart (done : SubscriptionState × List String) (p : Unvalidated) (k : PartitionKey)
      (other : k ≠ p.key) := @lookup_applyValidation_of_ne now
    (validatePosition leaders p.key p.position p.epoch) p done k other
  by_cases listed : key ∈ (s.unvalidated asked).map (·.key)
  · obtain ⟨p, pending, rfl⟩ := List.mem_map.mp listed
    have only {q : Unvalidated} (there : q ∈ s.unvalidated asked) (same : q.key = p.key) : q = p :=
      List.inj_on_of_nodup_map (nodup_unvalidated s asked) there pending same
    -- When the turn of the partition comes its record is the one of `s'`.
    obtain ⟨done, before, after⟩ := Lists.view_foldl
      (fun (done : SubscriptionState × List String) k => done.1.partitions.lookup k) apart
      (nodup_unvalidated s asked) pending (s', [])
    obtain ⟨r', here, marks, outcome⟩ := lookup_applyValidation now
      (validatePosition leaders p.key p.position p.epoch) (before.trans found)
    constructor
    · rintro ⟨r'', here', outcome'⟩ q there same version fresh leaderEpoch answered
      cases only there same
      by_contra unknown
      cases here'.symm.trans (after.trans here)
      have marked := congrArg PartitionRecord.validated
        (marks version (valid_of_unknown answer answered unknown))
      obtain ⟨response, -, ⟨current, leaderId, -, number, leads, -, -, served, -⟩, -⟩ := answered
      rcases outcome' with ⟨kept, -⟩ | ⟨q, there, same, -, ⟨-, unchecked | ⟨_, current', reaches⟩⟩ |
        ⟨_, current', nonneg, -⟩⟩
      · cases (marked.symm.trans kept).trans fresh
      · rcases unchecked with none | ⟨leaderId', leads', none⟩
        · cases none.symm.trans current
        · cases leads.symm.trans leads'
          cases none.symm.trans served
      · cases only there same
        cases current.symm.trans current'
        exact unknown reaches.knows
      · cases only there same
        cases current.symm.trans current'
        rw [EpochLog.answer_of_unknown unknown] at nonneg
        exact absurd nonneg (by decide)
    · intro known
      refine ⟨r', after.trans here, ?_⟩
      rcases outcome with kept | ⟨version, ⟨valid, same⟩ | ⟨endOffset, truncated, back⟩⟩
      · exact .inl kept
      · cases fresh : r.validated with
        | true => exact .inl ⟨by rw [same], by rw [same]⟩
        | false =>
          exact .inr ⟨p, pending, rfl, version, .inl ⟨same, check_valid answer
            (known p pending rfl version fresh) valid⟩⟩
      · obtain ⟨leaderEpoch, current, nonneg, rfl, past⟩ := check_truncated answer truncated
        exact .inr ⟨p, pending, rfl, version, .inr ⟨leaderEpoch, current, nonneg, back, past⟩⟩
  · constructor
    · exact fun _ p there same => absurd (List.mem_map.mpr ⟨p, there, same⟩) listed
    · refine fun _ => ⟨r, ?_, .inl ⟨rfl, rfl⟩⟩
      exact (Lists.view_foldl_of_notMem
        (fun (done : SubscriptionState × List String) k => done.1.partitions.lookup k) apart listed
        (s', [])).trans found

def servedBy (log : EpochLog) : Leaders where
  leaderEpoch := fun _ => some 6
  leader := fun _ => some 1
  broker := fun _ => some "b:9092"
  getConnectionById := fun _ _ => .ok ()
  negotiateApiVersion := fun _ => some 3
  sendRequest := fun _ _ request => .ok ⟨request.topics.map fun t => ⟨t.topic, t.partitions.map
    fun q => { partition := q.partition, endOffset := log.answer q.leaderEpoch }⟩⟩

theorem servedBy_answers (log : EpochLog) : (servedBy log).Answer fun _ => log := by
  intro key leaderId version epoch leaderEpoch response _ sent
  cases sent
  constructor
  · exact ⟨_, List.mem_singleton_self _, rfl⟩
  · intro result listed _
    rw [List.mem_singleton.mp listed]
    exact .inr rfl

def samplePositioned : SubscriptionState where
  partitions := AList.insert ("t", 0) { version := 1, position := some 50, epoch := some 5 } ∅
  nextVersion := 1

def sampleEpochs : EpochLog where
  epochs := [⟨5, 0⟩, ⟨6, 40⟩]
  endOffset := 100
  increasing := by decide
  within := by decide

theorem unvalidated_samplePositioned :
    samplePositioned.unvalidated 0 = [⟨("t", 0), 1, 50, some 5⟩] := by
  decide

/-- Epoch 5 ends at 40 in the leader's log. -/
theorem sample_truncation_is_noticed :
    ∃ r', (validatePositions (servedBy sampleEpochs) samplePositioned 0 samplePositioned
        0).1.partitions.lookup ("t", 0) = some r' ∧
      (r'.validated = false ∨ sampleEpochs.Reaches 5 50 ∨ r'.position = some 40) := by
  have known : ∀ p ∈ samplePositioned.unvalidated 0, ∀ leaderEpoch,
      sampleEpochs.Knows (requestedEpoch p.epoch leaderEpoch) := by
    rw [unvalidated_samplePositioned]
    intro p listed leaderEpoch
    rw [List.mem_singleton.mp listed]
    exact ⟨⟨5, 0⟩, List.mem_cons_self, Int.le_refl 5⟩
  obtain ⟨r', found, stays | ⟨p, listed, -, -, outcome⟩⟩ := (truncation_is_noticed
    (servedBy_answers sampleEpochs) samplePositioned 0 samplePositioned 0
    (rfl : samplePositioned.partitions.lookup ("t", 0) = _)).mpr
      fun p there _ _ _ leaderEpoch _ => known p there leaderEpoch
  · exact ⟨r', found, .inl stays.1⟩
  · refine ⟨r', found, .inr ?_⟩
    rw [unvalidated_samplePositioned, List.mem_singleton] at listed
    subst listed
    rcases outcome with ⟨-, unchecked | ⟨leaderEpoch, -, reaches⟩⟩ | ⟨leaderEpoch, -, -, back, -⟩
    · rcases unchecked with none | ⟨leaderId, -, none⟩ <;> cases none
    · exact .inl reaches
    · exact .inr back

/-- The leader's log starts with epoch 6: its answer is `-1`. -/
theorem unknown_epoch_is_validated :
    ¬ (EpochLog.mk [⟨6, 40⟩] 100 (by decide) (by decide)).Reaches 5 50 ∧
    ((validatePositions (servedBy ⟨[⟨6, 40⟩], 100, by decide, by decide⟩) samplePositioned 0
      samplePositioned 0).1.partitions.lookup ("t", 0)).map (fun r => (r.position, r.validated)) =
        some (some 50, true) := by
  constructor
  · rintro ⟨before, a, later, parts, low, -⟩
    have listed : a ∈ before ++ a :: later := List.mem_append_right before List.mem_cons_self
    rw [← parts, List.mem_singleton] at listed
    subst listed
    exact absurd low (by decide)
  · decide

end Krafka.Consumer
