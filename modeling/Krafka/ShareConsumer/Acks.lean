import Krafka.Consumer.State
import Krafka.Library.Maps
import Krafka.Library.Ordered
import Krafka.Library.Spans
import Krafka.Metadata.Cache

/-! The ack book: acknowledgements that wait for a request to their node, or ride on one. They
are kept by partition and by the node that acquired the records. -/

namespace Krafka.ShareConsumer

open List

open Consumer (PartitionKey Instant Duration)
open Metadata (TopicId)
open Span (Labels)

inductive AckType where
  | gap
  | accept
  | release
  | reject
  | renew
  deriving DecidableEq

def AckType.toI8 : AckType → Int
  | .gap => 0
  | .accept => 1
  | .release => 2
  | .reject => 3
  | .renew => 4

abbrev AckRange := Span AckType

namespace AckRange

def one (offset : Int) (kind : AckType) : AckRange := ⟨offset, offset, kind, Int.le_refl _⟩

end AckRange

structure AckRanges where
  ranges : List AckRange
  separated : ranges.Pairwise Span.Before

namespace AckRanges

def empty : AckRanges := ⟨[], List.Pairwise.nil⟩

def isEmpty (r : AckRanges) : Bool := r.ranges.isEmpty

theorem labels_of_isEmpty {r : AckRanges} (none : r.isEmpty) (i : Int) (k : AckType) :
    ¬ Labels r.ranges i k := by
  rw [isEmpty_iff.mp none]
  exact Span.labels_nil i k

def Trails (r : AckRanges) (range : AckRange) : Prop :=
  ∀ last ∈ r.ranges.getLast?, last.last < range.first

instance (r : AckRanges) (range : AckRange) : Decidable (r.Trails range) :=
  inferInstanceAs (Decidable (∀ last ∈ r.ranges.getLast?, last.last < range.first))

theorem Trails.before {r : AckRanges} {range : AckRange} (trails : r.Trails range) :
    ∀ a ∈ r.ranges, a.Before range := by
  obtain ⟨ranges, separated⟩ := r
  rcases eq_nil_or_concat ranges with rfl | ⟨front, last, rfl⟩
  · nofun
  · rw [concat_eq_append] at separated
    have final : last.Before range := trails last (by simp)
    intro a there
    simp only [concat_eq_append] at there
    rcases mem_append.mp there with early | here
    · have next := (pairwise_append.mp separated).2.2 a early last (mem_singleton_self _)
      have wide := last.ordered
      simp only [Span.Before] at *
      omega
    · rwa [mem_singleton.mp here]

def insertRange (r : AckRanges) (range : AckRange) : AckRanges :=
  if trails : r.Trails range then
    ⟨Span.push range r.ranges, Span.pairwise_push r.separated trails.before⟩
  else ⟨Span.overlay range r.ranges, Span.pairwise_overlay range r.separated⟩

theorem labels_insertRange (r : AckRanges) (range : AckRange) (i : Int) (k : AckType) :
    Labels (r.insertRange range).ranges i k ↔
      (range.Has i ∧ range.kind = k) ∨ (¬ range.Has i ∧ Labels r.ranges i k) := by
  unfold insertRange
  split
  · rename_i trails
    rw [Span.labels_push, or_comm]
    refine or_congr_right ⟨fun old => ⟨fun here => ?_, old⟩, And.right⟩
    obtain ⟨a, there, has, -⟩ := old
    exact (trails.before a there).not_has has here
  · exact Span.labels_overlay range r.ranges i k

def insertRanges (r more : AckRanges) : AckRanges := more.ranges.foldl insertRange r

theorem labels_foldl_insertRange {more : List AckRange} (separated : more.Pairwise Span.Before)
    (r : AckRanges) (i : Int) (k : AckType) :
    Labels (more.foldl insertRange r).ranges i k ↔
      Labels more i k ∨ ((∀ k', ¬ Labels more i k') ∧ Labels r.ranges i k) := by
  induction more generalizing r with
  | nil => simp [Span.labels_nil]
  | cons range more ih =>
    obtain ⟨ahead, separated⟩ := pairwise_cons.mp separated
    have clash (here : range.Has i) (k' : AckType) : ¬ Labels more i k' := by
      rintro ⟨t, there, has, -⟩
      exact (ahead t there).not_has here has
    rw [foldl_cons, ih separated, labels_insertRange]
    simp only [Span.labels_cons, not_or, not_and]
    constructor
    · rintro (later | ⟨none, ⟨here, kind⟩ | ⟨outside, old⟩⟩)
      · exact .inl (.inr later)
      · exact .inl (.inl ⟨here, kind⟩)
      · exact .inr ⟨fun k' => ⟨fun here => absurd here outside, none k'⟩, old⟩
    · rintro ((⟨here, kind⟩ | later) | ⟨none, old⟩)
      · exact .inr ⟨clash here, .inl ⟨here, kind⟩⟩
      · exact .inl later
      · exact .inr ⟨fun k' => (none k').2, .inr ⟨fun here => (none range.kind).1 here rfl, old⟩⟩

theorem labels_insertRanges (r more : AckRanges) (i : Int) (k : AckType) :
    Labels (r.insertRanges more).ranges i k ↔
      Labels more.ranges i k ∨ ((∀ k', ¬ Labels more.ranges i k') ∧ Labels r.ranges i k) :=
  labels_foldl_insertRange more.separated r i k

end AckRanges

/-! The wire form -/

structure ShareAcknowledgementBatch where
  firstOffset : Int
  lastOffset : Int
  acknowledgeTypes : List Int

def toBatches (ranges : List AckRange) : List ShareAcknowledgementBatch :=
  let sorted := ranges.insertionSort fun a b => a.first ≤ b.first
  (sorted.foldl (fun batches range => Span.push range batches) []).map fun range =>
    ⟨range.first, range.last, [range.kind.toI8]⟩

theorem labels_foldl_push (ranges spans : List AckRange) (i : Int) (k : AckType) :
    Labels (ranges.foldl (fun batches range => Span.push range batches) spans) i k ↔
      Labels spans i k ∨ Labels ranges i k := by
  induction ranges generalizing spans with
  | nil => simp [Span.labels_nil]
  | cons range ranges ih => rw [foldl_cons, ih, Span.labels_push, Span.labels_cons, or_assoc]

theorem labels_of_toBatches {ranges : List AckRange} {batch : ShareAcknowledgementBatch}
    (listed : batch ∈ toBatches ranges) {i : Int} (low : batch.firstOffset ≤ i)
    (high : i ≤ batch.lastOffset) : ∃ k, batch.acknowledgeTypes = [k.toI8] ∧ Labels ranges i k := by
  obtain ⟨range, there, rfl⟩ := mem_map.mp listed
  refine ⟨range.kind, rfl, ?_⟩
  rw [← Span.labels_perm (perm_insertionSort (fun a b : AckRange => a.first ≤ b.first) ranges)]
  have merged := (labels_foldl_push _ [] i range.kind).mp ⟨range, there, ⟨low, high⟩, rfl⟩
  exact merged.resolve_left (Span.labels_nil i _)

/-! The map that the ranges are -/

/-- The offsets are those of an `i64`, short of the greatest. -/
def AckRange.InBounds (range : AckRange) : Prop := 0 ≤ range.first ∧ range.last < 2 ^ 63 - 1

def lastKind (inserted : List AckRange) (i : Int) : Option AckType :=
  (inserted.reverse.find? fun range => range.Has i).map Span.kind

theorem labels_inserted (inserted : List AckRange) (i : Int) (k : AckType) :
    Labels (inserted.foldl AckRanges.insertRange .empty).ranges i k ↔
      lastKind inserted i = some k := by
  induction inserted using List.reverseRecOn with
  | nil => simp [lastKind, AckRanges.empty, Span.labels_nil]
  | append_singleton inserted range ih =>
    rw [foldl_append, foldl_cons, foldl_nil, AckRanges.labels_insertRange, ih,
      lastKind, lastKind, reverse_append, reverse_singleton, singleton_append,
      List.find?_cons]
    by_cases here : range.Has i <;> simp [here]

theorem inBounds_inserted {inserted : List AckRange} (bounds : ∀ range ∈ inserted, range.InBounds) :
    ∀ range ∈ (inserted.foldl AckRanges.insertRange .empty).ranges, range.InBounds := by
  intro range listed
  have within (i : Int) (has : range.Has i) : 0 ≤ i ∧ i < 2 ^ 63 - 1 := by
    obtain ⟨source, found, -⟩ := Option.map_eq_some_iff.mp
      ((labels_inserted inserted i range.kind).mp ⟨range, listed, has, rfl⟩)
    have low := bounds source (mem_reverse.mp (mem_of_find?_eq_some found))
    have inside : source.Has i := by simpa using List.find?_some found
    exact ⟨low.1.trans inside.1, inside.2.trans_lt low.2⟩
  exact ⟨(within _ ⟨Int.le_refl _, range.ordered⟩).1, (within _ ⟨range.ordered, Int.le_refl _⟩).2⟩

theorem AckType.toI8_injective : Function.Injective AckType.toI8 := by
  intro a b
  cases a <;> cases b <;> decide

structure Carries (ranges : List AckRange) (batches : List ShareAcknowledgementBatch) : Prop where
  ordered : ∀ batch ∈ batches, batch.firstOffset ≤ batch.lastOffset
  separated : batches.Pairwise fun a b => a.lastOffset < b.firstOffset
  kinds : ∀ i k, (∃ batch ∈ batches, batch.firstOffset ≤ i ∧ i ≤ batch.lastOffset ∧
    batch.acknowledgeTypes = [AckType.toI8 k]) ↔ Labels ranges i k
  merged : batches.IsChain fun a b =>
    a.lastOffset + 1 = b.firstOffset → a.acknowledgeTypes ≠ b.acknowledgeTypes

theorem carries_toBatches {ranges : List AckRange} (separated : ranges.Pairwise Span.Before) :
    Carries ranges (toBatches ranges) := by
  have perm := perm_insertionSort (fun a b : AckRange => a.first ≤ b.first) ranges
  have sorted : (ranges.insertionSort fun a b => a.first ≤ b.first).Pairwise Span.Before := by
    refine Span.pairwise_before_of_sorted (pairwise_insertionSort _ _) ?_
    exact (perm.pairwise_iff fun h => Or.symm h).mpr (separated.imp .inl)
  obtain ⟨apart, merged⟩ := @Span.foldl_push _ _ [] _ sorted isChain_nil
  refine ⟨?_, pairwise_map.mpr apart, fun i k => ?_, (isChain_map _).mpr ?_⟩
  · intro batch listed
    obtain ⟨range, -, rfl⟩ := mem_map.mp listed
    exact range.ordered
  · constructor
    · rintro ⟨batch, listed, low, high, kind⟩
      obtain ⟨k', kind', labelled⟩ := labels_of_toBatches listed low high
      rw [kind', singleton_inj] at kind
      exact AckType.toI8_injective kind ▸ labelled
    · intro labelled
      obtain ⟨range, there, ⟨low, high⟩, rfl⟩ := (labels_foldl_push _ [] i k).mpr
        (.inr ((Span.labels_perm perm).mpr labelled))
      exact ⟨_, mem_map.mpr ⟨range, there, rfl⟩, low, high, rfl⟩
  · refine merged.imp fun a b different next same => different next ?_
    exact AckType.toI8_injective (singleton_inj.mp same)

/-- Whatever is inserted, in any order, the ranges stay in order and apart, and give each offset
the kind it was given last; so do the batches they are sent as. -/
theorem ack_ranges_are_a_map (inserted : List AckRange)
    (bounds : ∀ range ∈ inserted, range.InBounds) :
    let ranges := (inserted.foldl AckRanges.insertRange .empty).ranges
    ranges.Pairwise Span.Before ∧ (∀ range ∈ ranges, range.InBounds) ∧
      (∀ i k, Labels ranges i k ↔ lastKind inserted i = some k) ∧
      Carries ranges (toBatches ranges) :=
  ⟨AckRanges.separated _, inBounds_inserted bounds, labels_inserted inserted,
    carries_toBatches (AckRanges.separated _)⟩

def sampleRanges : List AckRange :=
  [⟨0, 9, .accept, by decide⟩, ⟨4, 5, .reject, by decide⟩, ⟨10, 12, .accept, by decide⟩]

theorem sampleRanges_are_a_map :
    (sampleRanges.foldl AckRanges.insertRange .empty).ranges.length = 3 ∧
      Carries (sampleRanges.foldl AckRanges.insertRange .empty).ranges
        (toBatches (sampleRanges.foldl AckRanges.insertRange .empty).ranges) := by
  refine ⟨by decide, (ack_ranges_are_a_map sampleRanges ?_).2.2.2⟩
  simp only [sampleRanges, forall_mem_cons, AckRange.InBounds]
  exact ⟨by decide, by decide, by decide, forall_mem_nil _⟩

/-! Failures -/

inductive AckFailure where
  | retry
  | notLeader
  | permanent
  deriving DecidableEq

def isSessionError : ErrorCode → Bool
  | .shareSessionNotFound | .invalidShareSessionEpoch | .shareSessionLimitReached => true
  | _ => false

def isLeaderError : ErrorCode → Bool
  | .notLeaderForPartition | .fencedLeaderEpoch | .unknownLeaderEpoch | .unknownTopicOrPartition
  | .unknownTopicId => true
  | _ => false

def classifyCode (code : ErrorCode) : AckFailure :=
  if isSessionError code || code = .requestTimedOut then .retry
  else if isLeaderError code then .notLeader
  else .permanent

def classify : KrafkaError → AckFailure
  | .network _ | .timeout _ => .retry
  | .broker code _ => classifyCode code
  | _ => .permanent

/-! The book -/

structure AckEntry where
  topicId : TopicId
  pending : AckRanges := .empty
  inFlight : AckRanges := .empty
  queuedAt : Instant

def AckEntry.isEmpty (entry : AckEntry) : Bool := entry.pending.isEmpty && entry.inFlight.isEmpty

abbrev AckKey := Int × PartitionKey

structure Resolved where
  partition : PartitionKey
  ranges : AckRanges
  result : Result Unit

structure TakenAck where
  partition : PartitionKey
  topicId : TopicId
  ranges : AckRanges

abbrev AckBook := AList fun _ : AckKey => AckEntry

namespace AckBook

variable (book : AckBook)

def add (now : Instant) (node : Int) (partition : PartitionKey) (topicId : TopicId)
    (range : AckRange) : AckBook :=
  let entry := (book.lookup (node, partition)).getD { topicId, queuedAt := now }
  let queuedAt := if entry.pending.isEmpty then now else entry.queuedAt
  book.insert (node, partition)
    { entry with queuedAt, pending := entry.pending.insertRange range }

def pends (node : Int) (key : AckKey) (entry : AckEntry) : Bool :=
  key.1 = node && !entry.pending.isEmpty

def takes (node : Int) (partitions : Option (List PartitionKey)) (key : AckKey) (entry : AckEntry) :
    Bool :=
  pends node key entry && entry.inFlight.isEmpty && partitions.all (key.2 ∈ ·)

def take (node : Int) (partitions : Option (List PartitionKey)) : AckBook × List TakenAck :=
  (book.mapValues fun key entry =>
    if takes node partitions key entry then
      { entry with inFlight := entry.pending, pending := .empty } else entry,
  ((book.entries.filter fun e => takes node partitions e.1 e.2).map fun e =>
    ⟨e.1.2, e.2.topicId, e.2.pending⟩).insertionSort fun a b => a.partition.le b.partition)

def finish (key : AckKey) (entry : AckEntry) : AckBook :=
  if entry.isEmpty then book.erase key else book.insert key entry

/-- Settle the acknowledgements of one entry that are in flight. Those that are retried go back
in front of anything queued since. -/
def settle (node : Int) (partition : PartitionKey) (result : Result Unit)
    (retryCutoff : Option Instant) : AckBook × Option Resolved :=
  match book.lookup (node, partition) with
  | none => (book, none)
  | some entry =>
    let landed := { entry with inFlight := .empty }
    if entry.inFlight.isEmpty then (book, none)
    else
      let resolve (result : Result Unit) : AckBook × Option Resolved :=
        (book.finish (node, partition) landed, some ⟨partition, entry.inFlight, result⟩)
      match result with
      | .ok () => resolve (.ok ())
      | .error error =>
        if classify error = .retry then
          if retryCutoff.any (· ≤ entry.queuedAt) then
            (book.insert (node, partition)
              { landed with pending := entry.inFlight.insertRanges entry.pending }, none)
          else
            let text := error.display
            resolve (.error (.timeout
              s!"acknowledging {partition.1}-{partition.2} on node {node} ({text})"))
        else resolve (.error error)

end AckBook

end Krafka.ShareConsumer
