import Krafka.Consumer.ReadCommitted
import Krafka.Library.Lists
import Krafka.ShareConsumer.CompletedFetch

/-! Of a well-formed response each record whose offset is acquired is delivered, and every other
acquired offset is acknowledged: the acquired ranges are filled from left to right around the
offsets that carry records. -/

namespace Krafka.ShareConsumer

open List

open Consumer (ConsumerRecord LogWellFormed BatchWellFormed sampleCodec)
open Metadata (TopicId)
open Span (Fills Labels)

/-! What a response is to lead to -/

def ShareAcquiredRecords.Has (r : ShareAcquiredRecords) (i : Int) : Prop :=
  r.firstOffset ≤ i ∧ i ≤ r.lastOffset

instance (r : ShareAcquiredRecords) (i : Int) : Decidable (r.Has i) :=
  inferInstanceAs (Decidable (r.firstOffset ≤ i ∧ i ≤ r.lastOffset))

def Apart (acquired : List ShareAcquiredRecords) : Prop :=
  acquired.Pairwise fun a b => ∀ i, ¬ (a.Has i ∧ b.Has i)

def delivery (topic : String) (partition : Int) (acquired : List ShareAcquiredRecords)
    (batch : RecordBatch) (record : Record) : Option ConsumerRecord :=
  (acquired.find? (·.Has (recordOffset batch record))).map fun range =>
    .fromWire topic partition batch record (some range.deliveryCount)

def deliveries (topic : String) (partition : Int) (acquired : List ShareAcquiredRecords)
    (batch : RecordBatch) : List ConsumerRecord :=
  if batch.attributes.isControlBatch then []
  else batch.records.filterMap (delivery topic partition acquired batch)

def InControl (batches : List RecordBatch) (i : Int) : Prop :=
  ∃ b ∈ batches, b.attributes.isControlBatch ∧ b.baseOffset ≤ i ∧
    i ≤ b.baseOffset + b.lastOffsetDelta

instance (batches : List RecordBatch) (i : Int) : Decidable (InControl batches i) :=
  inferInstanceAs (Decidable (∃ b ∈ batches, _))

/-- How an acquired offset without a record is acknowledged, if `tail` did not decode. -/
def undelivered (batches : List RecordBatch) (tail : Bytes) (i : Int) : AckType :=
  if tail = [] ∨ InControl batches i ∨ i < releaseBase tail then .gap else .release

section Ranges

variable {acquired ranges : List ShareAcquiredRecords} {i : Int} {r : ShareAcquiredRecords}

theorem Apart.symmetric : Std.Symm fun a b : ShareAcquiredRecords => ∀ i, ¬ (a.Has i ∧ b.Has i) :=
  ⟨fun _ _ apart i both => apart i both.symm⟩

theorem find_eq_some (apart : Apart acquired) :
    acquired.find? (·.Has i) = some r ↔ r ∈ acquired ∧ r.Has i := by
  constructor
  · intro found
    exact ⟨mem_of_find?_eq_some found, by simpa using List.find?_some found⟩
  · rintro ⟨listed, has⟩
    obtain ⟨r', found⟩ : ∃ r', acquired.find? (·.Has i) = some r' :=
      Option.isSome_iff_exists.mp (List.find?_isSome.mpr ⟨r, listed, by simpa using has⟩)
    have has' : r'.Has i := by simpa using List.find?_some found
    have same : r' = r := by
      by_contra different
      have := Apart.symmetric
      exact List.Pairwise.forall apart (mem_of_find?_eq_some found) listed different i
        ⟨has', has⟩
    rw [found, same]

theorem acquiredRanges_ordered (apart : Apart acquired) :
    (acquiredRanges acquired).Pairwise fun a b => a.lastOffset < b.firstOffset := by
  have := Apart.symmetric
  have sorted : (acquiredRanges acquired).Pairwise fun a b => a.firstOffset ≤ b.firstOffset :=
    pairwise_insertionSort _ _
  have disjoint : Apart (acquiredRanges acquired) :=
    ((perm_insertionSort _ _).pairwise_iff fun h => Apart.symmetric.symm _ _ h).mpr
      (apart.sublist filter_sublist)
  refine (sorted.and disjoint).imp_of_mem fun {a b} _ there both => ?_
  have filled := (mem_acquiredRanges.mp there).2
  by_contra meets
  exact both.2 b.firstOffset ⟨⟨both.1, Int.not_lt.mp meets⟩, Int.le_refl _, filled⟩

theorem head_dropWhile_eq_some
    (ordered : ranges.Pairwise fun a b => a.lastOffset < b.firstOffset) :
    (ranges.dropWhile (·.lastOffset < i)).head?.filter (·.firstOffset ≤ i) = some r ↔
      r ∈ ranges ∧ r.Has i := by
  induction ranges with
  | nil => simp
  | cons a ranges ih =>
    obtain ⟨ahead, ordered⟩ := pairwise_cons.mp ordered
    by_cases early : a.lastOffset < i
    · rw [dropWhile_cons_of_pos (by simpa using early), ih ordered, mem_cons]
      constructor
      · exact fun h => ⟨.inr h.1, h.2⟩
      · rintro ⟨rfl | later, has⟩
        · exact absurd early (Int.not_lt.mpr has.2)
        · exact ⟨later, has⟩
    · rw [dropWhile_cons_of_neg (by simpa using early), List.head?_cons,
        Option.filter_eq_some_iff, decide_eq_true_eq, Option.some_inj, mem_cons]
      constructor
      · rintro ⟨rfl, start⟩
        exact ⟨.inl rfl, start, Int.not_lt.mp early⟩
      · rintro ⟨rfl | later, has⟩
        · exact ⟨rfl, has.1⟩
        · exact absurd (Int.lt_of_lt_of_le (ahead r later) has.1) early

end Ranges

/-! The walk over the records -/

section Offsets

variable {batch : RecordBatch} (wf : BatchWellFormed batch)
include wf

theorem recordOffset_within {r : Record} (listed : r ∈ batch.records) :
    batch.baseOffset ≤ recordOffset batch r ∧
      recordOffset batch r ≤ batch.baseOffset + batch.lastOffsetDelta := by
  have within := wf.within r listed
  rw [recordOffset, wf.offset listed]
  omega

theorem recordOffset_increasing :
    batch.records.Pairwise fun a b => recordOffset batch a < recordOffset batch b := by
  refine wf.increasing.imp_of_mem fun {a b} here there less => ?_
  rw [recordOffset, recordOffset, wf.offset here, wf.offset there]
  omega

end Offsets

section Walk

variable {topic : String} {partition : Int} {acquired : List ShareAcquiredRecords} {w : RecordWalk}
  {bound : Int} {batch : RecordBatch}

variable (topic partition acquired) in
def coverage (batch : RecordBatch) : List Covered :=
  if batch.attributes.isControlBatch then
    [⟨batch.baseOffset, saturatingAdd batch.baseOffset batch.lastOffsetDelta, .gap⟩]
  else (deliveries topic partition acquired batch).map fun r => ⟨r.offset, r.offset, .accept⟩

structure RecordWalk.Reads (acquired : List ShareAcquiredRecords) (w : RecordWalk) (bound : Int) :
    Prop where
  left : w.ranges <:+ acquiredRanges acquired
  passed : ∀ r ∈ acquiredRanges acquired, bound ≤ r.lastOffset → r ∈ w.ranges
  below : ∀ c ∈ w.covered, c.last < bound

namespace RecordWalk.Reads

theorem mono {bound' : Int} (reads : w.Reads acquired bound) (le : bound ≤ bound') :
    w.Reads acquired bound' :=
  ⟨reads.left, fun r listed late => reads.passed r listed (Int.le_trans le late),
    fun c there => Int.lt_of_lt_of_le (reads.below c there) le⟩

theorem lookup (reads : w.Reads acquired bound) (apart : Apart acquired) {i : Int}
    (late : bound ≤ i) :
    (w.ranges.dropWhile (·.lastOffset < i)).head?.filter (·.firstOffset ≤ i) =
      acquired.find? (·.Has i) := by
  refine Option.ext fun r => ?_
  rw [head_dropWhile_eq_some ((acquiredRanges_ordered apart).sublist reads.left.sublist),
    find_eq_some apart]
  constructor
  · exact fun h => ⟨(mem_acquiredRanges.mp (reads.left.subset h.1)).1, h.2⟩
  · rintro ⟨listed, has⟩
    have here := mem_acquiredRanges.mpr ⟨listed, Int.le_trans has.1 has.2⟩
    exact ⟨reads.passed r here (Int.le_trans late has.2), has⟩

variable (topic partition) in
theorem record (reads : w.Reads acquired bound) (apart : Apart acquired) {record : Record}
    (late : bound ≤ recordOffset batch record) :
    (w.record topic partition batch record).Reads acquired (recordOffset batch record + 1) ∧
      (w.record topic partition batch record).delivered =
        w.delivered ++ (delivery topic partition acquired batch record).toList ∧
      (w.record topic partition batch record).covered = w.covered ++
        (delivery topic partition acquired batch record).toList.map
          fun r => ⟨r.offset, r.offset, .accept⟩ := by
  have fresh : ¬ w.covered.getLast?.any (recordOffset batch record ≤ ·.last) := by
    rw [Option.any_eq_true]
    rintro ⟨c, last, reaches⟩
    have before := reads.below c (mem_of_getLast? last)
    exact absurd (Int.lt_of_lt_of_le before late) (Int.not_lt.mpr (by simpa using reaches))
  have suffix : w.ranges.dropWhile (·.lastOffset < recordOffset batch record) <:+
      acquiredRanges acquired := (dropWhile_suffix _).trans reads.left
  have passed : ∀ r ∈ acquiredRanges acquired, recordOffset batch record + 1 ≤ r.lastOffset →
      r ∈ w.ranges.dropWhile (·.lastOffset < recordOffset batch record) := by
    intro r listed beyond
    refine Lists.mem_dropWhile (reads.passed r listed (by omega)) ?_
    rw [decide_eq_true_eq]
    omega
  have below : ∀ c ∈ w.covered, c.last < recordOffset batch record + 1 := fun c there =>
    Int.lt_add_one_of_le (Int.le_of_lt (Int.lt_of_lt_of_le (reads.below c there) late))
  unfold RecordWalk.record delivery
  dsimp only
  rw [if_neg fresh, reads.lookup apart late]
  cases acquired.find? (·.Has (recordOffset batch record)) with
  | none => exact ⟨⟨suffix, passed, below⟩, by simp, by simp⟩
  | some =>
    refine ⟨⟨suffix, passed, fun c there => ?_⟩, rfl, rfl⟩
    rcases mem_append.mp there with old | new
    · exact below c old
    · rw [mem_singleton.mp new]
      exact Int.lt_succ _

theorem records {bound' : Int} {records : List Record} (reads : w.Reads acquired bound)
    (apart : Apart acquired) (starts : ∀ r ∈ records, bound ≤ recordOffset batch r)
    (increasing : records.Pairwise fun a b => recordOffset batch a < recordOffset batch b)
    (ends : ∀ r ∈ records, recordOffset batch r < bound') (le : bound ≤ bound') :
    (records.foldl (RecordWalk.record topic partition batch) w).Reads acquired bound' ∧
      (records.foldl (RecordWalk.record topic partition batch) w).delivered =
        w.delivered ++ records.filterMap (delivery topic partition acquired batch) ∧
      (records.foldl (RecordWalk.record topic partition batch) w).covered =
        w.covered ++ (records.filterMap (delivery topic partition acquired batch)).map
          fun r => ⟨r.offset, r.offset, .accept⟩ := by
  induction records generalizing w bound with
  | nil => exact ⟨reads.mono le, by simp, by simp⟩
  | cons r records ih =>
    obtain ⟨ahead, increasing⟩ := pairwise_cons.mp increasing
    obtain ⟨here, delivered, covered⟩ :=
      reads.record topic partition apart (starts r mem_cons_self)
    obtain ⟨final, delivered', covered'⟩ := ih here (fun s later => ahead s later) increasing
      (fun s later => ends s (mem_cons_of_mem _ later)) (ends r mem_cons_self)
    refine ⟨final, ?_, ?_⟩
    · rw [foldl_cons, delivered', delivered, append_assoc, filterMap_cons]
      cases delivery topic partition acquired batch r <;> rfl
    · rw [foldl_cons, covered', covered, append_assoc, filterMap_cons]
      cases delivery topic partition acquired batch r <;> rfl

variable (topic partition) in
theorem visit (reads : w.Reads acquired batch.baseOffset) (apart : Apart acquired)
    (wf : BatchWellFormed batch) :
    (w.batch topic partition batch).Reads acquired (batch.baseOffset + batch.lastOffsetDelta + 1) ∧
      (w.batch topic partition batch).delivered =
        w.delivered ++ deliveries topic partition acquired batch ∧
      (w.batch topic partition batch).covered =
        w.covered ++ coverage topic partition acquired batch := by
  have upto : batch.baseOffset ≤ batch.baseOffset + batch.lastOffsetDelta + 1 := by
    have := wf.filled
    omega
  unfold RecordWalk.batch deliveries coverage
  split
  · have later := reads.mono upto
    refine ⟨⟨later.left, later.passed, fun c there => ?_⟩, (append_nil _).symm, rfl⟩
    rcases mem_append.mp there with old | new
    · exact later.below c old
    · rw [mem_singleton.mp new, wf.batchEnd]
      exact Int.lt_succ _
  · rw [deliveries, if_neg ‹_›]
    exact reads.records apart (fun r listed => (recordOffset_within wf listed).1)
      (recordOffset_increasing wf)
      (fun r listed => Int.lt_add_one_of_le (recordOffset_within wf listed).2) upto

variable (topic partition) in
theorem log {batches : List RecordBatch} (reads : w.Reads acquired bound) (apart : Apart acquired)
    (wf : LogWellFormed batches) (starts : ∀ b ∈ batches, bound ≤ b.baseOffset) :
    (batches.foldl (RecordWalk.batch topic partition) w).delivered =
        w.delivered ++ batches.flatMap (deliveries topic partition acquired) ∧
      (batches.foldl (RecordWalk.batch topic partition) w).covered =
        w.covered ++ batches.flatMap (coverage topic partition acquired) := by
  induction batches generalizing w bound with
  | nil => exact ⟨by simp, by simp⟩
  | cons b batches ih =>
    obtain ⟨ahead, -⟩ := pairwise_cons.mp wf.apart
    have here := reads.mono (starts b mem_cons_self)
    obtain ⟨next, delivered, covered⟩ :=
      here.visit topic partition apart (wf.each b mem_cons_self)
    obtain ⟨delivered', covered'⟩ := ih next wf.tail fun b' later => ahead b' later
    refine ⟨?_, ?_⟩
    · rw [foldl_cons, delivered', delivered, append_assoc, flatMap_cons]
    · rw [foldl_cons, covered', covered, append_assoc, flatMap_cons]

end RecordWalk.Reads

end Walk

/-! The covered offsets -/

section Coverage

variable {topic : String} {partition : Int} {acquired : List ShareAcquiredRecords}
  {batch : RecordBatch} {batches : List RecordBatch} {releaseFrom : Option Int}

def Covered.Has (c : Covered) (i : Int) : Prop := c.first ≤ i ∧ i ≤ c.last

instance (c : Covered) (i : Int) : Decidable (c.Has i) :=
  inferInstanceAs (Decidable (c.first ≤ i ∧ i ≤ c.last))

structure Laid (covered : List Covered) : Prop where
  ordered : covered.Pairwise fun a b => a.last < b.first
  filled : ∀ c ∈ covered, c.first ≤ c.last
  bounded : ∀ c ∈ covered, minOffset ≤ c.last ∧ c.last < maxOffset
  kinds : ∀ c ∈ covered, c.kind = .accept ∧ c.first = c.last ∨ c.kind = .gap

theorem mem_deliveries {r : ConsumerRecord} (listed : r ∈ deliveries topic partition acquired batch) :
    ∃ record ∈ batch.records, delivery topic partition acquired batch record = some r ∧
      r.offset = recordOffset batch record := by
  unfold deliveries at listed
  split at listed
  · cases listed
  · obtain ⟨record, there, made⟩ := mem_filterMap.mp listed
    obtain ⟨range, -, rfl⟩ := Option.map_eq_some_iff.mp made
    exact ⟨record, there, made, rfl⟩

theorem deliveries_increasing (wf : BatchWellFormed batch) :
    (deliveries topic partition acquired batch).Pairwise fun a b => a.offset < b.offset := by
  unfold deliveries
  split
  · exact List.Pairwise.nil
  · refine (recordOffset_increasing wf).filterMap _ fun a b less r made s made' => ?_
    obtain ⟨-, -, rfl⟩ := Option.map_eq_some_iff.mp made
    obtain ⟨-, -, rfl⟩ := Option.map_eq_some_iff.mp made'
    exact less

theorem mem_coverage (wf : BatchWellFormed batch) {c : Covered}
    (there : c ∈ coverage topic partition acquired batch) :
    (batch.baseOffset ≤ c.first ∧ c.first ≤ c.last ∧
      c.last ≤ batch.baseOffset + batch.lastOffsetDelta) ∧
    (c.kind = .accept ∧ c.first = c.last ∨ c.kind = .gap) := by
  have filled := wf.filled
  unfold coverage at there
  split at there
  · rw [mem_singleton.mp there, wf.batchEnd]
    exact ⟨⟨Int.le_refl _, Int.le_add_of_nonneg_right filled, Int.le_refl _⟩, .inr rfl⟩
  · obtain ⟨r, listed, rfl⟩ := mem_map.mp there
    obtain ⟨record, here, -, offset⟩ := mem_deliveries listed
    have within := recordOffset_within wf here
    rw [← offset] at within
    exact ⟨⟨within.1, Int.le_refl _, within.2⟩, .inl ⟨rfl, rfl⟩⟩

variable (topic partition acquired) in
theorem laid_coverage (wf : LogWellFormed batches)
    (small : ∀ b ∈ batches, b.baseOffset + b.lastOffsetDelta < maxOffset) :
    Laid (batches.flatMap (coverage topic partition acquired)) := by
  have each {c : Covered} (there : c ∈ batches.flatMap (coverage topic partition acquired)) :
      ∃ b ∈ batches, c ∈ coverage topic partition acquired b := mem_flatMap.mp there
  refine ⟨pairwise_flatMap.mpr ⟨fun b listed => ?_, ?_⟩, fun c there => ?_, fun c there => ?_,
    fun c there => ?_⟩
  · unfold coverage
    split
    · exact pairwise_singleton _ _
    · exact pairwise_map.mpr (deliveries_increasing (wf.each b listed))
  · refine wf.apart.imp_of_mem fun {a b} here there apart c inA d inB => ?_
    have low := (mem_coverage (wf.each a here) inA).1
    have high := (mem_coverage (wf.each b there) inB).1
    omega
  · obtain ⟨b, listed, here⟩ := each there
    exact (mem_coverage (wf.each b listed) here).1.2.1
  · obtain ⟨b, listed, here⟩ := each there
    have within := (mem_coverage (wf.each b listed) here).1
    have least := (wf.each b listed).least
    have most := small b listed
    simp only [minOffset]
    omega
  · obtain ⟨b, listed, here⟩ := each there
    exact (mem_coverage (wf.each b listed) here).2

theorem mem_offsets_iff {i : Int} :
    i ∈ (batches.flatMap (deliveries topic partition acquired)).map (·.offset) ↔
      ∃ c ∈ batches.flatMap (coverage topic partition acquired), c.kind = .accept ∧ c.Has i := by
  constructor
  · intro delivered
    obtain ⟨r, there, rfl⟩ := mem_map.mp delivered
    obtain ⟨b, listed, here⟩ := mem_flatMap.mp there
    refine ⟨⟨r.offset, r.offset, .accept⟩, mem_flatMap.mpr ⟨b, listed, ?_⟩, rfl,
      Int.le_refl _, Int.le_refl _⟩
    have data : ¬ b.attributes.isControlBatch := by
      intro control
      rw [deliveries, if_pos control] at here
      cases here
    rw [coverage, if_neg data]
    exact mem_map_of_mem here
  · rintro ⟨c, there, accept, has⟩
    obtain ⟨b, listed, here⟩ := mem_flatMap.mp there
    have data : ¬ b.attributes.isControlBatch := by
      intro control
      rw [coverage, if_pos control, mem_singleton] at here
      subst here
      cases accept
    rw [coverage, if_neg data] at here
    obtain ⟨r, delivered, rfl⟩ := mem_map.mp here
    exact mem_map.mpr ⟨r, mem_flatMap.mpr ⟨b, listed, delivered⟩,
      Int.le_antisymm has.1 has.2⟩

theorem inControl_iff (wf : LogWellFormed batches) {i : Int} : InControl batches i ↔
    ∃ c ∈ batches.flatMap (coverage topic partition acquired), c.kind = .gap ∧ c.Has i := by
  have ending (b : RecordBatch) (listed : b ∈ batches) := (wf.each b listed).batchEnd
  constructor
  · rintro ⟨b, listed, control, has⟩
    refine ⟨⟨b.baseOffset, saturatingAdd b.baseOffset b.lastOffsetDelta, .gap⟩,
      mem_flatMap.mpr ⟨b, listed, ?_⟩, rfl, has.1, (ending b listed).symm ▸ has.2⟩
    rw [coverage, if_pos control]
    exact mem_singleton_self _
  · rintro ⟨c, there, gap, has⟩
    obtain ⟨b, listed, here⟩ := mem_flatMap.mp there
    unfold coverage at here
    split at here
    · rename_i control
      cases mem_singleton.mp here
      exact ⟨b, listed, control, has.1, (ending b listed) ▸ has.2⟩
    · obtain ⟨r, -, rfl⟩ := mem_map.mp here
      cases gap

theorem offsets_increasing (wf : LogWellFormed batches) :
    ((batches.flatMap (deliveries topic partition acquired)).map (·.offset)).Pairwise (· < ·) := by
  refine pairwise_map.mpr (pairwise_flatMap.mpr
    ⟨fun b listed => deliveries_increasing (wf.each b listed), ?_⟩)
  refine wf.apart.imp_of_mem fun {a b} here there apart r inA s inB => ?_
  obtain ⟨record, listed, -, offset⟩ := mem_deliveries inA
  obtain ⟨record', listed', -, offset'⟩ := mem_deliveries inB
  have low := recordOffset_within (wf.each a here) listed
  have high := recordOffset_within (wf.each b there) listed'
  rw [offset, offset']
  exact Int.lt_of_le_of_lt low.2 (Int.lt_of_lt_of_le apart high.1)

end Coverage

/-! Filling the acquired ranges -/

section Fill

variable {ranges : List ShareAcquiredRecords} {covered : List Covered} {acks : List AckRange}
  {releaseFrom : Option Int}

/-- How an offset that nothing covers is acknowledged. -/
def bare (releaseFrom : Option Int) (i : Int) : AckType :=
  if ∀ start ∈ releaseFrom, i < start then .gap else .release

def Owes (ranges : List ShareAcquiredRecords) (covered : List Covered) (releaseFrom : Option Int)
    (i : Int) (k : AckType) : Prop :=
  (Acquires ranges i ∧ ∀ c ∈ covered, c.kind = .accept → ¬ c.Has i) ∧
    (if ∃ c ∈ covered, c.kind = .gap ∧ c.Has i then .gap else bare releaseFrom i) = k

theorem bare_gap {i start : Int} (early : i < start) : bare (some start) i = .gap :=
  if_pos fun _ first => Option.mem_some.mp first ▸ early

theorem bare_release {i start : Int} (late : start ≤ i) : bare (some start) i = .release :=
  if_neg fun early => Int.not_lt.mpr late (early start rfl)

theorem Laid.unique (laid : Laid covered) {c d : Covered} (there : c ∈ covered)
    (also : d ∈ covered) {i : Int} (has : c.Has i) (has' : d.Has i) : c = d := by
  by_contra different
  have symmetric : Std.Symm fun a b : Covered => a.last < b.first ∨ b.last < a.first :=
    ⟨fun _ _ => Or.symm⟩
  have apart : covered.Pairwise fun a b => a.last < b.first ∨ b.last < a.first :=
    laid.ordered.imp .inl
  have order := apart.forall there also different
  simp only [Covered.Has] at has has'
  omega

theorem Fills.pushAck {T : Int → AckType → Prop} {first last : Int} {kind : AckType}
    (fills : Fills T acks first) (ordered : first ≤ last)
    (all : ∀ i k, first ≤ i → i ≤ last → (T i k ↔ kind = k)) :
    Fills T (pushAck first last kind acks) (last + 1) := by
  rw [ShareConsumer.pushAck, dif_pos ordered]
  exact Span.Fills.push (s := ⟨first, last, kind, ordered⟩) fills
    fun i k has => all i k has.1 has.2

theorem Fills.uncovered {T : Int → AckType → Prop} {first last : Int} (fills : Fills T acks first)
    (ordered : first ≤ last)
    (all : ∀ i k, first ≤ i → i ≤ last → (T i k ↔ bare releaseFrom i = k)) :
    Fills T (uncovered releaseFrom first last acks) (last + 1) := by
  unfold ShareConsumer.uncovered
  split
  · rename_i start
    split
    · rename_i past
      refine Fills.pushAck fills ordered fun i k low high => ?_
      rw [all i k low high, bare_release (Int.le_trans past low)]
    · split
      · have gaps : Fills T (ShareConsumer.pushAck first (start - 1) .gap acks) (start - 1 + 1) :=
          Fills.pushAck fills (by omega) fun i k low high => by
            rw [all i k low (by omega), bare_gap (by omega)]
        rw [Int.sub_add_cancel] at gaps
        refine Fills.pushAck gaps (by omega) fun i k low high => ?_
        rw [all i k (by omega) high, bare_release low]
      · refine Fills.pushAck fills ordered fun i k low high => ?_
        rw [all i k low high, bare_gap (by omega)]
  · refine Fills.pushAck fills ordered fun i k low high => ?_
    rw [all i k low high]
    exact Iff.rfl

structure Filled (ranges : List ShareAcquiredRecords) (covered : List Covered)
    (releaseFrom : Option Int) (range : ShareAcquiredRecords) (cs : List Covered) (f : Filling) :
    Prop where
  starts : range.firstOffset ≤ f.next
  fills : Fills (Owes ranges covered releaseFrom) f.acks (min f.next (range.lastOffset + 1))
  ahead : ∀ i, f.next ≤ i → i ≤ range.lastOffset → ∀ c ∈ covered, c.Has i → c ∈ cs

variable {range : ShareAcquiredRecords} {c : Covered} {cs : List Covered} {f : Filling}

theorem owes_uncovered {i : Int} {k : AckType} (acquired : Acquires ranges i)
    (clear : ∀ d ∈ covered, ¬ d.Has i) :
    Owes ranges covered releaseFrom i k ↔ bare releaseFrom i = k := by
  rw [Owes, if_neg fun ⟨d, there, _, has⟩ => clear d there has]
  exact and_iff_right ⟨acquired, fun d there _ => clear d there⟩

theorem Filled.fills_step (laid : Laid covered) (listed : range ∈ ranges)
    (here : c ∈ covered) (later : ∀ d ∈ cs, c.last < d.first) (early : c.first ≤ range.lastOffset)
    (reaches : f.next ≤ c.last) (filled : Filled ranges covered releaseFrom range (c :: cs) f) :
    Fills (Owes ranges covered releaseFrom) (fillCovered releaseFrom range.lastOffset f c).acks
      (min c.last range.lastOffset + 1) := by
  have long := laid.filled c here
  have starts := filled.starts
  have fills := filled.fills
  have acquired (i : Int) (low : f.next ≤ i) (high : i ≤ range.lastOffset) : Acquires ranges i :=
    ⟨range, listed, Int.le_trans starts low, high⟩
  rw [ShareConsumer.fillCovered, if_neg (Int.not_lt.mpr reaches)]
  dsimp only
  by_cases past : range.lastOffset < f.next
  · -- An earlier stretch of control records ends behind the range: nothing is left to do.
    rw [if_neg (by omega : ¬ f.next < c.first), ShareConsumer.pushAck, dif_neg (by omega), ite_self]
    rwa [show min f.next (range.lastOffset + 1) = min c.last range.lastOffset + 1 by omega] at fills
  · rw [show min f.next (range.lastOffset + 1) = f.next by omega] at fills
    have upto : Fills (Owes ranges covered releaseFrom) (if f.next < c.first then
        ShareConsumer.uncovered releaseFrom f.next (c.first - 1) f.acks else f.acks)
          (max c.first f.next) := by
      split
      · rw [show max c.first f.next = c.first - 1 + 1 by omega]
        refine Fills.uncovered fills (by omega) fun i k low high =>
          owes_uncovered (acquired i low (by omega)) fun d there has => ?_
        rcases mem_cons.mp (filled.ahead i low (by omega) d there has) with rfl | next
        · exact absurd has.1 (by omega)
        · have := later d next
          exact absurd has.1 (by omega)
      · rwa [show max c.first f.next = f.next by omega]
    rcases laid.kinds c here with ⟨accept, point⟩ | gap
    · rw [if_neg (by rw [accept]; decide)]
      refine upto.skip (by omega) fun i k low high owed => ?_
      exact owed.1.2 c here accept ⟨by omega, by omega⟩
    · rw [if_pos gap]
      refine Fills.pushAck upto (by omega) fun i k low high => ?_
      have has : c.Has i := ⟨by omega, by omega⟩
      rw [Owes, if_pos ⟨c, here, gap, has⟩]
      refine and_iff_right ⟨acquired i (by omega) (by omega), fun d there accept has' => ?_⟩
      obtain rfl := laid.unique here there has has'
      exact absurd (gap.symm.trans accept) (by decide)

theorem Filled.step (laid : Laid covered) (listed : range ∈ ranges) (here : c ∈ covered)
    (later : ∀ d ∈ cs, c.last < d.first) (early : c.first ≤ range.lastOffset)
    (filled : Filled ranges covered releaseFrom range (c :: cs) f) :
    Filled ranges covered releaseFrom range cs (fillCovered releaseFrom range.lastOffset f c) := by
  by_cases reaches : f.next ≤ c.last
  · have next : (fillCovered releaseFrom range.lastOffset f c).next = c.last + 1 := by
      have bounded := laid.bounded c here
      simp only [minOffset, maxOffset] at bounded
      rw [ShareConsumer.fillCovered, if_neg (Int.not_lt.mpr reaches)]
      exact saturatingAdd_eq (by omega) (by omega)
    have starts := filled.starts
    have fills := filled.fills_step laid listed here later early reaches
    refine ⟨by omega, ?_, fun i low high d there has => ?_⟩
    · rwa [show min (fillCovered releaseFrom range.lastOffset f c).next (range.lastOffset + 1) =
        min c.last range.lastOffset + 1 by omega]
    · rcases mem_cons.mp (filled.ahead i (by omega) high d there has) with rfl | kept
      · exact absurd has.2 (by omega)
      · exact kept
  · rw [ShareConsumer.fillCovered, if_pos (Int.not_le.mp reaches)]
    refine ⟨filled.starts, filled.fills, fun i low high d there has => ?_⟩
    rcases mem_cons.mp (filled.ahead i low high d there has) with rfl | kept
    · exact absurd has.2 (by omega)
    · exact kept

theorem Filled.foldl (laid : Laid covered) (listed : range ∈ ranges)
    (sub : ∀ c ∈ cs, c ∈ covered) (ordered : cs.Pairwise fun a b => a.last < b.first)
    (early : ∀ c ∈ cs, c.first ≤ range.lastOffset)
    (filled : Filled ranges covered releaseFrom range cs f) :
    Filled ranges covered releaseFrom range []
      (cs.foldl (fillCovered releaseFrom range.lastOffset) f) := by
  induction cs generalizing f with
  | nil => exact filled
  | cons c cs ih =>
    obtain ⟨later, ordered⟩ := pairwise_cons.mp ordered
    exact ih (fun d there => sub d (mem_cons_of_mem _ there)) ordered
      (fun d there => early d (mem_cons_of_mem _ there))
      (filled.step laid listed (sub c mem_cons_self) later (early c mem_cons_self))

theorem fillRange_fills (laid : Laid covered) (listed : range ∈ ranges)
    (rest : cs <:+ covered) (passed : ∀ c ∈ covered, range.firstOffset ≤ c.last → c ∈ cs)
    (nonempty : range.firstOffset ≤ range.lastOffset)
    (fills : Fills (Owes ranges covered releaseFrom) acks range.firstOffset) :
    Fills (Owes ranges covered releaseFrom) (fillRange releaseFrom (cs, acks) range).2
      (range.lastOffset + 1) := by
  have left : (cs.dropWhile (·.last < range.firstOffset)) <:+ covered :=
    (dropWhile_suffix _).trans rest
  have ordered : (cs.dropWhile (·.last < range.firstOffset)).Pairwise fun a b => a.last < b.first :=
    laid.ordered.sublist left.sublist
  have start : Filled ranges covered releaseFrom range
      ((cs.dropWhile (·.last < range.firstOffset)).takeWhile (·.first ≤ range.lastOffset))
      ⟨range.firstOffset, acks⟩ := by
    refine ⟨Int.le_refl _, ?_, fun i low high c there has => ?_⟩
    · rwa [show min range.firstOffset (range.lastOffset + 1) = range.firstOffset by omega]
    · have reaches : range.firstOffset ≤ c.last := Int.le_trans low has.2
      refine Lists.mem_takeWhile ?_ (Lists.mem_dropWhile (passed c there reaches) ?_)
        (by simpa using Int.le_trans has.1 high)
      · refine ordered.imp_of_mem fun {a b} here _ before => ?_
        have long := laid.filled a (left.subset here)
        simp only [decide_eq_true_eq]
        omega
      · simpa using reaches
  have filled := start.foldl laid listed
    (fun c there => left.subset ((takeWhile_sublist _).subset there))
    (ordered.sublist (takeWhile_sublist _))
    (fun c there => by simpa using mem_takeWhile_imp there)
  unfold ShareConsumer.fillRange
  dsimp only
  split
  · rename_i more
    have upto := filled.fills
    rw [Int.min_eq_left (by omega)] at upto
    refine Fills.uncovered upto more fun i k low high => owes_uncovered
      ⟨range, listed, Int.le_trans filled.starts low, high⟩ fun c there has => ?_
    cases filled.ahead i low high c there has
  · have upto := filled.fills
    rwa [Int.min_eq_right (by omega)] at upto

theorem fillRanges_fills (laid : Laid covered) {todo : List ShareAcquiredRecords}
    (sub : ∀ r ∈ todo, r ∈ ranges ∧ r.firstOffset ≤ r.lastOffset)
    (apart : todo.Pairwise fun a b => a.lastOffset < b.firstOffset) {next : Int}
    (rest : cs <:+ covered) (passed : ∀ c ∈ covered, next ≤ c.last → c ∈ cs)
    (first : ∀ r ∈ todo, next ≤ r.firstOffset)
    (only : ∀ i, next ≤ i → Acquires ranges i → Acquires todo i)
    (fills : Fills (Owes ranges covered releaseFrom) acks next) :
    ∃ final, Fills (Owes ranges covered releaseFrom)
        (todo.foldl (fillRange releaseFrom) (cs, acks)).2 final ∧
      ∀ i, Acquires ranges i → i < final := by
  induction todo generalizing cs acks next with
  | nil =>
    refine ⟨next, fills, fun i acquired => ?_⟩
    by_contra beyond
    obtain ⟨r, none, -⟩ := only i (Int.not_lt.mp beyond) acquired
    cases none
  | cons range todo ih =>
    obtain ⟨ahead, apart⟩ := pairwise_cons.mp apart
    obtain ⟨listed, nonempty⟩ := sub range mem_cons_self
    have start := first range mem_cons_self
    have upto : Fills (Owes ranges covered releaseFrom) acks range.firstOffset := by
      refine fills.skip start fun i k low high owed => ?_
      obtain ⟨r, listed, has⟩ := only i low owed.1.1
      rcases mem_cons.mp listed with rfl | later
      · exact absurd has.1 (by omega)
      · have := ahead r later
        exact absurd has.1 (by omega)
    have filled := fillRange_fills laid listed rest
      (fun c there reaches => passed c there (by omega)) nonempty upto
    refine ih (fun r later => sub r (mem_cons_of_mem _ later)) apart
      ((dropWhile_suffix _).trans rest) ?_ (fun r later => ahead r later) ?_ filled
    · intro c there reaches
      refine Lists.mem_dropWhile (passed c there (by omega)) ?_
      rw [decide_eq_true_eq]
      omega
    · intro i low acquired
      obtain ⟨r, listed, has⟩ := only i (by omega) acquired
      rcases mem_cons.mp listed with rfl | later
      · exact absurd has.2 (by omega)
      · exact ⟨r, later, has⟩

end Fill

section Process

variable {codec : Codec} {maxDecompressedSize : Nat} {topic : String} {topicId : TopicId}
  {partition node : Int} {records : Option Bytes} {acquired : List ShareAcquiredRecords}
  {batches : List RecordBatch} {tail : Bytes}

theorem owed_eq_undelivered (wf : LogWellFormed batches) (i : Int) :
    (if ∃ c ∈ batches.flatMap (coverage topic partition acquired), c.kind = .gap ∧ c.Has i then .gap
      else bare (if tail = [] then none else some (releaseBase tail)) i) =
      undelivered batches tail i := by
  rw [undelivered, bare]
  simp only [← inControl_iff wf]
  by_cases inside : InControl batches i
  · rw [if_pos inside, if_pos (.inr (.inl inside))]
  · rw [if_neg inside]
    refine ite_congr (propext ?_) (fun _ => rfl) fun _ => rfl
    by_cases whole : tail = []
    · simp [whole]
    · simp [whole, inside]

/-- The records of a response are those whose offsets are acquired; every other acquired offset is
acknowledged, once: a gap where it lies in a control batch or before the first batch that does not
decode, and released otherwise. -/
theorem share_fetch_is_accounted_for
    (splits : Splits codec maxDecompressedSize (records.getD []) batches tail)
    (wf : LogWellFormed batches)
    (small : ∀ b ∈ batches, b.baseOffset + b.lastOffsetDelta < maxOffset) (apart : Apart acquired)
    {p : Processed}
    (processed : process codec maxDecompressedSize topic topicId partition node records acquired =
      p) : p.fetch.records = batches.flatMap (deliveries topic partition acquired) ∧
      (p.fetch.records.map (·.offset)).Pairwise (· < ·) ∧ p.acks.Pairwise Span.Before ∧
      ∀ i k, Labels p.acks i k ↔
        (Acquires acquired i ∧ i ∉ p.fetch.records.map (·.offset)) ∧
          undelivered batches tail i = k := by
  have starts : ∀ b ∈ batches, minOffset ≤ b.baseOffset := fun b listed => (wf.each b listed).least
  have empty : RecordWalk.Reads acquired { ranges := acquiredRanges acquired } minOffset :=
    ⟨suffix_rfl, fun _ listed _ => listed, nofun⟩
  obtain ⟨delivered, covered⟩ := empty.log topic partition apart wf starts
  have laid := laid_coverage topic partition acquired wf small
  have sorted : ((batches.flatMap (coverage topic partition acquired)).insertionSort
      fun a b => a.first ≤ b.first) = batches.flatMap (coverage topic partition acquired) := by
    refine List.Pairwise.insertionSort_eq (laid.ordered.imp_of_mem fun {a b} here there before => ?_)
    have := laid.filled a here
    omega
  have low : ∀ r ∈ acquiredRanges acquired,
      ((acquiredRanges acquired).map (·.firstOffset)).foldl min 0 ≤ r.firstOffset := fun r listed =>
    Lists.foldl_min_le _ _ _ (mem_cons_of_mem _ (mem_map_of_mem listed))
  obtain ⟨final, fills, all⟩ := fillRanges_fills laid
    (fun r listed => ⟨listed, (mem_acquiredRanges.mp listed).2⟩) (acquiredRanges_ordered apart)
    suffix_rfl (fun c there _ => there) low (fun i _ acquires => acquires)
    (Fills.nil fun i k early owed => by
      obtain ⟨r, listed, has⟩ := owed.1.1
      exact absurd (Int.le_trans (low r listed) has.1) (Int.not_le.mpr early))
  rw [process, splits.decodeBatches] at processed
  dsimp only at processed
  rw [delivered, covered, nil_append, nil_append, sorted] at processed
  subst processed
  refine ⟨rfl, offsets_increasing wf, fills.separated, fun i k => ?_⟩
  rw [fills.labels, mem_offsets_iff, Owes, acquires_acquiredRanges, owed_eq_undelivered wf]
  constructor
  · rintro ⟨⟨⟨acquires, clear⟩, kind⟩, -⟩
    exact ⟨⟨acquires, fun ⟨c, there, accept, has⟩ => clear c there accept has⟩, kind⟩
  · rintro ⟨⟨acquires, clear⟩, kind⟩
    exact ⟨⟨⟨acquires, fun c there accept has => clear ⟨c, there, accept, has⟩⟩, kind⟩,
      all i (acquires_acquiredRanges.mpr acquires)⟩

def sampleResponse : Bytes :=
  Consumer.sampleBatch 16 5 7 ++ (Consumer.sampleBatch 32 7 8 ++ [0, 0, 0, 0, 0, 0, 0, 10])

def sampleLog : List RecordBatch :=
  [{ attributes := { isTransactional := true }
     baseOffset := 5, lastOffsetDelta := 1, producerId := 7, producerEpoch := 0, baseSequence := 0
     records := [{ offsetDelta := 0 }, { offsetDelta := 1 }] },
    { attributes := { isControlBatch := true }
      baseOffset := 7, lastOffsetDelta := 1, producerId := 8, producerEpoch := 0, baseSequence := 0
      records := [{ offsetDelta := 0 }, { offsetDelta := 1 }] }]

theorem peek_short {buf : Bytes} (short : buf.length < 12) : RecordBatchHeader.peek buf =
    .error (.protocol .truncatedFrame "not enough bytes for record batch header") :=
  if_pos short

theorem splits_short {buf : Bytes} (some : buf ≠ []) (short : buf.length < 12) :
    Splits codec maxDecompressedSize buf [] buf :=
  .broken some (by rw [RecordBatch.decodeWithLimit, peek_short short])

theorem sampleResponse_splits :
    Splits sampleCodec 1000 sampleResponse sampleLog [0, 0, 0, 0, 0, 0, 0, 10] :=
  .batch (by decide +kernel : _ = Except.ok (_, Consumer.sampleBatch 32 7 8 ++ [0, 0, 0, 0, 0, 0, 0, 10]))
    (.batch (by decide +kernel) (splits_short (by decide) (by decide)))

theorem sampleLog_wellFormed : LogWellFormed sampleLog where
  each := by
    intro batch mem
    simp only [sampleLog, mem_cons, not_mem_nil, or_false] at mem
    rcases mem with rfl | rfl <;> constructor <;> simp
  apart := by simp [sampleLog]

/-- 5 and 6 are delivered, the control record is a gap, and the cut batch is released. -/
theorem sampleResponse_is_accounted_for :
    ((process sampleCodec 1000 "t" 1 0 1 (some sampleResponse) [⟨8, 12, 3⟩, ⟨4, 6, 2⟩]).fetch.records.map
        fun r => (r.offset, r.deliveryCount)) = [(5, some 2), (6, some 2)] ∧
      Labels (process sampleCodec 1000 "t" 1 0 1 (some sampleResponse)
        [⟨8, 12, 3⟩, ⟨4, 6, 2⟩]).acks 8 .gap ∧
      Labels (process sampleCodec 1000 "t" 1 0 1 (some sampleResponse)
        [⟨8, 12, 3⟩, ⟨4, 6, 2⟩]).acks 11 .release := by
  have apart : Apart [⟨8, 12, 3⟩, ⟨4, 6, 2⟩] := by
    simp [Apart, ShareAcquiredRecords.Has]
    omega
  obtain ⟨delivered, -, -, labels⟩ := @share_fetch_is_accounted_for sampleCodec 1000 "t" 1 0 1
    (some sampleResponse) [⟨8, 12, 3⟩, ⟨4, 6, 2⟩] sampleLog _ sampleResponse_splits
    sampleLog_wellFormed (by decide) apart _ rfl
  have owned (i : Int) (low : 8 ≤ i) (high : i ≤ 12) : Acquires [⟨8, 12, 3⟩, ⟨4, 6, 2⟩] i :=
    ⟨⟨8, 12, 3⟩, mem_cons_self, low, high⟩
  rw [labels, labels, delivered]
  exact ⟨by decide, ⟨⟨owned 8 (by decide) (by decide), by decide⟩, by decide⟩,
    ⟨owned 11 (by decide) (by decide), by decide⟩, by decide⟩

/-- Of the batch behind 5 and 6 only three bytes arrived, and 4 is released with it. -/
theorem short_tail_releases_earlier_offset :
    (process sampleCodec 1000 "t" 1 0 1 (some (Consumer.sampleBatch 16 5 7 ++ [0, 0, 0]))
      [⟨4, 12, 2⟩]).acks.map (fun a => (a.first, a.last, a.kind)) =
        [(4, 4, .release), (7, 12, .release)] := by
  have splits : Splits sampleCodec 1000 (Consumer.sampleBatch 16 5 7 ++ [0, 0, 0])
      (sampleLog.take 1) [0, 0, 0] :=
    .batch (by decide +kernel) (splits_short (by decide) (by decide))
  rw [process, Option.getD_some, splits.decodeBatches]
  decide

end Process

end Krafka.ShareConsumer
