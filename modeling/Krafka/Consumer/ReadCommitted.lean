import Krafka.Consumer.BatchWalk

/-! What a `read_committed` consumer is handed: the records of the payload from the fetch offset
on, without those of control batches and aborted transactions, in order and as far as the
budget goes; the position stops where the rest begins. -/

namespace Krafka.Consumer

open List

inductive Decodes (request : DecodeRequest) : Bytes → List RecordBatch → Prop where
  | done {buf} (short : buf.length < 12) : Decodes request buf []
  | batch {buf rest batch batches}
      (decoded : request.decode buf = .ok (batch, rest)) (more : Decodes request rest batches) :
      Decodes request buf (batch :: batches)

theorem Decodes.refetch {request : DecodeRequest} {payload : Bytes} {batches : List RecordBatch}
    (decodes : Decodes request payload batches) (fetchOffset : Offset) :
    Decodes { request with fetchOffset } payload batches := by
  induction decodes with
  | done short => exact .done short
  | batch decoded _ ih => exact .batch decoded ih

/-! What should be delivered -/

def InAborted (aborted : List AbortedTransaction) (before : List RecordBatch) (producerId : Int)
    (baseOffset : Offset) : Prop :=
  ∃ txn ∈ aborted, txn.producerId = producerId ∧ txn.firstOffset ≤ baseOffset ∧
    ∀ marker ∈ before, abortMarker marker → marker.producerId = producerId →
      marker.baseOffset < txn.firstOffset

instance (aborted : List AbortedTransaction) (before : List RecordBatch) (producerId : Int)
    (baseOffset : Offset) : Decidable (InAborted aborted before producerId baseOffset) :=
  inferInstanceAs (Decidable (∃ txn ∈ aborted, _))

def Withheld (aborted : List AbortedTransaction) (before : List RecordBatch)
    (batch : RecordBatch) : Prop :=
  batch.attributes.isControlBatch ∨
    batch.attributes.isTransactional ∧
      InAborted aborted before batch.producerId batch.baseOffset

instance (aborted : List AbortedTransaction) (before : List RecordBatch) (batch : RecordBatch) :
    Decidable (Withheld aborted before batch) := inferInstanceAs (Decidable (_ ∨ _))

def deliverable (request : DecodeRequest) (aborted : List AbortedTransaction) :
    (before : List RecordBatch) → List RecordBatch → List ConsumerRecord
  | _, [] => []
  | before, batch :: batches =>
    (if Withheld aborted before batch then [] else eligible request batch batch.records) ++
      deliverable request aborted (before ++ [batch]) batches

structure BatchWellFormed (batch : RecordBatch) : Prop where
  least : -2 ^ 63 ≤ batch.baseOffset
  most : batch.baseOffset + batch.lastOffsetDelta ≤ 2 ^ 63 - 1
  filled : 0 ≤ batch.lastOffsetDelta
  increasing : batch.records.Pairwise fun a b => a.offsetDelta < b.offsetDelta
  within : ∀ record ∈ batch.records,
    0 ≤ record.offsetDelta ∧ record.offsetDelta ≤ batch.lastOffsetDelta

structure LogWellFormed (batches : List RecordBatch) : Prop where
  each : ∀ batch ∈ batches, BatchWellFormed batch
  apart : batches.Pairwise fun a b => a.baseOffset + a.lastOffsetDelta < b.baseOffset

/-! The abort filter -/

section Filter

variable {baseOffset : Offset} {txns : List AbortedTransaction}

theorem activate_suffix (producers : KeySet Int) :
    (activate baseOffset txns producers).1 <:+ txns := by
  induction txns generalizing producers with
  | nil => exact suffix_rfl
  | cons txn txns ih =>
    rw [activate]
    split_ifs
    · exact (ih _).trans (suffix_cons txn txns)
    · exact suffix_rfl

variable (sorted : txns.Pairwise fun a b => a.firstOffset ≤ b.firstOffset)
include sorted

theorem mem_activate_txns (producers : KeySet Int) (txn : AbortedTransaction) :
    txn ∈ (activate baseOffset txns producers).1 ↔ txn ∈ txns ∧ baseOffset < txn.firstOffset := by
  induction txns generalizing producers with
  | nil => simp [activate]
  | cons head txns ih =>
    obtain ⟨least, sorted⟩ := pairwise_cons.mp sorted
    rw [activate]
    split_ifs with reached
    · rw [ih sorted]
      constructor
      · exact fun ⟨listed, above⟩ => ⟨mem_cons_of_mem head listed, above⟩
      · rintro ⟨listed, above⟩
        rcases mem_cons.mp listed with rfl | listed
        · exact absurd reached (not_le.mpr above)
        · exact ⟨listed, above⟩
    · -- the first not reached is the least
      refine ⟨fun listed => ⟨listed, ?_⟩, fun h => h.1⟩
      rcases mem_cons.mp listed with rfl | listed
      · exact not_le.mp reached
      · exact (not_le.mp reached).trans_le (least txn listed)

theorem mem_activate_producers (producers : KeySet Int) (p : Int) :
    p ∈ (activate baseOffset txns producers).2.keys ↔
      p ∈ producers.keys ∨ ∃ txn ∈ txns, txn.firstOffset ≤ baseOffset ∧ txn.producerId = p := by
  induction txns generalizing producers with
  | nil => simp [activate]
  | cons head txns ih =>
    obtain ⟨least, sorted⟩ := pairwise_cons.mp sorted
    rw [activate]
    split_ifs with reached
    · rw [ih sorted, KeySet.mem_insert, exists_mem_cons_iff, or_assoc, or_left_comm]
      refine or_congr_right (or_congr_left ?_)
      exact ⟨fun same => ⟨reached, same.symm⟩, fun h => h.2.symm⟩
    · refine ⟨.inl, ?_⟩
      rintro (listed | ⟨txn, listed, below, -⟩)
      · exact listed
      · rcases mem_cons.mp listed with rfl | listed
        · exact absurd below reached
        · exact absurd ((least txn listed).trans below) reached

end Filter

structure Watches (aborted : List AbortedTransaction) (before : List RecordBatch)
    (filter : AbortFilter) : Prop where
  sorted : filter.1.Pairwise fun a b => a.firstOffset ≤ b.firstOffset
  pending : ∀ txn, txn ∈ filter.1 ↔ txn ∈ aborted ∧ ∀ b ∈ before, b.baseOffset < txn.firstOffset
  producers : ∀ p, p ∈ filter.2.keys ↔
    ∃ txn ∈ aborted, txn.producerId = p ∧ (∃ b ∈ before, txn.firstOffset ≤ b.baseOffset) ∧
      ∀ marker ∈ before, abortMarker marker → marker.producerId = p →
        marker.baseOffset < txn.firstOffset

namespace Watches

variable {aborted : List AbortedTransaction} {before : List RecordBatch} {filter : AbortFilter}
  {batch : RecordBatch}

theorem start (aborted : List AbortedTransaction) : Watches aborted [] (.start aborted) where
  sorted := by
    have : Std.Total fun a b : AbortedTransaction => a.firstOffset ≤ b.firstOffset :=
      ⟨fun a b => le_total a.firstOffset b.firstOffset⟩
    have : IsTrans AbortedTransaction fun a b => a.firstOffset ≤ b.firstOffset :=
      ⟨fun _ _ _ => le_trans⟩
    exact pairwise_insertionSort _ aborted
  pending := fun txn => by simp [AbortFilter.start]
  producers := fun p => by simp [AbortFilter.start, KeySet.empty]

section At

variable (watches : Watches aborted before filter)
  (later : ∀ b ∈ before, b.baseOffset < batch.baseOffset)
include watches later

theorem mem_activate (p : Int) : p ∈ (activate batch.baseOffset filter.1 filter.2).2.keys ↔
    InAborted aborted before p batch.baseOffset := by
  rw [mem_activate_producers watches.sorted, watches.producers]
  constructor
  · rintro (⟨txn, listed, same, ⟨b, earlier, begun⟩, unended⟩ | ⟨txn, waiting, reached, same⟩)
    · exact ⟨txn, listed, same, begun.trans (later b earlier).le, unended⟩
    · obtain ⟨listed, ahead⟩ := (watches.pending txn).mp waiting
      exact ⟨txn, listed, same, reached, fun marker earlier _ _ => ahead marker earlier⟩
  · rintro ⟨txn, listed, same, reached, unended⟩
    by_cases begun : ∃ b ∈ before, txn.firstOffset ≤ b.baseOffset
    · exact .inl ⟨txn, listed, same, begun, unended⟩
    · have ahead : ∀ b ∈ before, b.baseOffset < txn.firstOffset := fun b earlier =>
        not_le.mp fun le => begun ⟨b, earlier, le⟩
      exact .inr ⟨txn, (watches.pending txn).mpr ⟨listed, ahead⟩, reached, same⟩

theorem mem_behind (p : Int) : p ∈ (filter.behind batch).2.keys ↔
    InAborted aborted before p batch.baseOffset ∧ ¬ (abortMarker batch ∧ batch.producerId = p) := by
  have listed := watches.mem_activate later p
  change p ∈ (ite (abortMarker batch = true) _ _ : KeySet Int).keys ↔ _
  by_cases abort : abortMarker batch = true
  · rw [if_pos abort, KeySet.mem_retain, listed]
    simp [abort, ne_comm]
  · rw [if_neg abort, listed]
    simp [abort]

theorem behind : Watches aborted (before ++ [batch]) (filter.behind batch) where
  sorted := watches.sorted.sublist (activate_suffix filter.2).sublist
  pending := fun txn => by
    change txn ∈ (activate batch.baseOffset filter.1 filter.2).1 ↔ _
    rw [mem_activate_txns watches.sorted, watches.pending, and_assoc]
    refine and_congr_right fun _ => ?_
    simp only [mem_append, mem_singleton, or_imp, forall_and, forall_eq]
  producers := fun p => by
    rw [watches.mem_behind later]
    constructor
    · rintro ⟨⟨txn, listed, same, reached, unended⟩, unmarked⟩
      refine ⟨txn, listed, same, ⟨batch, by simp, reached⟩, fun marker at_ abort of => ?_⟩
      rcases mem_append.mp at_ with earlier | here
      · exact unended marker earlier abort of
      · cases mem_singleton.mp here
        exact absurd ⟨abort, of⟩ unmarked
    · rintro ⟨txn, listed, same, ⟨b, at_, begun⟩, unended⟩
      have reached : txn.firstOffset ≤ batch.baseOffset := by
        rcases mem_append.mp at_ with earlier | here
        · exact begun.trans (later b earlier).le
        · cases mem_singleton.mp here
          exact begun
      refine ⟨⟨txn, listed, same, reached, fun marker earlier =>
        unended marker (mem_append_left _ earlier)⟩, fun ⟨abort, of⟩ => ?_⟩
      exact absurd (unended batch (by simp) abort of) (not_lt.mpr reached)

end At

end Watches

/-! Offsets of the records -/

section Offsets

variable {request : DecodeRequest} {aborted : List AbortedTransaction} {batch : RecordBatch}

theorem BatchWellFormed.batchEnd (wf : BatchWellFormed batch) :
    saturatingAdd batch.baseOffset batch.lastOffsetDelta =
      batch.baseOffset + batch.lastOffsetDelta :=
  saturatingAdd_eq (by have := wf.least; have := wf.filled; omega) wf.most

theorem BatchWellFormed.offset (wf : BatchWellFormed batch) {record : Record}
    (mem : record ∈ batch.records) :
    saturatingAdd batch.baseOffset record.offsetDelta = batch.baseOffset + record.offsetDelta := by
  have range := wf.within record mem
  have least := wf.least
  have most := wf.most
  exact saturatingAdd_eq (by omega) (by omega)

variable {r : ConsumerRecord}

theorem mem_eligible (wf : BatchWellFormed batch) (mem : r ∈ eligible request batch batch.records) :
    request.fetchOffset ≤ r.offset ∧ batch.baseOffset ≤ r.offset ∧
      r.offset ≤ batch.baseOffset + batch.lastOffsetDelta := by
  obtain ⟨mapped, from_⟩ := mem_filter.mp mem
  obtain ⟨record, listed, rfl⟩ := mem_map.mp mapped
  have range := wf.within record listed
  simp only [consumerRecord, ConsumerRecord.fromWire, wf.offset listed] at from_ ⊢
  refine ⟨of_decide_eq_true from_, ?_, ?_⟩
  · exact Int.le_add_of_nonneg_right range.1
  · exact Int.add_le_add_left range.2 _

theorem eligible_pairwise (wf : BatchWellFormed batch) :
    (eligible request batch batch.records).Pairwise fun a b => a.offset < b.offset := by
  refine List.Pairwise.filter _ (pairwise_map.mpr ?_)
  refine wf.increasing.imp_of_mem fun {a b} ha hb less => ?_
  simp only [consumerRecord, ConsumerRecord.fromWire, wf.offset ha, wf.offset hb]
  exact Int.add_lt_add_left less _

variable {before : List RecordBatch}

theorem mem_contribution
    (mem : r ∈ if Withheld aborted before batch then []
      else eligible request batch batch.records) : r ∈ eligible request batch batch.records := by
  split_ifs at mem
  · cases mem
  · exact mem

variable {batches : List RecordBatch}

theorem mem_deliverable
    (wf : ∀ b ∈ batches, BatchWellFormed b) (mem : r ∈ deliverable request aborted before batches) :
    request.fetchOffset ≤ r.offset ∧ ∃ b ∈ batches, b.baseOffset ≤ r.offset := by
  induction batches generalizing before with
  | nil => cases mem
  | cons head batches ih =>
    obtain ⟨here, wf⟩ := forall_mem_cons.mp wf
    rcases mem_append.mp mem with mem | mem
    · have range := mem_eligible here (mem_contribution mem)
      exact ⟨range.1, head, mem_cons_self, range.2.1⟩
    · obtain ⟨from_, b, listed, below⟩ := ih wf mem
      exact ⟨from_, b, mem_cons_of_mem head listed, below⟩

theorem beyond_of_mem_deliverable
    (wf : LogWellFormed (batch :: batches)) (mem : r ∈ deliverable request aborted before batches) :
    batch.baseOffset + batch.lastOffsetDelta < r.offset := by
  obtain ⟨-, each⟩ := forall_mem_cons.mp wf.each
  obtain ⟨apart, -⟩ := pairwise_cons.mp wf.apart
  obtain ⟨-, b, listed, below⟩ := mem_deliverable each mem
  exact (apart b listed).trans_le below

theorem LogWellFormed.tail (wf : LogWellFormed (batch :: batches)) : LogWellFormed batches :=
  ⟨fun b listed => wf.each b (mem_cons_of_mem batch listed),
    (pairwise_cons.mp wf.apart).2⟩

variable (request aborted) in
theorem deliverable_pairwise (wf : LogWellFormed batches) (before : List RecordBatch) :
    (deliverable request aborted before batches).Pairwise fun a b => a.offset < b.offset := by
  induction batches generalizing before with
  | nil => exact .nil
  | cons head batches ih =>
    have here := wf.each head mem_cons_self
    refine pairwise_append.mpr ⟨?_, ih wf.tail _, fun a ha b hb => ?_⟩
    · split_ifs
      · exact .nil
      · exact eligible_pairwise here
    · have range := mem_eligible here (mem_contribution ha)
      exact range.2.2.trans_lt (beyond_of_mem_deliverable wf hb)

theorem deliverable_later {l : Offset} (later : request.fetchOffset ≤ l)
    (before batches : List RecordBatch) :
    deliverable { request with fetchOffset := l + 1 } aborted before batches =
      (deliverable request aborted before batches).filter fun r => l < r.offset := by
  induction batches generalizing before with
  | nil => rfl
  | cons head batches ih =>
    have same : eligible { request with fetchOffset := l + 1 } head head.records =
        (eligible request head head.records).filter fun r => l < r.offset := by
      simp only [eligible, filter_filter]
      refine filter_congr fun r _ => ?_
      have step : l + 1 ≤ r.offset ↔ l < r.offset := Int.add_one_le_iff
      have above : l < r.offset → request.fetchOffset ≤ r.offset := fun less =>
        later.trans less.le
      simp only [decide_eq_decide, step, ← Bool.decide_and]
      exact ⟨fun less => ⟨less, above less⟩, fun h => h.1⟩
    rw [deliverable, deliverable, filter_append, ih, same]
    split_ifs <;> rfl

end Offsets

/-! The payload of a log -/

section Payload

variable {request : DecodeRequest} {aborted : List AbortedTransaction}

variable (request aborted) in
def contents : (before : List RecordBatch) → List RecordBatch → List Part
  | _, [] => []
  | before, batch :: batches =>
    ⟨saturatingAdd batch.baseOffset batch.lastOffsetDelta,
      if Withheld aborted before batch then [] else eligible request batch batch.records⟩ ::
        contents (before ++ [batch]) batches

theorem offers_contents (before batches : List RecordBatch) :
    offers (contents request aborted before batches) =
      deliverable request aborted before batches := by
  induction batches generalizing before with
  | nil => rfl
  | cons batch batches ih =>
    rw [deliverable, ← ih]
    rfl

variable {batches : List RecordBatch}

theorem contents_apart (wf : LogWellFormed batches) (before : List RecordBatch) :
    (contents request aborted before batches).Pairwise fun a b =>
      ∀ r ∈ b.offered, a.batchEnd < r.offset := by
  induction batches generalizing before with
  | nil => exact .nil
  | cons batch batches ih =>
    refine pairwise_cons.mpr ⟨fun part listed r offered => ?_, ih wf.tail _⟩
    have later : r ∈ deliverable request aborted (before ++ [batch]) batches := by
      rw [← offers_contents]
      exact mem_flatMap.mpr ⟨part, listed, offered⟩
    rw [(wf.each batch mem_cons_self).batchEnd]
    exact beyond_of_mem_deliverable wf later

theorem reads_of_decodes {payload : Bytes} {before : List RecordBatch} {filter : AbortFilter}
    (decodes : Decodes request payload batches) (watches : Watches aborted before filter)
    (later : ∀ b ∈ before, ∀ b' ∈ batches, b.baseOffset < b'.baseOffset)
    (wf : LogWellFormed batches) :
    ∃ tail, tail.length < 12 ∧
      Reads request filter payload (contents request aborted before batches) tail := by
  induction decodes generalizing before filter with
  | done short => exact ⟨_, short, .short short⟩
  | @batch buf rest batch batches decoded _ ih =>
    have earlier : ∀ b ∈ before, b.baseOffset < batch.baseOffset := fun b mem =>
      later b mem batch mem_cons_self
    have filled := (wf.each batch mem_cons_self).filled
    have apart := (pairwise_cons.mp wf.apart).1
    obtain ⟨tail, short, reads⟩ := ih (watches.behind earlier) (fun b mem b' mem' => by
      rcases mem_append.mp mem with mem | mem
      · exact later b mem b' (mem_cons_of_mem batch mem')
      · cases mem_singleton.mp mem
        exact (Int.le_add_of_nonneg_right filled).trans_lt (apart b' mem')) wf.tail
    refine ⟨tail, short, ?_⟩
    rw [contents]
    cases withheld : filter.withheld buf with
    | some header =>
      obtain ⟨header', parsed', whole, made, rfl⟩ := RecordBatch.decodeWithLimit_eq_ok decoded
      obtain ⟨parsed, data, listed⟩ := of_withheld withheld
      cases parsed.symm.trans parsed'
      simp only [Bool.and_eq_true, Bool.not_eq_true'] at data
      have transactional : batch.attributes.isTransactional := by rw [made]; exact data.1.1
      have ordinary : batch.attributes.isControlBatch = false := by rw [made]; exact data.1.2
      have base : batch.baseOffset = header.baseOffset := by rw [made]; rfl
      have producer : batch.producerId = header.producerId := by rw [made]; rfl
      have last : saturatingAdd batch.baseOffset batch.lastOffsetDelta = header.lastOffset := by
        rw [made]; rfl
      have held : Withheld aborted before batch := .inr ⟨transactional,
        (watches.mem_activate earlier _).mp (by rwa [base, producer])⟩
      have same : filter.behind batch = activate header.baseOffset filter.1 filter.2 := by
        simp [AbortFilter.behind, abortMarker, ordinary, base]
      rw [if_pos held, last]
      exact .aborted withheld (same ▸ reads)
    | none =>
      have kept := not_aborted_of_kept withheld decoded
      have own : Withheld aborted before batch ↔ batch.attributes.isControlBatch := by
        refine ⟨fun held => ?_, .inl⟩
        by_contra data
        obtain ⟨transactional, inside⟩ := held.resolve_left data
        exact kept ⟨transactional, data, (watches.mem_activate earlier _).mpr inside⟩
      simp only [own]
      exact .batch withheld decoded reads

/-- Of an ordered payload the position divides what was pushed from what was not. -/
theorem Ends.divides {w final : BatchWalk} {parts : List Part} {tail : Bytes}
    (ends : Ends request w parts tail final) (fresh : w.outcome.lastOffset = none)
    (increasing : (offers parts).Pairwise fun a b => a.offset < b.offset)
    (apart : parts.Pairwise fun a b => ∀ r ∈ b.offered, a.batchEnd < r.offset) {l : Offset}
    (at_ : final.outcome.lastOffset = some l) :
    (∀ r ∈ takeBudget w.recordBudget (offers parts), r.offset ≤ l) ∧
      ∀ r ∈ dropBudget w.recordBudget (offers parts), l < r.offset := by
  have whole := takeBudget_append_dropBudget w.recordBudget (offers parts)
  rw [← whole] at increasing
  obtain ⟨ordered, -, across⟩ := pairwise_append.mp increasing
  constructor
  · intro r taken
    rcases eq_nil_or_concat (takeBudget w.recordBudget (offers parts)) with none | ⟨init, s, last⟩
    · rw [none] at taken
      cases taken
    · rw [last, concat_eq_append] at taken ordered
      have top : r.offset ≤ s.offset := by
        rcases mem_append.mp taken with before | here
        · exact ((pairwise_append.mp ordered).2.2 r before s (mem_singleton_self s)).le
        · rw [mem_singleton.mp here]
      obtain ⟨l', at', le⟩ := (ends.covers r.offset).mpr
        (.inl ⟨s.offset, by simp [standing, last], top⟩)
      cases at_.symm.trans at'
      exact le
  · intro r left
    by_contra reached
    rcases (ends.covers r.offset).mp ⟨l, at_, not_lt.mp reached⟩ with
      ⟨x, last, le⟩ | ⟨part, ⟨before, after, rfl, read, -⟩, -, le⟩
    · rw [standing, fresh, Option.or_none] at last
      obtain ⟨s, here, rfl⟩ := Option.map_eq_some_iff.mp last
      exact absurd (across s (mem_of_getLast? here) r left) (not_lt.mpr le)
    · have behind : dropBudget w.recordBudget (offers (before ++ part :: after)) = offers after := by
        refine append_cancel_left (whole.trans ?_)
        rw [← read]
        simp [offers]
      rw [behind] at left
      obtain ⟨p, there, mine⟩ := mem_flatMap.mp left
      have less := (pairwise_cons.mp (pairwise_append.mp apart).2.1).1 p there r mine
      exact absurd less (not_lt.mpr le)

end Payload

theorem reads_of_log {request : DecodeRequest} {payload : Bytes} {batches : List RecordBatch}
    (decodes : Decodes request payload batches) (wf : LogWellFormed batches)
    (aborted : List AbortedTransaction) : ∃ tail, tail.length < 12 ∧
      Reads request (.start aborted) payload (contents request aborted [] batches) tail :=
  reads_of_decodes decodes (.start aborted) (fun _ mem => nomatch mem) wf

/-- What is delivered is the list of committed records from the fetch offset on, as far as the
budget goes, in offset order. The last offset divides what was delivered from the rest, and
another call from behind it delivers the rest. -/
theorem read_committed_delivery {request : DecodeRequest} {payload : Bytes}
    {batches : List RecordBatch} (decodes : Decodes request payload batches)
    (wf : LogWellFormed batches) (aborted : List AbortedTransaction) (budget : Option Nat)
    (records : List ConsumerRecord) :
    let listed := deliverable request aborted [] batches
    let run := decodePartitionBatches request payload aborted budget records
    listed.Pairwise (fun a b => a.offset < b.offset) ∧
      run.records = records ++ takeBudget budget listed ∧
      run.outcome.error = none ∧
      (run.outcome.lastOffset = none → takeBudget budget listed = []) ∧
      ∀ l, run.outcome.lastOffset = some l →
        (∀ r ∈ takeBudget budget listed, r.offset ≤ l) ∧
        (∀ r ∈ dropBudget budget listed, l < r.offset) ∧
        ∀ budget' records',
          (decodePartitionBatches { request with fetchOffset := l + 1 } payload aborted budget'
            records').records = records' ++ takeBudget budget' (dropBudget budget listed) := by
  obtain ⟨tail, short, reads⟩ := reads_of_log decodes wf aborted
  have ends := decodePartitionBatches_ends reads budget records
  have listed : offers (contents request aborted [] batches) = deliverable request aborted [] batches :=
    offers_contents [] batches
  have increasing := deliverable_pairwise request aborted wf []
  refine ⟨increasing, listed ▸ ends.records, ends.clean short, fun none => listed ▸ ends.unpushed none,
    fun l at_ => ?_⟩
  have from_ := ends.forward rfl (reads.eligible budget) at_
  obtain ⟨below, above⟩ := ends.divides rfl (listed ▸ increasing) (contents_apart wf []) at_
  rw [listed] at below above
  refine ⟨below, above, fun budget' records' => ?_⟩
  obtain ⟨tail', -, again⟩ := reads_of_log (decodes.refetch (l + 1)) wf aborted
  rw [(decodePartitionBatches_ends again budget' records').records, offers_contents,
    deliverable_later from_]
  -- what lies beyond the last offset is what was not taken
  have whole := takeBudget_append_dropBudget budget (deliverable request aborted [] batches)
  have rest : (deliverable request aborted [] batches).filter (fun r => l < r.offset) =
      dropBudget budget (deliverable request aborted [] batches) := by
    nth_rewrite 1 [← whole]
    rw [filter_append, filter_eq_nil_iff.mpr, filter_eq_self.mpr, nil_append]
    · simpa using above
    · simpa using below
  rw [rest]

def sampleCodec : Codec where
  crc32c := fun _ => 0
  records := fun _ _ _ count => .ok ((List.range count).map fun i => { offsetDelta := i })

def sampleBatch (attributes baseOffset producerId : UInt8) : Bytes :=
  [0, 0, 0, 0, 0, 0, 0, baseOffset] ++ [0, 0, 0, 49] ++ [0, 0, 0, 0] ++ [2] ++ [0, 0, 0, 0] ++
    [0, attributes] ++ [0, 0, 0, 1] ++ List.replicate 16 0 ++
    [0, 0, 0, 0, 0, 0, 0, producerId] ++ [0, 0] ++ [0, 0, 0, 0] ++ [0, 0, 0, 2]

def sampleRequest : DecodeRequest := { codec := sampleCodec, fetchOffset := 5 }

def samplePayload : Bytes := sampleBatch 16 5 7 ++ sampleBatch 0 7 8

def sampleBatches : List RecordBatch :=
  [{ baseOffset := 5, attributes := { isTransactional := true }, lastOffsetDelta := 1
     producerId := 7, producerEpoch := 0, baseSequence := 0
     records := [{ offsetDelta := 0 }, { offsetDelta := 1 }] },
    { baseOffset := 7, lastOffsetDelta := 1, producerId := 8, producerEpoch := 0, baseSequence := 0
      records := [{ offsetDelta := 0 }, { offsetDelta := 1 }] }]

theorem samplePayload_decodes :
    Decodes sampleRequest samplePayload sampleBatches := by
  refine .batch (?_ : _ = Except.ok (_, sampleBatch 0 7 8)) (.batch (?_ : _ = Except.ok (_, [])) (.done ?_))
  · decide +kernel
  · decide +kernel
  · decide

theorem sampleBatches_wellFormed : LogWellFormed sampleBatches where
  each := by
    intro batch mem
    simp only [sampleBatches, mem_cons, not_mem_nil, or_false] at mem
    rcases mem with rfl | rfl <;> constructor <;> simp
  apart := by simp [sampleBatches]

/-- The producer's transaction was aborted; of the other batch one record fits. -/
theorem samplePayload_delivery :
    let request : DecodeRequest := { codec := sampleCodec, fetchOffset := 5 }
    (deliverable request [⟨7, 5⟩] [] sampleBatches).map (·.offset) = [7, 8] ∧
      (decodePartitionBatches request samplePayload [⟨7, 5⟩] (some 1) []).records =
        takeBudget (some 1) (deliverable request [⟨7, 5⟩] [] sampleBatches) :=
  ⟨by decide, (read_committed_delivery samplePayload_decodes sampleBatches_wellFormed [⟨7, 5⟩]
    (some 1) []).2.1⟩

end Krafka.Consumer
