import Krafka.Consumer.ReadCommitted

/-! When the position a call returns is behind the records it pushes, and when it stands still. -/

namespace Krafka.Consumer

section Results

variable (request : DecodeRequest) (payload : Bytes) (aborted : List AbortedTransaction)
  (budget : Option Nat) (records : List ConsumerRecord)

/-- A call pushes what the payload has for it, as far as the budget goes, and nothing below the fetch
offset. The position it returns is behind all of that just if each record pushed is at or below the
last one, or the end of a batch that is read to its end and behind which nothing is pushed. -/
theorem position_covers_pushed_records :
    (∃ parts tail, Reads request (.start aborted) payload parts tail) ∧
    ∀ parts tail, Reads request (.start aborted) payload parts tail →
      let run := decodePartitionBatches request payload aborted budget records
      let pushed := takeBudget budget (offers parts)
      run.records = records ++ pushed ∧ (∀ r ∈ pushed, request.fetchOffset ≤ r.offset) ∧
      ((∀ r ∈ pushed, ∃ l, run.outcome.lastOffset = some l ∧ r.offset ≤ l) ↔
        ∀ r ∈ pushed, (∃ last, pushed.getLast? = some last ∧ r.offset ≤ last.offset) ∨
          ∃ part, ReadLast budget parts part ∧ r.offset ≤ part.batchEnd) := by
  refine ⟨exists_reads .., fun parts tail reads => ?_⟩
  have ends := decodePartitionBatches_ends reads budget records
  have eligible := reads.eligible budget
  refine ⟨ends.records, eligible, forall₂_congr fun r pushed => (ends.covers r.offset).trans ?_⟩
  have above := eligible r pushed
  refine or_congr (by simp [Passes, standing]) (exists_congr fun part => and_congr_right fun _ => ?_)
  exact and_iff_right_of_imp above.trans

/-- Three records fit, and the position stands at the last of them. -/
theorem samplePayload_position :
    (decodePartitionBatches sampleRequest samplePayload [] (some 3) []).records.map (·.offset) =
        [5, 6, 7] ∧
      ∀ r ∈ (decodePartitionBatches sampleRequest samplePayload [] (some 3) []).records,
        ∃ l, (decodePartitionBatches sampleRequest samplePayload [] (some 3) []).outcome.lastOffset =
          some l ∧ r.offset ≤ l := by
  have reads : Reads sampleRequest (.start []) samplePayload
      (sampleBatches.map (.ofBatch sampleRequest)) [] :=
    .batch (by decide +kernel) (by decide +kernel : _ = Except.ok (_, sampleBatch 0 7 8))
      (.batch (by decide +kernel) (by decide +kernel : _ = Except.ok (_, [])) (.short (by decide)))
  obtain ⟨pushed, -, covers⟩ :=
    (position_covers_pushed_records sampleRequest samplePayload [] (some 3) []).2 _ _ reads
  have offered : (takeBudget (some 3) (offers (sampleBatches.map (.ofBatch
      sampleRequest)))).map (·.offset) = [5, 6, 7] := by decide
  rw [pushed, List.nil_append]
  refine ⟨offered, covers.mpr fun r listed => .inl ⟨_, rfl, ?_⟩⟩
  have below : ∀ offset ∈ [5, 6, 7], offset ≤ (7 : Int) := by decide
  exact below _ (offered ▸ List.mem_map_of_mem listed)

def sampleSwapped : List Part :=
  [{ baseOffset := 7, lastOffsetDelta := 1, producerId := 8, producerEpoch := 0, baseSequence := 0
     records := [{ offsetDelta := 0 }, { offsetDelta := 1 }] },
    { baseOffset := 5, lastOffsetDelta := 1, producerId := 9, producerEpoch := 0, baseSequence := 0
      records := [{ offsetDelta := 0 }, { offsetDelta := 1 }] }].map
    (.ofBatch sampleRequest)

theorem sampleSwapped_reads :
    Reads sampleRequest (.start []) (sampleBatch 0 7 8 ++ sampleBatch 0 5 9) sampleSwapped [] :=
  .batch (by decide +kernel) (by decide +kernel : _ = Except.ok (_, sampleBatch 0 5 9))
    (.batch (by decide +kernel) (by decide +kernel : _ = Except.ok (_, [])) (.short (by decide)))

/-- Offsets 7 and 8 are pushed before 5 and 6, and the position returned is 6. -/
theorem position_falls_behind :
    ((decodePartitionBatches sampleRequest (sampleBatch 0 7 8 ++ sampleBatch 0 5 9) [] none
      []).records.map (·.offset) = [7, 8, 5, 6]) ∧
    (decodePartitionBatches sampleRequest (sampleBatch 0 7 8 ++ sampleBatch 0 5 9) [] none
      []).outcome.lastOffset = some 6 := by
  have ends := decodePartitionBatches_ends sampleSwapped_reads none []
  refine ⟨by rw [ends.records]; decide, ?_⟩
  obtain ⟨l, at_, low⟩ := (ends.covers 6).mpr (.inl ⟨6, by decide, le_rfl⟩)
  have high : l ≤ 6 := by
    rcases (ends.covers l).mp ⟨l, at_, le_rfl⟩ with
      ⟨x, last, le⟩ | ⟨part, ⟨before, after, split, whole, -⟩, -, le⟩
    · cases last
      exact le
    · -- nothing is pushed behind the second batch only, which ends at 6
      rcases before with _ | ⟨p, _ | ⟨q, before⟩⟩
      · obtain ⟨rfl, -⟩ := List.cons.inj split
        exact absurd (congrArg List.length whole) (by decide)
      · obtain ⟨rfl, -⟩ := List.cons.inj (List.cons.inj split).2
        exact le
      · exact absurd (List.cons.inj (List.cons.inj split).2).2 (by simp)
  rw [at_, le_antisymm high low]

/-- The position moves, or there is an error, or all bytes are batches below the fetch offset, unless
batches below the fetch offset are followed by one to eleven bytes. The budget goes down by what is
pushed. -/
theorem stall_is_never_silent (positive : budget ≠ some 0) :
    (∃ parts tail, Reads request (.start aborted) payload parts tail) ∧
    ∀ parts tail, Reads request (.start aborted) payload parts tail →
      let run := decodePartitionBatches request payload aborted budget records
      ((((∃ l, run.outcome.lastOffset = some l ∧ request.fetchOffset ≤ l) ∨
          (∃ error, run.outcome.error = some error) ∨
          (∀ part ∈ parts, part.Below request.fetchOffset) ∧ tail = []) ↔
        ((∀ part ∈ parts, part.Below request.fetchOffset) → tail = [] ∨ 12 ≤ tail.length)) ∧
      ∃ pushed, run.records = records ++ pushed ∧
        run.recordBudget = budget.map (· - pushed.length) ∧
        ∀ n, budget = some n → pushed.length ≤ n) := by
  refine ⟨exists_reads .., fun parts tail reads => ?_⟩
  have ends := decodePartitionBatches_ends reads budget records
  refine ⟨?_, takeBudget budget (offers parts), ends.records, ends.budget, fun n given => ?_⟩
  · have idle := ends.lastOffset_eq_none_iff rfl positive
    have empty (below : ∀ part ∈ parts, part.Below request.fetchOffset) : offers parts = [] :=
      List.flatMap_eq_nil_iff.mpr fun p here => (below p here).2
    constructor
    · rintro (⟨l, at_, -⟩ | ⟨error, failed⟩ | ⟨-, whole⟩) below
      · cases (idle.mpr below).symm.trans at_
      · refine .inr (Nat.not_lt.mp fun short => ?_)
        cases (ends.clean short).symm.trans failed
      · exact .inl whole
    · intro otherwise
      by_cases below : ∀ part ∈ parts, part.Below request.fetchOffset
      · rcases otherwise below with whole | long
        · exact .inr (.inr ⟨below, whole⟩)
        · exact .inr (.inl (Option.ne_none_iff_exists'.mp
            (ends.stuck long positive (empty below) (idle.mpr below))))
      · obtain ⟨l, at_⟩ := Option.ne_none_iff_exists'.mp fun none => below (idle.mp none)
        exact .inl ⟨l, at_, ends.forward rfl (reads.eligible budget) at_⟩
  · rw [given, takeBudget]
    exact List.length_take_le ..

end Results

def sampleHead : Bytes := [0, 0, 0, 0, 0, 0, 0, 5, 0, 0, 0, 49]

/-- The head of a batch whose other bytes did not arrive is an error. -/
theorem cut_batch_is_an_error :
    (∃ l, (decodePartitionBatches sampleRequest sampleHead [] (some 3) []).outcome.lastOffset =
        some l ∧ 5 ≤ l) ∨
      (∃ error, (decodePartitionBatches sampleRequest sampleHead [] (some 3) []).outcome.error =
        some error) ∨
      (∀ part ∈ ([] : List Part), part.Below 5) ∧ sampleHead = [] := by
  have cut : sampleRequest.decode sampleHead =
      .error (.protocol .truncatedFrame "not enough bytes for record batch header") := by
    decide +kernel
  have reads : Reads sampleRequest (.start []) sampleHead [] sampleHead :=
    .broken (by decide) (by decide +kernel) cut
  exact ((stall_is_never_silent _ _ [] (some 3) [] (by decide)).2 _ _ reads).1.mpr
    fun _ => .inr (by decide)

/-- One byte: neither a position nor an error, and no batch. -/
theorem short_payload_stalls :
    (decodePartitionBatches sampleRequest [0] [] none []).outcome = {} ∧
    ∀ parts tail, Reads sampleRequest (.start []) [0] parts tail →
      parts = [] ∧ tail = [0] := by
  refine ⟨?_, fun parts tail reads => ?_⟩
  · rw [decodePartitionBatches, BatchWalk.walk, if_pos (by decide)]
  · cases reads with
    | short => exact ⟨rfl, rfl⟩
    | broken long => exact absurd long (by decide)
    | aborted withheld => cases withheld
    | batch _ decoded => cases decoded

end Krafka.Consumer
