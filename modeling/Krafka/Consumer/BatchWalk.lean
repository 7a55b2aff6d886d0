import Krafka.Consumer.Decode

/-! The batch walk on any bytes: what a payload has for a call, batch for batch, how much of it is
pushed, and where the position stands then. -/

namespace Krafka.Consumer

open List PartitionDecodeOutcome

/-! What a payload has for a call -/

def abortMarker (batch : RecordBatch) : Bool :=
  batch.attributes.isControlBatch && controlBatchIsAbort batch

def eligible (request : DecodeRequest) (batch : RecordBatch) (records : List Record) :
    List ConsumerRecord :=
  (records.map (consumerRecord request batch)).filter fun r => request.fetchOffset ≤ r.offset

def takeBudget (budget : Option Nat) (l : List ConsumerRecord) : List ConsumerRecord :=
  match budget with
  | none => l
  | some n => l.take n

def dropBudget (budget : Option Nat) (l : List ConsumerRecord) : List ConsumerRecord :=
  match budget with
  | none => []
  | some n => l.drop n

@[simp] theorem takeBudget_nil (budget : Option Nat) : takeBudget budget [] = [] := by
  cases budget <;> simp [takeBudget]

@[simp] theorem dropBudget_nil (budget : Option Nat) : dropBudget budget [] = [] := by
  cases budget <;> simp [dropBudget]

theorem takeBudget_append_dropBudget (budget : Option Nat) (l : List ConsumerRecord) :
    takeBudget budget l ++ dropBudget budget l = l := by
  cases budget with
  | none => exact append_nil l
  | some n => exact take_append_drop n l

section Budget

variable {budget : Option Nat} {first rest : List ConsumerRecord}

theorem takeBudget_of_fits (fits : budget.any (· < first.length) = false) :
    takeBudget budget first = first := by
  cases budget with
  | none => rfl
  | some => exact take_of_length_le (by simpa using fits)

theorem takeBudget_append (fits : budget.any (· < first.length) = false) :
    takeBudget budget (first ++ rest) =
      first ++ takeBudget (budget.map (· - first.length)) rest := by
  cases budget with
  | none => rfl
  | some n =>
    have fits : first.length ≤ n := by simpa using fits
    exact (take_append ..).trans (by rw [take_of_length_le fits]; rfl)

end Budget

/-- The aborted transactions not reached yet, and the producers that are inside one. -/
abbrev AbortFilter := List AbortedTransaction × KeySet Int

namespace AbortFilter

def start (aborted : List AbortedTransaction) : AbortFilter :=
  (aborted.insertionSort fun a b => a.firstOffset ≤ b.firstOffset, .empty)

/-- The header of the first batch, if that is a data batch of an aborted transaction. -/
def withheld (filter : AbortFilter) (buf : Bytes) : Option RecordBatchHeader :=
  match RecordBatchHeader.peek buf with
  | .error _ => none
  | .ok header =>
    if header.attributes.isTransactional && !header.attributes.isControlBatch &&
        header.totalSize ≤ buf.length &&
        header.producerId ∈ (activate header.baseOffset filter.1 filter.2).2.keys then some header
    else none

def behind (filter : AbortFilter) (batch : RecordBatch) : AbortFilter :=
  let (txns, producers) := activate batch.baseOffset filter.1 filter.2
  (txns, if abortMarker batch then producers.retain (· ≠ batch.producerId) else producers)

end AbortFilter

/-- A batch of the payload: where it ends, and its records for the call. -/
structure Part where
  batchEnd : Offset
  offered : List ConsumerRecord

namespace Part

def ofBatch (request : DecodeRequest) (batch : RecordBatch) : Part :=
  ⟨saturatingAdd batch.baseOffset batch.lastOffsetDelta,
    if batch.attributes.isControlBatch then [] else eligible request batch batch.records⟩

def Below (fetchOffset : Offset) (part : Part) : Prop :=
  part.batchEnd < fetchOffset ∧ part.offered = []

end Part

/-- How a payload reads: its batches, and the bytes behind them, in which there is no further one. -/
inductive Reads (request : DecodeRequest) : AbortFilter → Bytes → List Part → (tail : Bytes) → Prop where
  | short {filter tail} (short : tail.length < 12) : Reads request filter tail [] tail
  | broken {filter tail error} (long : 12 ≤ tail.length) (kept : filter.withheld tail = none)
      (failed : request.decode tail = .error error) : Reads request filter tail [] tail
  | aborted {filter buf header parts tail} (withheld : filter.withheld buf = some header)
      (more : Reads request (activate header.baseOffset filter.1 filter.2)
        (buf.drop header.totalSize) parts tail) :
      Reads request filter buf (⟨header.lastOffset, []⟩ :: parts) tail
  | batch {filter buf batch rest parts tail} (kept : filter.withheld buf = none)
      (decoded : request.decode buf = .ok (batch, rest))
      (more : Reads request (filter.behind batch) rest parts tail) :
      Reads request filter buf (.ofBatch request batch :: parts) tail

def offers (parts : List Part) : List ConsumerRecord := parts.flatMap (·.offered)

/-- The budget lets the part be read to its end, and nothing behind it is pushed. -/
def ReadLast (budget : Option Nat) (parts : List Part) (part : Part) : Prop :=
  ∃ before after, parts = before ++ part :: after ∧
    offers (before ++ [part]) = takeBudget budget (offers parts) ∧
    ∀ n ∈ budget, (offers before).length < n

section Payload

variable {request : DecodeRequest} {filter : AbortFilter} {buf : Bytes}

theorem of_withheld {header : RecordBatchHeader} (withheld : filter.withheld buf = some header) :
    RecordBatchHeader.peek buf = .ok header ∧
      (header.attributes.isTransactional && !header.attributes.isControlBatch &&
        decide (header.totalSize ≤ buf.length)) = true ∧
      header.producerId ∈ (activate header.baseOffset filter.1 filter.2).2.keys := by
  unfold AbortFilter.withheld at withheld
  split at withheld
  · cases withheld
  · rename_i parsed
    split at withheld
    · rename_i inside
      cases withheld
      obtain ⟨data, listed⟩ := (Bool.and_eq_true_iff ..).mp inside
      exact ⟨parsed, data, of_decide_eq_true listed⟩
    · cases withheld

theorem exists_reads (request : DecodeRequest) (filter : AbortFilter) (buf : Bytes) :
    ∃ parts tail, Reads request filter buf parts tail := by
  induction size : buf.length using Nat.strong_induction_on generalizing filter buf with
  | _ n ih =>
    by_cases short : buf.length < 12
    · exact ⟨[], buf, .short short⟩
    cases withheld : filter.withheld buf with
    | some header =>
      have large := RecordBatchHeader.size_le_totalSize (of_withheld withheld).1
      simp only [RecordBatchHeader.size] at large
      have shorter : (buf.drop header.totalSize).length < n := by
        rw [length_drop]
        omega
      obtain ⟨parts, tail, more⟩ := ih _ shorter (activate header.baseOffset filter.1 filter.2) _ rfl
      exact ⟨_, tail, .aborted withheld more⟩
    | none =>
      cases decoded : request.decode buf with
      | error error => exact ⟨[], buf, .broken (Nat.not_lt.mp short) withheld decoded⟩
      | ok read =>
        have shorter := size ▸ RecordBatch.length_decodeWithLimit_lt decoded
        obtain ⟨parts, tail, more⟩ := ih _ shorter (filter.behind read.1) read.2 rfl
        exact ⟨_, tail, .batch withheld decoded more⟩

theorem not_aborted_of_kept {batch : RecordBatch} {rest : Bytes} (kept : filter.withheld buf = none)
    (decoded : request.decode buf = .ok (batch, rest)) :
    ¬ (batch.attributes.isTransactional ∧ ¬ batch.attributes.isControlBatch ∧
      batch.producerId ∈ (activate batch.baseOffset filter.1 filter.2).2.keys) := by
  obtain ⟨header, parsed, whole, made, -⟩ := RecordBatch.decodeWithLimit_eq_ok decoded
  rintro ⟨transactional, data, listed⟩
  rw [made] at transactional data listed
  unfold AbortFilter.withheld at kept
  simp only [parsed] at kept
  rw [if_pos] at kept
  · cases kept
  · simp only [Bool.and_eq_true, Bool.not_eq_true', decide_eq_true_eq]
    exact ⟨⟨⟨transactional, Bool.eq_false_iff.mpr data⟩, whole⟩, listed⟩

theorem Reads.eligible {parts : List Part} {tail : Bytes}
    (reads : Reads request filter buf parts tail) (budget : Option Nat) :
    ∀ r ∈ takeBudget budget (offers parts), request.fetchOffset ≤ r.offset := by
  have all : ∀ r ∈ offers parts, request.fetchOffset ≤ r.offset := by
    induction reads with
    | short => exact nofun
    | broken => exact nofun
    | aborted _ _ ih => exact ih
    | batch _ _ _ ih =>
      intro r listed
      rcases mem_append.mp listed with here | later
      · unfold Part.ofBatch at here
        split at here
        · cases here
        · exact of_decide_eq_true (mem_filter.mp here).2
      · exact ih r later
  intro r taken
  refine all r ?_
  rw [← takeBudget_append_dropBudget budget (offers parts)]
  exact mem_append_left _ taken

end Payload

/-! Pushing records -/

namespace PartitionDecodeOutcome

def pushed (outcome : PartitionDecodeOutcome) (epoch : Int) (l : List ConsumerRecord) :
    PartitionDecodeOutcome :=
  match l.getLast? with
  | none => outcome
  | some r => { outcome with lastOffset := some r.offset, lastEpoch := epoch }

theorem pushed_cons (outcome : PartitionDecodeOutcome) (epoch : Int) (r : ConsumerRecord)
    (l : List ConsumerRecord) :
    outcome.pushed epoch (r :: l) =
      { outcome with lastOffset := some r.offset, lastEpoch := epoch }.pushed epoch l := by
  cases l with
  | nil => rfl
  | cons r' l =>
    simp only [pushed, List.getLast?_cons_cons, List.getLast?_eq_some_getLast (cons_ne_nil r' l)]

theorem error_pushed (outcome : PartitionDecodeOutcome) (epoch : Int) (l : List ConsumerRecord) :
    (outcome.pushed epoch l).error = outcome.error := by
  unfold pushed
  split <;> rfl

theorem error_advanceThroughBatch (outcome : PartitionDecodeOutcome) (fetchOffset batchEnd : Offset)
    (epoch : Int) :
    (outcome.advanceThroughBatch fetchOffset batchEnd epoch).error = outcome.error := by
  unfold advanceThroughBatch
  split_ifs <;> rfl

end PartitionDecodeOutcome

section Push

variable {request : DecodeRequest} {batch : RecordBatch}

theorem pushRecords_eq (allowed : Option Nat) (records : List Record) (used : Nat)
    (outcome : PartitionDecodeOutcome) (out : List ConsumerRecord)
    (within : ∀ n ∈ allowed, used ≤ n) :
    pushRecords request batch allowed records used outcome out =
      ((allowed.map (· - used)).any (· < (eligible request batch records).length),
        used + (takeBudget (allowed.map (· - used)) (eligible request batch records)).length,
        outcome.pushed batch.partitionLeaderEpoch
          (takeBudget (allowed.map (· - used)) (eligible request batch records)),
        out ++ takeBudget (allowed.map (· - used)) (eligible request batch records)) := by
  induction records generalizing used outcome out with
  | nil =>
    cases allowed <;> simp [pushRecords, eligible, takeBudget, PartitionDecodeOutcome.pushed]
  | cons record records ih =>
    rw [pushRecords]
    by_cases below : (consumerRecord request batch record).offset < request.fetchOffset
    · have same : eligible request batch (record :: records) = eligible request batch records := by
        simp [eligible, not_le.mpr below]
      rw [if_pos below, same]
      exact ih used outcome out within
    · have more : eligible request batch (record :: records) =
          consumerRecord request batch record :: eligible request batch records := by
        simp [eligible, not_lt.mp below]
      rw [if_neg below, more]
      split_ifs with spent
      · simp [spent, takeBudget, PartitionDecodeOutcome.pushed]
      · cases allowed with
        | none =>
          rw [ih _ _ _ (by rintro _ ⟨⟩)]
          simp [takeBudget, PartitionDecodeOutcome.pushed_cons]
          omega
        | some n =>
          have room : used + 1 ≤ n := by
            have fits := within n rfl
            have free : n ≠ used := fun same => spent (congrArg some same)
            omega
          obtain ⟨k, rfl⟩ : ∃ k, n = used + 1 + k := ⟨n - (used + 1), by omega⟩
          rw [ih _ _ _ (by rintro _ ⟨⟩; exact room)]
          have left : used + 1 + k - used = k + 1 := by omega
          simp [takeBudget, PartitionDecodeOutcome.pushed_cons, left]
          omega

end Push

/-! Positions -/

def Passes (last : Option Offset) (x : Offset) : Prop := ∃ l, last = some l ∧ x ≤ l

/-- The position after the records, if `last` was it before. -/
def standing (pushed : List ConsumerRecord) (last : Option Offset) : Option Offset :=
  (pushed.getLast?.map (·.offset)).or last

theorem lastOffset_pushed_eq (outcome : PartitionDecodeOutcome) (epoch : Int)
    (l : List ConsumerRecord) :
    (outcome.pushed epoch l).lastOffset = standing l outcome.lastOffset := by
  unfold pushed standing
  split <;> simp [*]

theorem standing_append {more : List ConsumerRecord} (some : more ≠ [])
    (pushed : List ConsumerRecord) (last last' : Option Offset) :
    standing (pushed ++ more) last = standing more last' := by
  rw [standing, standing, List.getLast?_append, List.getLast?_eq_some_getLast some]
  rfl

theorem covers_advanceThroughBatch (outcome : PartitionDecodeOutcome) (fetchOffset batchEnd : Offset)
    (epoch : Int) (x : Offset) :
    Passes (outcome.advanceThroughBatch fetchOffset batchEnd epoch).lastOffset x ↔
      Passes outcome.lastOffset x ∨ fetchOffset ≤ batchEnd ∧ x ≤ batchEnd := by
  unfold advanceThroughBatch
  split_ifs with below beyond
  · exact ⟨.inl, fun covers => covers.resolve_right fun up => absurd below (not_lt.mpr up.1)⟩
  · constructor
    · rintro ⟨l, at_, up⟩
      cases at_
      exact .inr ⟨not_lt.mp below, up⟩
    · rintro (⟨l, at_, up⟩ | ⟨-, up⟩)
      · rw [at_, Option.all_some, decide_eq_true_eq] at beyond
        exact ⟨batchEnd, rfl, up.trans beyond.le⟩
      · exact ⟨batchEnd, rfl, up⟩
  · refine ⟨.inl, fun covers => covers.elim id fun ⟨_, up⟩ => ?_⟩
    cases at_ : outcome.lastOffset with
    | none => simp [at_] at beyond
    | some l => exact ⟨l, rfl, up.trans (by simpa [at_] using beyond)⟩

/-! One batch -/

theorem activate_activate (baseOffset : Offset) (txns : List AbortedTransaction)
    (producers : KeySet Int) :
    activate baseOffset (activate baseOffset txns producers).1 (activate baseOffset txns producers).2 =
      activate baseOffset txns producers := by
  induction txns generalizing producers with
  | nil => rfl
  | cons txn txns ih =>
    by_cases reached : txn.firstOffset ≤ baseOffset
    · have same : activate baseOffset (txn :: txns) producers =
          activate baseOffset txns (producers.insert txn.producerId) := if_pos reached
      rw [same]
      exact ih _
    · have same : activate baseOffset (txn :: txns) producers = (txn :: txns, producers) :=
        if_neg reached
      rw [same]
      exact same

namespace BatchWalk

theorem activateAt_activateAt (w : BatchWalk) (baseOffset : Offset) :
    (w.activateAt baseOffset).activateAt baseOffset = w.activateAt baseOffset := by
  simp only [activateAt, activate_activate]

theorem visit_activateAt (request : DecodeRequest) (w : BatchWalk) (batch : RecordBatch) :
    (w.activateAt batch.baseOffset).visit request batch = w.visit request batch := by
  simp only [visit, activateAt_activateAt]

def filter (w : BatchWalk) : AbortFilter := (w.abortedTxns, w.abortedProducers)

end BatchWalk

/-- What the walk does with a part, and whether it goes on behind it. -/
structure Takes (request : DecodeRequest) (w : BatchWalk) (part : Part) (filter : AbortFilter)
    (turned : BatchWalk × Bool) : Prop where
  records : turned.1.records = w.records ++ takeBudget w.recordBudget part.offered
  budget : turned.1.recordBudget =
    w.recordBudget.map (· - (takeBudget w.recordBudget part.offered).length)
  filter : turned.1.filter = filter
  goes : w.recordBudget.any (· < part.offered.length) = !turned.2
  covers : ∀ x, Passes turned.1.outcome.lastOffset x ↔
    Passes (standing (takeBudget w.recordBudget part.offered) w.outcome.lastOffset) x ∨
      turned.2 ∧ request.fetchOffset ≤ part.batchEnd ∧ x ≤ part.batchEnd
  error : turned.1.outcome.error = w.outcome.error

namespace Takes

variable {request : DecodeRequest} {w w' : BatchWalk}

theorem pass {batchEnd : Offset} {epoch : Int} {filter : AbortFilter}
    (records : w'.records = w.records) (budget : w'.recordBudget = w.recordBudget)
    (filter_ : w'.filter = filter)
    (outcome : w'.outcome = w.outcome.advanceThroughBatch request.fetchOffset batchEnd epoch) :
    Takes request w ⟨batchEnd, []⟩ filter (w', true) where
  records := by simp [records]
  budget := by simp [budget]
  filter := filter_
  goes := by cases w.recordBudget <;> simp
  covers x := by
    rw [outcome, covers_advanceThroughBatch]
    simp [standing]
  error := by rw [outcome, error_advanceThroughBatch]

theorem visit {batch : RecordBatch}
    (kept : ¬ (batch.attributes.isTransactional ∧ ¬ batch.attributes.isControlBatch ∧
      batch.producerId ∈ (w.activateAt batch.baseOffset).abortedProducers.keys)) :
    Takes request w (.ofBatch request batch) (w.filter.behind batch) (w.visit request batch) := by
  unfold BatchWalk.visit Part.ofBatch AbortFilter.behind abortMarker
  dsimp only
  by_cases control : batch.attributes.isControlBatch = true
  · simp only [control, if_true, Bool.true_and]
    split
    · exact .pass rfl rfl rfl rfl
    · exact .pass rfl rfl rfl rfl
  have unlisted : ¬ ((batch.attributes.isTransactional &&
      decide (batch.producerId ∈ (w.activateAt batch.baseOffset).abortedProducers.keys)) = true) := by
    rw [Bool.and_eq_true, decide_eq_true_eq]
    exact fun inside => kept ⟨inside.1, control, inside.2⟩
  simp only [Bool.eq_false_iff.mpr control, Bool.false_and, Bool.false_eq_true, if_false, if_neg unlisted]
  by_cases hollow : batch.records.isEmpty = true
  · rw [if_pos hollow, isEmpty_iff.mp hollow]
    exact .pass rfl rfl rfl rfl
  rw [if_neg hollow, pushRecords_eq _ _ 0 _ _ fun n _ => n.zero_le]
  simp only [Nat.sub_zero, Option.map_id', Nat.zero_add]
  rw [show (w.activateAt batch.baseOffset).recordBudget = w.recordBudget from rfl,
    show (w.activateAt batch.baseOffset).outcome = w.outcome from rfl]
  split
  · rename_i short
    exact ⟨rfl, rfl, rfl, short, fun x => by simp [lastOffset_pushed_eq], error_pushed ..⟩
  · rename_i fits
    refine ⟨rfl, rfl, rfl, by simpa using fits, fun x => ?_, ?_⟩
    · exact (covers_advanceThroughBatch ..).trans (by simp [lastOffset_pushed_eq])
    · exact (error_advanceThroughBatch ..).trans (error_pushed ..)

end Takes

/-! The whole walk -/

structure Ends (request : DecodeRequest) (w : BatchWalk) (parts : List Part) (tail : Bytes)
    (final : BatchWalk) : Prop where
  records : final.records = w.records ++ takeBudget w.recordBudget (offers parts)
  budget : final.recordBudget =
    w.recordBudget.map (· - (takeBudget w.recordBudget (offers parts)).length)
  covers : ∀ x, Passes final.outcome.lastOffset x ↔
    Passes (standing (takeBudget w.recordBudget (offers parts)) w.outcome.lastOffset) x ∨
      ∃ part, ReadLast w.recordBudget parts part ∧ request.fetchOffset ≤ part.batchEnd ∧
        x ≤ part.batchEnd
  clean : tail.length < 12 → final.outcome.error = w.outcome.error
  stuck : 12 ≤ tail.length → w.recordBudget ≠ some 0 → offers parts = [] →
    final.outcome.lastOffset = none → final.outcome.error ≠ none

namespace Ends

variable {request : DecodeRequest} {w w' final : BatchWalk} {part : Part} {parts : List Part}
  {tail : Bytes}

theorem still (nothing : takeBudget w.recordBudget (offers parts) = [])
    (unread : ∀ part, ¬ ReadLast w.recordBudget parts part) (records : final.records = w.records)
    (budget : final.recordBudget = w.recordBudget)
    (last : final.outcome.lastOffset = w.outcome.lastOffset)
    (clean : tail.length < 12 → final.outcome.error = w.outcome.error)
    (stuck : 12 ≤ tail.length → w.recordBudget ≠ some 0 → final.outcome.lastOffset = none →
      final.outcome.error ≠ none) : Ends request w parts tail final where
  records := by simp [nothing, records]
  budget := by simp [nothing, budget]
  covers x := by simp [nothing, unread, standing, last]
  clean
  stuck long positive _ := stuck long positive

theorem notReadLast_nil (budget : Option Nat) (part : Part) : ¬ ReadLast budget [] part := by
  rintro ⟨before, after, none, -⟩
  exact absurd none.symm (by simp)

theorem spent (zero : w.recordBudget = some 0) : Ends request w parts tail w := by
  have unread (part : Part) : ¬ ReadLast w.recordBudget parts part :=
    fun ⟨_, _, _, _, less⟩ => Nat.not_lt_zero _ (less 0 zero)
  exact .still (by simp [zero, takeBudget]) unread rfl rfl rfl (fun _ => rfl) fun _ positive =>
    absurd zero positive

theorem cut {filter : AbortFilter} (takes : Takes request w part filter (w', false)) :
    Ends request w (part :: parts) tail w' := by
  obtain ⟨n, budget, short⟩ : ∃ n, w.recordBudget = some n ∧ n < part.offered.length := by
    simpa [Option.any_eq_true] using takes.goes
  have taken : takeBudget w.recordBudget (offers (part :: parts)) =
      takeBudget w.recordBudget part.offered := by
    rw [budget]
    exact take_append_of_le_length short.le
  have unread (p : Part) : ¬ ReadLast w.recordBudget (part :: parts) p := by
    -- the first part alone has more records than are pushed
    rintro ⟨before, after, split, whole, -⟩
    have length := congrArg List.length whole
    rw [taken, budget, takeBudget, length_take] at length
    cases before with
    | nil =>
      cases split
      simp only [nil_append, offers, flatMap_singleton] at length
      omega
    | cons =>
      cases split
      simp only [cons_append, offers, flatMap_cons, length_append] at length
      omega
  refine ⟨taken ▸ takes.records, taken ▸ takes.budget, fun x => ?_, fun _ => takes.error,
    fun _ _ none => ?_⟩
  · rw [takes.covers, taken]
    simp [unread]
  · have empty : part.offered = [] := (append_eq_nil_iff.mp none).1
    simp [empty] at short

section Step

variable {filter : AbortFilter} (takes : Takes request w part filter (w', true))
  (positive : w.recordBudget ≠ some 0)
include takes

theorem budget_of_goes : w'.recordBudget = w.recordBudget.map (· - part.offered.length) := by
  rw [takes.budget, takeBudget_of_fits takes.goes]

theorem takeBudget_cons (parts : List Part) : takeBudget w.recordBudget (offers (part :: parts)) =
    part.offered ++ takeBudget w'.recordBudget (offers parts) := by
  rw [budget_of_goes takes]
  exact takeBudget_append takes.goes

include positive

theorem readLast_cons (p : Part) : ReadLast w.recordBudget (part :: parts) p ↔
    p = part ∧ takeBudget w'.recordBudget (offers parts) = [] ∨
      ReadLast w'.recordBudget parts p := by
  have left := budget_of_goes takes
  unfold ReadLast
  rw [takeBudget_cons takes]
  constructor
  · rintro ⟨before, after, split, whole, less⟩
    cases before with
    | nil =>
      cases split
      simp only [nil_append, offers, flatMap_singleton] at whole
      exact .inl ⟨rfl, self_eq_append_right.mp whole⟩
    | cons _ before =>
      cases split
      refine .inr ⟨before, after, rfl, append_cancel_left whole, fun m given => ?_⟩
      rw [left] at given
      obtain ⟨n, before_, rfl⟩ := Option.map_eq_some_iff.mp given
      have := less n before_
      simp only [offers, flatMap_cons, length_append] at this ⊢
      omega
  · rintro (⟨rfl, none⟩ | ⟨before, after, rfl, whole, less⟩)
    · refine ⟨[], parts, rfl, by rw [none]; simp [offers], fun n given => ?_⟩
      have : n ≠ 0 := fun zero => positive (zero ▸ given)
      exact Nat.pos_of_ne_zero this
    · refine ⟨part :: before, after, rfl, congrArg (part.offered ++ ·) whole, fun n given => ?_⟩
      have := less (n - part.offered.length) (left ▸ Option.map_eq_some_iff.mpr ⟨n, given, rfl⟩)
      simp only [offers, flatMap_cons, length_append] at this ⊢
      omega

theorem step (ends : Ends request w' parts tail final) :
    Ends request w (part :: parts) tail final := by
  have left := budget_of_goes takes
  have taken := takeBudget_cons takes parts
  refine ⟨?_, ?_, fun x => ?_, fun short => (ends.clean short).trans takes.error,
    fun long _ none => ?_⟩
  · rw [ends.records, takes.records, takeBudget_of_fits takes.goes, taken, append_assoc]
  · rw [ends.budget, left, Option.map_map, ← left, taken, length_append]
    exact Option.map_congr fun n _ => by simp [Nat.sub_sub]
  · rw [ends.covers, taken]
    simp only [readLast_cons takes positive]
    by_cases done : takeBudget w'.recordBudget (offers parts) = []
    · have own := takes.covers x
      rw [takeBudget_of_fits takes.goes] at own
      rw [done, append_nil, show standing [] w'.outcome.lastOffset = w'.outcome.lastOffset from rfl,
        own]
      simp only [true_and, or_and_right, exists_or, and_true, exists_eq_left, or_assoc]
    · rw [standing_append done part.offered w.outcome.lastOffset w'.outcome.lastOffset]
      simp [done]
  · obtain ⟨empty, none⟩ := append_eq_nil_iff.mp none
    exact ends.stuck long (by simpa [left, empty] using positive) none

end Step

section Idle

variable (ends : Ends request w parts tail final)
include ends

theorem unpushed (unmoved : final.outcome.lastOffset = none) :
    takeBudget w.recordBudget (offers parts) = [] := by
  by_contra some
  have last : standing (takeBudget w.recordBudget (offers parts)) w.outcome.lastOffset =
      Option.some ((takeBudget w.recordBudget (offers parts)).getLast some).offset := by
    rw [standing, List.getLast?_eq_some_getLast some]
    rfl
  obtain ⟨l, at_, -⟩ := (ends.covers _).mpr (.inl ⟨_, last, le_rfl⟩)
  cases unmoved.symm.trans at_

variable (fresh : w.outcome.lastOffset = none)
include fresh

theorem forward (eligible : ∀ r ∈ takeBudget w.recordBudget (offers parts),
    request.fetchOffset ≤ r.offset) {l : Offset} (at_ : final.outcome.lastOffset = some l) :
    request.fetchOffset ≤ l := by
  have below {x : Offset} (covered : Passes final.outcome.lastOffset x) : x ≤ l := by
    obtain ⟨l', at', le⟩ := covered
    cases at_.symm.trans at'
    exact le
  rcases (ends.covers l).mp ⟨l, at_, le_rfl⟩ with ⟨x, last, -⟩ | ⟨part, read, above, -⟩
  · have reached := below ((ends.covers x).mpr (.inl ⟨x, last, le_rfl⟩))
    rw [standing, fresh, Option.or_none] at last
    obtain ⟨r, here, rfl⟩ := Option.map_eq_some_iff.mp last
    exact (eligible r (mem_of_getLast? here)).trans reached
  · exact above.trans (below ((ends.covers _).mpr (.inr ⟨part, read, above, le_rfl⟩)))

theorem lastOffset_eq_none_iff (positive : w.recordBudget ≠ some 0) :
    final.outcome.lastOffset = none ↔ ∀ part ∈ parts, part.Below request.fetchOffset := by
  constructor
  · intro unmoved
    have nothing (x : Offset) : ¬ Passes final.outcome.lastOffset x := by
      rintro ⟨l, at_, -⟩
      cases unmoved.symm.trans at_
    have unpushed := ends.unpushed unmoved
    have empty : offers parts = [] := by
      cases budget : w.recordBudget with
      | none => rwa [budget] at unpushed
      | some n =>
        rw [budget, takeBudget, take_eq_nil_iff] at unpushed
        exact unpushed.resolve_left fun zero => positive (zero ▸ budget)
    have hollow := flatMap_eq_nil_iff.mp empty
    refine fun part listed => ⟨not_le.mp fun above => ?_, hollow part listed⟩
    obtain ⟨before, after, rfl⟩ := append_of_mem listed
    have none (sub : List Part) (within : ∀ p ∈ sub, p ∈ before ++ part :: after) :
        offers sub = [] := flatMap_eq_nil_iff.mpr fun p here => hollow p (within p here)
    refine nothing _ ((ends.covers _).mpr (.inr ⟨part, ⟨before, after, rfl, ?_, ?_⟩, above, le_rfl⟩))
    · rw [unpushed]
      exact none _ fun p here => by
        rcases mem_append.mp here with here | here
        · exact mem_append_left _ here
        · simp [mem_singleton.mp here]
    · intro n given
      rw [none before fun p here => mem_append_left _ here]
      exact Nat.pos_of_ne_zero fun zero => positive (zero ▸ given)
  · intro below
    have empty : offers parts = [] := flatMap_eq_nil_iff.mpr fun p here => (below p here).2
    by_contra moved
    obtain ⟨l, at_⟩ := Option.ne_none_iff_exists'.mp moved
    rcases (ends.covers l).mp ⟨l, at_, le_rfl⟩ with ⟨x, last, -⟩ | ⟨part, ⟨before, after, rfl, -⟩, above, -⟩
    · rw [empty, takeBudget_nil, fresh] at last
      cases last
    · exact absurd (below part (by simp)).1 (not_lt.mpr above)

end Idle

end Ends

section Walk

variable {request : DecodeRequest} {w : BatchWalk}

theorem fail_spec (w : BatchWalk) (error : KrafkaError) :
    (w.fail error).records = w.records ∧ (w.fail error).recordBudget = w.recordBudget ∧
      (w.fail error).outcome.lastOffset = w.outcome.lastOffset ∧
      (w.outcome.lastOffset = none → (w.fail error).outcome.error = some error) := by
  simp only [BatchWalk.fail]
  split_ifs with moved tail
  · exact ⟨rfl, rfl, rfl, fun none => by simp [none] at moved⟩
  · exact ⟨rfl, rfl, rfl, fun none => by simp [none] at moved⟩
  · exact ⟨rfl, rfl, rfl, fun _ => rfl⟩

theorem walk_eq (request : DecodeRequest) (w : BatchWalk) :
    w.walk request =
      if w.batchBuf.length < 12 then w
      else if w.recordBudget = some 0 then w
      else
        match w.skipAborted request with
        | (w', true) => w'.walk request
        | (w', false) =>
          match request.decode w'.batchBuf with
          | .error error => w'.fail error
          | .ok (batch, rest) =>
            match ({ w' with batchBuf := rest } : BatchWalk).visit request batch with
            | (w'', true) => w''.walk request
            | (w'', false) => w'' := by
  rw [BatchWalk.walk]
  refine ite_congr rfl (fun _ => rfl) fun _ => ite_congr rfl (fun _ => rfl) fun _ => ?_
  split
  · next skipped => simp only [skipped]
  · next kept =>
    simp only [kept]
    split
    · next failed => simp only [failed]
    · next decoded =>
      simp only [decoded]
      split
      · next visited => simp only [visited]
      · next visited => simp only [visited]

theorem skipAborted_withheld (request : DecodeRequest) {header : RecordBatchHeader}
    (withheld : w.filter.withheld w.batchBuf = some header) :
    ∃ w', w.skipAborted request = (w', true) ∧ w'.batchBuf = w.batchBuf.drop header.totalSize ∧
      Takes request w ⟨header.lastOffset, []⟩
        (activate header.baseOffset w.filter.1 w.filter.2) (w', true) := by
  obtain ⟨parsed, data, listed⟩ := of_withheld withheld
  unfold BatchWalk.skipAborted
  rw [parsed]
  simp only
  rw [if_pos data, if_pos (by exact listed)]
  exact ⟨_, rfl, rfl, .pass rfl rfl rfl rfl⟩

theorem skipAborted_kept (request : DecodeRequest) (kept : w.filter.withheld w.batchBuf = none) :
    ∃ w', w.skipAborted request = (w', false) ∧ w'.batchBuf = w.batchBuf ∧ (w' = w ∨
      ∃ header, RecordBatchHeader.peek w.batchBuf = .ok header ∧
        w' = w.activateAt header.baseOffset) := by
  unfold BatchWalk.skipAborted
  unfold AbortFilter.withheld at kept
  cases parsed : RecordBatchHeader.peek w.batchBuf with
  | error => exact ⟨w, rfl, rfl, .inl rfl⟩
  | ok header =>
    simp only [parsed] at kept ⊢
    split_ifs with data listed
    · have inside : decide (header.producerId ∈
          (activate header.baseOffset w.filter.1 w.filter.2).2.keys) = true := decide_eq_true listed
      rw [data, inside] at kept
      cases kept
    · exact ⟨_, rfl, rfl, .inr ⟨header, rfl, rfl⟩⟩
    · exact ⟨w, rfl, rfl, .inl rfl⟩

theorem ends_of_reads {filter : AbortFilter} {buf : Bytes} {parts : List Part} {tail : Bytes}
    (reads : Reads request filter buf parts tail) (w : BatchWalk) (at_ : w.batchBuf = buf)
    (filtered : w.filter = filter) : Ends request w parts tail (w.walk request) := by
  -- without a budget the walk ends at once, whatever comes
  have spent (parts : List Part) (tail : Bytes) (w : BatchWalk) (zero : w.recordBudget = some 0) :
      Ends request w parts tail (w.walk request) := by
    have stays : w.walk request = w := by
      rw [BatchWalk.walk, if_pos zero, ite_self]
    exact stays.symm ▸ .spent zero
  induction reads generalizing w with
  | short short =>
    rw [BatchWalk.walk, if_pos (at_ ▸ short)]
    exact .still (by simp [offers]) (Ends.notReadLast_nil _) rfl rfl rfl (fun _ => rfl)
      fun long => absurd short (Nat.not_lt.mpr long)
  | broken long kept failed =>
    subst at_ filtered
    by_cases zero : w.recordBudget = some 0
    · exact spent _ _ w zero
    obtain ⟨w', looked, same, which⟩ := skipAborted_kept request kept
    rw [walk_eq, if_neg (Nat.not_lt.mpr long), if_neg zero, looked]
    dsimp only
    rw [same, failed]
    obtain ⟨records, budget, last, stuck⟩ := fail_spec w' _
    have old : w'.records = w.records ∧ w'.recordBudget = w.recordBudget ∧
        w'.outcome = w.outcome := by
      rcases which with rfl | ⟨header, -, rfl⟩ <;> exact ⟨rfl, rfl, rfl⟩
    refine .still (by simp [offers]) (Ends.notReadLast_nil _) (records.trans old.1)
      (budget.trans old.2.1) (last.trans (congrArg _ old.2.2))
      (fun short => absurd short (Nat.not_lt.mpr long)) fun _ _ none => ?_
    rw [stuck (last.symm.trans none)]
    exact Option.some_ne_none _
  | aborted withheld more ih =>
    subst at_ filtered
    by_cases zero : w.recordBudget = some 0
    · exact spent _ _ w zero
    obtain ⟨parsed, data, -⟩ := of_withheld withheld
    have long : ¬ w.batchBuf.length < 12 := by
      have large := RecordBatchHeader.size_le_totalSize parsed
      simp only [RecordBatchHeader.size, Bool.and_eq_true, decide_eq_true_eq] at large data
      omega
    obtain ⟨w', skipped, left, takes⟩ := skipAborted_withheld request withheld
    rw [walk_eq, if_neg long, if_neg zero, skipped]
    exact .step takes zero (ih w' left takes.filter)
  | @batch _ _ batch rest _ _ kept decoded more ih =>
    subst at_ filtered
    by_cases zero : w.recordBudget = some 0
    · exact spent _ _ w zero
    obtain ⟨header, parsed, whole, made, -⟩ := RecordBatch.decodeWithLimit_eq_ok decoded
    have long : ¬ w.batchBuf.length < 12 := by
      have large := RecordBatchHeader.size_le_totalSize parsed
      simp only [RecordBatchHeader.size] at large
      omega
    obtain ⟨w', looked, same, which⟩ := skipAborted_kept request kept
    have visited : ({ w' with batchBuf := rest } : BatchWalk).visit request batch =
        ({ w with batchBuf := rest } : BatchWalk).visit request batch := by
      rcases which with rfl | ⟨header', parsed', rfl⟩
      · rfl
      · cases parsed.symm.trans parsed'
        have base : header.baseOffset = batch.baseOffset := by rw [made]; rfl
        rw [base]
        exact BatchWalk.visit_activateAt request { w with batchBuf := rest } batch
    rw [walk_eq, if_neg long, if_neg zero, looked]
    dsimp only
    rw [same, decoded]
    dsimp only
    rw [visited]
    have turn : Takes request { w with batchBuf := rest } (.ofBatch request batch)
        (w.filter.behind batch) (({ w with batchBuf := rest } : BatchWalk).visit request batch) :=
      .visit (not_aborted_of_kept kept decoded)
    have takes : Takes request w (.ofBatch request batch) (w.filter.behind batch)
        (({ w with batchBuf := rest } : BatchWalk).visit request batch) :=
      ⟨turn.records, turn.budget, turn.filter, turn.goes, turn.covers, turn.error⟩
    have left := BatchWalk.batchBuf_visit request { w with batchBuf := rest } batch
    cases turned : ({ w with batchBuf := rest } : BatchWalk).visit request batch with
    | mk w'' goes =>
      rw [turned] at takes left
      cases goes with
      | true => exact .step takes zero (ih w'' left takes.filter)
      | false => exact .cut takes

end Walk

theorem decodePartitionBatches_ends {request : DecodeRequest} {payload : Bytes}
    {aborted : List AbortedTransaction} {parts : List Part} {tail : Bytes}
    (reads : Reads request (.start aborted) payload parts tail) (budget : Option Nat)
    (records : List ConsumerRecord) :
    Ends request { batchBuf := payload, abortedTxns := (AbortFilter.start aborted).1
                   recordBudget := budget, records } parts tail
      (decodePartitionBatches request payload aborted budget records) :=
  ends_of_reads reads _ rfl rfl

end Krafka.Consumer
