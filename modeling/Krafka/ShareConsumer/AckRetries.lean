import Krafka.Library.Runs
import Krafka.ShareConsumer.Acks

/-! Acknowledgements that are sent again. An entry of the book has one `queued_at` for all it holds,
and `settle` compares that with the cutoff. Here each acknowledgement that is pending or in flight
comes with the time at which it was added itself. -/

namespace Krafka.ShareConsumer

open Consumer (PartitionKey Instant Duration)
open Metadata (TopicId)
open Span (Labels)
open Runs (Along)

def AckRanges.Covers (r : AckRanges) (i : Int) : Prop := ∃ range ∈ r.ranges, range.Has i

instance (r : AckRanges) (i : Int) : Decidable (r.Covers i) :=
  inferInstanceAs (Decidable (∃ range ∈ r.ranges, range.Has i))

theorem AckRanges.covers_iff_labels {r : AckRanges} {i : Int} :
    r.Covers i ↔ ∃ k, Labels r.ranges i k := by
  simp [Covers, Labels]

/-- An acknowledgement of the offset was in flight, with no later one pending, and waits again. -/
def AckBook.PutsBack (before after : AckBook) (key : AckKey) (i : Int) : Prop :=
  ∃ entry ∈ before.lookup key, ∃ entry' ∈ after.lookup key,
    entry.inFlight.Covers i ∧ ¬ entry.pending.Covers i ∧ entry'.pending.Covers i

def retryCutoff (reset : Bool) (now : Instant) (lockTimeout : Duration) : Option Instant :=
  if reset then some (now - lockTimeout) else none

structure DatedBook where
  book : AckBook := ∅
  now : Instant := 0
  pendingSince : AckKey → Int → Instant := fun _ _ => 0
  inFlightSince : AckKey → Int → Instant := fun _ _ => 0

inductive AckInput where
  | add (elapsed : Duration) (node : Int) (partition : PartitionKey) (topicId : TopicId)
    (range : AckRange)
  | take (node : Int) (partitions : Option (List PartitionKey))
  | settle (node : Int) (partition : PartitionKey) (result : Result Unit)
    (retryCutoff : Option Instant)

namespace DatedBook

def step (d : DatedBook) : AckInput → DatedBook
  | .add elapsed node partition topicId range =>
    { d with
      now := d.now + elapsed
      book := d.book.add (d.now + elapsed) node partition topicId range
      pendingSince := fun key i =>
        if key = (node, partition) ∧ range.Has i then d.now + elapsed else d.pendingSince key i }
  | .take node partitions =>
    { d with
      book := (d.book.take node partitions).1
      inFlightSince := fun key i =>
        if (d.book.lookup key).any (AckBook.takes node partitions key) then d.pendingSince key i
        else d.inFlightSince key i }
  | .settle node partition result cutoff =>
    { d with
      book := (d.book.settle node partition result cutoff).1
      -- What comes back to an offset for which nothing is pending keeps its time.
      pendingSince := fun key i =>
        if key = (node, partition) ∧ (d.book.lookup key).any (fun e => ¬ e.pending.Covers i) then
          d.inFlightSince key i
        else d.pendingSince key i }

def run (inputs : List AckInput) : DatedBook := inputs.foldl step {}

/-- Nothing is added to an entry that has acknowledgements in flight. -/
def Calm (d : DatedBook) : AckInput → Prop
  | .add _ node partition _ _ =>
    ∀ entry ∈ d.book.lookup (node, partition), entry.inFlight.isEmpty = true
  | _ => True

structure Dates (now : Instant) (pendingSince inFlightSince : Int → Instant) (entry : AckEntry) :
    Prop where
  passed : entry.queuedAt ≤ now
  apart : entry.inFlight.isEmpty ∨ entry.pending.isEmpty = true
  pending : ∀ i, entry.pending.Covers i → entry.queuedAt ≤ pendingSince i
  inFlight : ∀ i, entry.inFlight.Covers i → entry.queuedAt ≤ inFlightSince i

def Dated (d : DatedBook) : Prop :=
  ∀ key, ∀ entry ∈ d.book.lookup key, Dates d.now (d.pendingSince key) (d.inFlightSince key) entry

end DatedBook

namespace AckRanges

theorem not_covers_of_isEmpty {r : AckRanges} (none : r.isEmpty) (i : Int) : ¬ r.Covers i := by
  rw [covers_iff_labels]
  exact fun ⟨k, label⟩ => labels_of_isEmpty none i k label

theorem not_covers_empty (i : Int) : ¬ empty.Covers i := not_covers_of_isEmpty rfl i

theorem covers_insertRange {r : AckRanges} {range : AckRange} {i : Int} :
    (r.insertRange range).Covers i ↔ range.Has i ∨ r.Covers i := by
  simp only [covers_iff_labels, labels_insertRange]
  by_cases here : range.Has i <;> simp [here]

theorem covers_insertRanges {r more : AckRanges} {i : Int} :
    (r.insertRanges more).Covers i ↔ more.Covers i ∨ r.Covers i := by
  simp only [covers_iff_labels, labels_insertRanges]
  by_cases here : ∃ k, Labels more.ranges i k
  · obtain ⟨k, label⟩ := here
    exact iff_of_true ⟨k, .inl label⟩ (.inl ⟨k, label⟩)
  · have free : ∀ k, ¬ Labels more.ranges i k := not_exists.mp here
    simp [free]

end AckRanges

namespace AckBook

variable {book : AckBook} {node : Int} {partition : PartitionKey}

theorem settle_cases (result : Result Unit) (cutoff : Option Instant) :
    (book.settle node partition result cutoff).1 = book ∨
    ∃ entry, book.lookup (node, partition) = some entry ∧
      ((book.settle node partition result cutoff).1 =
          book.finish (node, partition) { entry with inFlight := .empty } ∨
        (∃ t ∈ cutoff, t ≤ entry.queuedAt) ∧
          (book.settle node partition result cutoff).1 = book.insert (node, partition)
            { entry with inFlight := .empty, pending := entry.inFlight.insertRanges entry.pending }) := by
  unfold settle
  cases found : book.lookup (node, partition) with
  | none => exact .inl rfl
  | some entry =>
    simp only
    split
    · exact .inl rfl
    · refine .inr ⟨entry, rfl, ?_⟩
      cases result with
      | ok => exact .inl rfl
      | error =>
        simp only
        split
        · split
          · rename_i recent
            exact .inr ⟨by simpa [Option.any_eq_true] using recent, rfl⟩
          · exact .inl rfl
        · exact .inl rfl

theorem lookup_finish {key key' : AckKey} {entry entry' : AckEntry}
    (found : (book.finish key entry).lookup key' = some entry') :
    (key' = key ∧ entry' = entry) ∨ (key' ≠ key ∧ book.lookup key' = some entry') := by
  unfold finish at found
  by_cases own : key' = key
  · subst own
    split at found
    · simp at found
    · simp only [AList.lookup_insert, Option.some.injEq] at found
      exact .inl ⟨rfl, found.symm⟩
  · split at found
    · rw [AList.lookup_erase_ne own] at found
      exact .inr ⟨own, found⟩
    · rw [AList.lookup_insert_ne own] at found
      exact .inr ⟨own, found⟩

theorem PutsBack.recent {result : Result Unit} {cutoff : Option Instant} {key : AckKey}
    {i : Int} (back : book.PutsBack (book.settle node partition result cutoff).1 key i) :
    key = (node, partition) ∧ ∃ entry ∈ book.lookup key, entry.inFlight.Covers i ∧
      ∃ t ∈ cutoff, t ≤ entry.queuedAt := by
  obtain ⟨entry, found, entry', after, flew, free, waits⟩ := back
  have moved : entry' ≠ entry := fun same => free (same ▸ waits)
  rcases @settle_cases book node partition result cutoff with
    same | ⟨old, there, gone | ⟨recent, put⟩⟩
  · rw [same] at after
    exact absurd (Option.some.inj (after.symm.trans found)) moved
  · rw [gone] at after
    rcases lookup_finish after with ⟨rfl, rfl⟩ | ⟨-, same⟩
    · cases there.symm.trans found
      exact absurd waits free
    · exact absurd (Option.some.inj (same.symm.trans found)) moved
  · rw [put] at after
    by_cases own : key = (node, partition)
    · subst own
      cases there.symm.trans found
      exact ⟨rfl, _, there, flew, recent⟩
    · rw [Option.mem_def, AList.lookup_insert_ne own] at after
      exact absurd (Option.some.inj (after.symm.trans found)) moved

end AckBook

namespace DatedBook

namespace Dates

variable {now : Instant} {pendingSince inFlightSince : Int → Instant} {entry : AckEntry}

theorem fresh (topicId : TopicId) (now : Instant) (pendingSince inFlightSince : Int → Instant) :
    Dates now pendingSince inFlightSince { topicId, queuedAt := now } where
  passed := Nat.le_refl now
  apart := .inl rfl
  pending i held := absurd held (AckRanges.not_covers_empty i)
  inFlight i held := absurd held (AckRanges.not_covers_empty i)

theorem add (dates : Dates now pendingSince inFlightSince entry)
    (idle : entry.inFlight.isEmpty) {later : Instant} (passes : now ≤ later) (range : AckRange) :
    Dates later (fun i => if range.Has i then later else pendingSince i) inFlightSince
      { entry with
        queuedAt := if entry.pending.isEmpty then later else entry.queuedAt
        pending := entry.pending.insertRange range } := by
  have queued : (if entry.pending.isEmpty then later else entry.queuedAt) ≤ later := by
    split
    · exact Nat.le_refl later
    · exact dates.passed.trans passes
  refine ⟨queued, .inl idle, fun i held => ?_, fun i held => ?_⟩
  · show _ ≤ if range.Has i then later else pendingSince i
    by_cases here : range.Has i
    · rw [if_pos here]
      exact queued
    · have old : entry.pending.Covers i :=
        (AckRanges.covers_insertRange.mp held).resolve_left here
      have waits : ¬ entry.pending.isEmpty = true := fun none =>
        AckRanges.not_covers_of_isEmpty none i old
      rw [if_neg here, if_neg waits]
      exact dates.pending i old
  · exact absurd held (AckRanges.not_covers_of_isEmpty idle i)

theorem agree (dates : Dates now pendingSince inFlightSince entry) {since : Int → Instant}
    (kept : ∀ i, entry.pending.Covers i → since i = pendingSince i) :
    Dates now since inFlightSince entry where
  passed := dates.passed
  apart := dates.apart
  pending i held := (dates.pending i held).trans_eq (kept i held).symm
  inFlight := dates.inFlight

theorem land (dates : Dates now pendingSince inFlightSince entry) :
    Dates now pendingSince inFlightSince { entry with inFlight := .empty } where
  passed := dates.passed
  apart := .inl rfl
  pending := dates.pending
  inFlight i held := absurd held (AckRanges.not_covers_empty i)

theorem putBack (dates : Dates now pendingSince inFlightSince entry) :
    Dates now (fun i => if ¬ entry.pending.Covers i then inFlightSince i else pendingSince i)
      inFlightSince
      { entry with inFlight := .empty, pending := entry.inFlight.insertRanges entry.pending } := by
  refine ⟨dates.passed, .inl rfl, fun i held => ?_, fun i held => ?_⟩
  · show entry.queuedAt ≤ if ¬ entry.pending.Covers i then inFlightSince i else pendingSince i
    split
    · rename_i free
      exact dates.inFlight i ((AckRanges.covers_insertRanges.mp held).resolve_left free)
    · rename_i waits
      exact dates.pending i (not_not.mp waits)
  · exact absurd held (AckRanges.not_covers_empty i)

end Dates

theorem Dated.step {d : DatedBook} {input : AckInput} (calm : d.Calm input) (dated : d.Dated) :
    (d.step input).Dated := by
  intro key entry found
  cases input with
  | add elapsed node partition topicId range =>
    have passes : d.now ≤ d.now + elapsed := Nat.le_add_right ..
    by_cases own : key = (node, partition)
    · subst own
      simp only [DatedBook.step, AckBook.add, AList.lookup_insert, Option.mem_some] at found
      subst found
      simp only [DatedBook.step, true_and]
      cases there : d.book.lookup (node, partition) with
      | none => exact (Dates.fresh ..).add rfl (Nat.le_refl _) range
      | some old => exact (dated _ old there).add (calm old there) passes range
    · simp only [DatedBook.step, AckBook.add, AList.lookup_insert_ne own] at found
      have dates := dated key entry found
      simp only [DatedBook.step, own, false_and, if_false]
      exact ⟨dates.passed.trans passes, dates.apart, dates.pending, dates.inFlight⟩
  | take =>
    simp only [DatedBook.step, AckBook.take, AList.lookup_mapValues, Option.mem_map] at found
    obtain ⟨old, there, rfl⟩ := found
    have dates := dated key old there
    simp only [DatedBook.step, Option.mem_def.mp there, Option.any_some]
    split
    · exact ⟨dates.passed, .inr rfl, fun i held => absurd held (AckRanges.not_covers_empty i),
        dates.pending⟩
    · exact dates
  | settle node partition result cutoff =>
    have kept {old : AckEntry} (there : old ∈ d.book.lookup key) (i : Int)
        (held : old.pending.Covers i) :
        (d.step (.settle node partition result cutoff)).pendingSince key i = d.pendingSince key i := by
      simp [DatedBook.step, Option.mem_def.mp there, held]
    simp only [DatedBook.step] at found
    rcases @AckBook.settle_cases d.book node partition result cutoff with
      same | ⟨old, there, gone | ⟨-, put⟩⟩
    · rw [same] at found
      exact (dated key entry found).agree (kept found)
    · rw [gone] at found
      rcases AckBook.lookup_finish found with ⟨rfl, rfl⟩ | ⟨-, same⟩
      · exact ((dated _ old there).agree (kept there)).land
      · exact (dated key entry same).agree (kept same)
    · rw [put] at found
      by_cases own : key = (node, partition)
      · subst own
        rw [AList.lookup_insert, Option.mem_some] at found
        subst found
        simpa [DatedBook.step, there] using (dated _ old there).putBack
      · rw [AList.lookup_insert_ne own] at found
        exact (dated key entry found).agree (kept found)

theorem dated_run {inputs : List AckInput} (calm : Along step Calm {} inputs) :
    (run inputs).Dated :=
  calm.invariant Dated (fun _ _ => Dated.step) (fun _ _ found => nomatch found)

/-- If nothing is added to an entry while acknowledgements of it are in flight, `settle` puts an
acknowledgement back only if it was itself added at or after the cutoff; with the cutoff of a failed
request, only within the lock timeout. -/
theorem put_back_only_after_cutoff {inputs : List AckInput} (calm : Along step Calm {} inputs)
    (node : Int) (partition : PartitionKey) (result : Result Unit)
    (cutoff : Option Instant) (key : AckKey) (i : Int) (back : (run inputs).book.PutsBack
      ((run inputs).book.settle node partition result cutoff).1 key i) :
    (∃ t ∈ cutoff, t ≤ (run inputs).inFlightSince key i) ∧
      ∀ reset now lockTimeout, cutoff = retryCutoff reset now lockTimeout →
        now ≤ (run inputs).inFlightSince key i + lockTimeout := by
  obtain ⟨-, entry, found, flew, t, given, recent⟩ := back.recent
  have added : t ≤ (run inputs).inFlightSince key i :=
    recent.trans ((dated_run calm key entry found).inFlight i flew)
  refine ⟨⟨t, given, added⟩, fun reset now lockTimeout is => ?_⟩
  rw [is, retryCutoff] at given
  split at given
  · rw [Option.mem_some] at given
    exact Nat.sub_le_iff_le_add.mp (given ▸ added)
  · cases given

def sampleFlight : List AckInput :=
  [.add 10 1 ("t", 0) 0 (.one 5 .accept), .take 1 none]

theorem sample_put_back_in_time : 10 ≤ (run sampleFlight).inFlightSince (1, ("t", 0)) 5 ∧
    40 ≤ (run sampleFlight).inFlightSince (1, ("t", 0)) 5 + 30 := by
  have back : (run sampleFlight).book.PutsBack
      ((run sampleFlight).book.settle 1 ("t", 0) (.error (.network "")) (some 10)).1
      (1, ("t", 0)) 5 := ⟨_, rfl, _, rfl, by decide, by decide, by decide⟩
  obtain ⟨⟨t, given, added⟩, bounded⟩ := @put_back_only_after_cutoff sampleFlight
    ⟨(fun _ found => nomatch found), trivial, trivial⟩ _ _ _ _ _ _ back
  cases Option.mem_some.mp given
  exact ⟨added, bounded true 40 30 rfl⟩

/-- An acknowledgement of time 10 is put back with the cutoff 50, since another was added at time
110 while it was in flight. -/
theorem older_acknowledgement_put_back :
    (run (sampleFlight ++ [.add 100 1 ("t", 0) 0 (.one 6 .accept)])).book.PutsBack
      ((run (sampleFlight ++ [.add 100 1 ("t", 0) 0 (.one 6 .accept)])).book.settle 1 ("t", 0)
        (.error (.network "")) (some 50)).1 (1, ("t", 0)) 5 ∧
    (run (sampleFlight ++ [.add 100 1 ("t", 0) 0 (.one 6 .accept)])).inFlightSince
      (1, ("t", 0)) 5 = 10 :=
  ⟨⟨_, rfl, _, rfl, by decide, by decide, by decide⟩, rfl⟩

end DatedBook

end Krafka.ShareConsumer
