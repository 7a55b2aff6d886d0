import Krafka.Consumer.State
import Krafka.Library.Maps
import Mathlib.Data.List.Induction
import Mathlib.Data.List.Sort

/-! The bounded scan of a compacted topic: end offsets are taken once, then the topic is polled until
no assigned partition is behind its end offset. What the source answers may change between any two
calls. Times are in nanoseconds. -/

namespace Krafka.Consumer

open List

structure CompactedEntry where
  value : List UInt8
  timestampMs : Int
  offset : Offset
  partition : Int

structure CompactedTable where
  entries : AList fun _ : List UInt8 => CompactedEntry := ∅
  recordsProcessed : Nat := 0
  tombstonesProcessed : Nat := 0

namespace CompactedTable

def ingestKeyedRecord (table : CompactedTable) (key : List UInt8) (record : ConsumerRecord) :
    CompactedTable :=
  match record.value with
  | none =>
    { table with
      tombstonesProcessed := table.tombstonesProcessed + 1
      entries := table.entries.erase key }
  | some value =>
    let entry := ⟨value, record.timestamp, record.offset, record.partition⟩
    { table with entries := table.entries.insert key entry }

def ingest (table : CompactedTable) (records : List ConsumerRecord) : CompactedTable :=
  records.foldl (fun table record =>
    let counted := { table with recordsProcessed := table.recordsProcessed + 1 }
    match record.key with
    | none => counted
    | some key => counted.ingestKeyedRecord key record) table

end CompactedTable

structure LaggingPartition where
  partition : Int
  position : Option Offset
  target : Offset

def LaggingPartition.display (l : LaggingPartition) : String :=
  match l.position with
  | some pos => s!"partition {l.partition} (position {pos}, target {l.target})"
  | none => s!"partition {l.partition} (position unknown, target {l.target})"

def scanTimeoutError (topic : String) (timeout : Duration) (lagging : List LaggingPartition) :
    KrafkaError :=
  let timeout := Texts.debugDuration timeout
  let detail := String.intercalate ", " (lagging.map LaggingPartition.display)
  .timeout (s!"scan of compacted topic '{topic}' did not catch up within {timeout}; " ++
    s!"partitions still behind their target offset: [{detail}]")

structure ScanRound where
  polled : Result (List ConsumerRecord)
  assigned : List Int
  position : Nat → Option Offset
  now : Instant

def ScanRound.Reports (round : ScanRound) (partition : Int) (offset : Offset) : Prop :=
  ∃ place, round.assigned[place]? = some partition ∧ ∃ pos ∈ round.position place, offset ≤ pos

abbrev Targets := AList fun _ : Int => Offset

/-- The partitions that are behind. Beside those of an empty assignment, only assigned ones are
looked at. -/
def laggingPartitions (round : ScanRound) (targets : Targets) : List LaggingPartition :=
  let lagging :=
    if round.assigned.isEmpty then
      targets.entries.map fun target => ⟨target.1, none, target.2⟩
    else
      round.assigned.zipIdx.filterMap fun (partition, place) =>
        match targets.lookup partition with
        | none => none
        | some target =>
          if target ≤ 0 then none
          else if (round.position place).all (· < target) then
            some ⟨partition, round.position place, target⟩
          else none
  lagging.insertionSort fun a b => a.partition ≤ b.partition

abbrev EndOffsets := AList fun _ : Int => Result Offset

def scanTargets (ends : EndOffsets) : Result Targets :=
  ends.entries.foldlM (fun targets entry => do
    let offset ← entry.2
    return targets.insert entry.1 offset) ∅

section Scan

variable (topic : String) (timeout : Duration)

def scanLoop (targets : Targets) (deadline : Instant) :
    CompactedTable → List ScanRound → Option (Result Unit) × CompactedTable
  | table, [] => (none, table)
  | table, round :: rounds =>
    match round.polled with
    | .error error => (some (.error error), table)
    | .ok records =>
      let table := table.ingest (records.filter (·.topic = topic))
      let lagging := laggingPartitions round targets
      if lagging.isEmpty then (some (.ok ()), table)
      else if deadline ≤ round.now then (some (.error (scanTimeoutError topic timeout lagging)), table)
      else scanLoop targets deadline table rounds

def runScan (assigned : List Int) (ends : Result EndOffsets) (now : Instant)
    (table : CompactedTable) (rounds : List ScanRound) :
    Option (Result Unit) × CompactedTable :=
  if assigned.isEmpty then
    (some (.error (.illegalState (s!"no partitions assigned for topic '{topic}'; " ++
      "assign partitions before calling scan()"))), table)
  else
    match ends.bind scanTargets with
    | .error error => (some (.error error), table)
    | .ok targets =>
      if targets.entries.all (·.2 ≤ 0) then (some (.ok ()), table)
      else scanLoop topic timeout (targets.retain fun _ hwm => 0 < hwm) (now + timeout) table rounds

end Scan

/-! What a finished scan has seen -/

theorem lookup_foldlM_targets {entries : List (Sigma fun _ : Int => Result Offset)}
    (distinct : entries.NodupKeys) {start targets : Targets}
    (read : entries.foldlM (fun (targets : Targets) entry => do
      let offset ← entry.2
      return targets.insert entry.1 offset) start = .ok targets) (p : Int) :
    (p ∉ entries.keys → targets.lookup p = start.lookup p) ∧
      ∀ offset, entries.dlookup p = some (.ok offset) → targets.lookup p = some offset := by
  induction entries generalizing start with
  | nil =>
    cases read
    exact ⟨fun _ => rfl, nofun⟩
  | cons entry entries ih =>
    obtain ⟨q, result⟩ := entry
    obtain ⟨fresh, apart⟩ := nodupKeys_cons.mp distinct
    cases result with
    | error => cases read
    | ok offset =>
      have rest := ih apart read
      by_cases here : p = q
      · subst here
        have own : targets.lookup p = some offset := by
          rw [rest.1 fresh, AList.lookup_insert]
        refine ⟨fun absent => absurd mem_cons_self absent, fun o first => ?_⟩
        rw [dlookup_cons_eq] at first
        cases first
        exact own
      · refine ⟨fun absent => ?_, fun o later => rest.2 o ?_⟩
        · rw [rest.1 fun later => absent (mem_cons_of_mem _ later), AList.lookup_insert_ne here]
        · rwa [dlookup_cons_ne _ _ here] at later

theorem lookup_scanTargets {ends : EndOffsets} {targets : Targets}
    (read : scanTargets ends = .ok targets) {p : Int} {offset : Offset}
    (known : ends.lookup p = some (.ok offset)) : targets.lookup p = some offset :=
  (lookup_foldlM_targets ends.nodupKeys read p).2 offset known

section Check

variable {round : ScanRound} {targets : Targets} {p : Int} {target : Offset}

theorem lags_of_unassigned (wanted : targets.lookup p = some target)
    (unassigned : round.assigned = []) : ⟨p, none, target⟩ ∈ laggingPartitions round targets := by
  rw [laggingPartitions, List.mem_insertionSort, if_pos (List.isEmpty_iff.mpr unassigned)]
  exact mem_map.mpr ⟨⟨p, target⟩, AList.mem_lookup_iff.mp wanted, rfl⟩

theorem lags_of_behind (wanted : targets.lookup p = some target) (above : 0 < target) {place : Nat}
    (held : round.assigned[place]? = some p) (behind : (round.position place).all (· < target)) :
    ⟨p, round.position place, target⟩ ∈ laggingPartitions round targets := by
  have some : ¬ round.assigned.isEmpty := by
    rw [List.isEmpty_iff]
    exact fun none => by simp [none] at held
  rw [laggingPartitions, List.mem_insertionSort, if_neg some]
  refine mem_filterMap.mpr ⟨(p, place), mk_mem_zipIdx_iff_getElem?.mpr held, ?_⟩
  simp [wanted, behind, Int.not_le.mpr above]

theorem reports_of_laggingPartitions (caughtUp : (laggingPartitions round targets).isEmpty)
    (wanted : targets.lookup p = some target) (above : 0 < target)
    (held : round.assigned = [] ∨ p ∈ round.assigned) : round.Reports p target := by
  have nothing (l : LaggingPartition) : l ∉ laggingPartitions round targets := by
    rw [List.isEmpty_iff.mp caughtUp]
    exact not_mem_nil
  rcases held with unassigned | held
  · exact absurd (lags_of_unassigned wanted unassigned) (nothing _)
  · obtain ⟨place, there⟩ := mem_iff_getElem?.mp held
    have ahead : ¬ (round.position place).all (· < target) = true :=
      fun behind => nothing _ (lags_of_behind wanted above there behind)
    refine ⟨place, there, ?_⟩
    cases pos : round.position place with
    | none => simp [pos] at ahead
    | some pos' => exact ⟨pos', rfl, by simpa [pos] using ahead⟩

end Check

theorem last_round_of_scanLoop {topic : String} {timeout : Duration} {targets : Targets}
    {deadline : Instant} {table : CompactedTable} {rounds : List ScanRound}
    (finished : (scanLoop topic timeout targets deadline table rounds).1 = some (.ok ())) :
    ∃ before round after, rounds = before ++ round :: after ∧
      (scanLoop topic timeout targets deadline table before).1 = none ∧
      (scanLoop topic timeout targets deadline table (before ++ [round])).1 = some (.ok ()) ∧
      (laggingPartitions round targets).isEmpty := by
  induction rounds generalizing table with
  | nil => cases finished
  | cons round rounds ih =>
    rw [scanLoop] at finished
    cases polled : round.polled with
    | error =>
      rw [polled] at finished
      cases finished
    | ok =>
      simp only [polled] at finished
      split at finished
      · rename_i caughtUp
        refine ⟨[], round, rounds, rfl, rfl, ?_, caughtUp⟩
        simp only [nil_append, scanLoop, polled, if_pos caughtUp]
      · rename_i behind
        split at finished
        · cases finished
        · rename_i early
          obtain ⟨before, last, after, rfl, running, ended, caughtUp⟩ := ih finished
          refine ⟨round :: before, last, after, rfl, ?_, ?_, caughtUp⟩
          · simp only [scanLoop, polled, if_neg behind, if_neg early]
            exact running
          · simp only [cons_append, scanLoop, polled, if_neg behind, if_neg early]
            exact ended

/-- The assignment is empty or has every partition that had records when the scan began. -/
def ScanRound.Whole (ends : EndOffsets) (round : ScanRound) : Prop :=
  round.assigned = [] ∨
    ∀ p offset, ends.lookup p = some (.ok offset) → 0 < offset → p ∈ round.assigned

/-- If no partition of the snapshot is missing from the assignment in the round that ends a scan with
`Ok`, or none is assigned then, that round has seen every partition with records at its end offset. -/
theorem finished_scan_is_complete {topic : String} {timeout : Duration} {assigned : List Int}
    {ends : EndOffsets} {now : Instant} {table : CompactedTable} {rounds : List ScanRound}
    (whole : ∀ before last, (before ++ [last]) <+: rounds →
      (runScan topic timeout assigned (.ok ends) now table before).1 = none →
      (runScan topic timeout assigned (.ok ends) now table (before ++ [last])).1 = some (.ok ()) →
      last.Whole ends)
    (finished : (runScan topic timeout assigned (.ok ends) now table rounds).1 = some (.ok ()))
    (records : ∃ p offset, ends.lookup p = some (.ok offset) ∧ 0 < offset) :
    ∃ before last after, rounds = before ++ last :: after ∧
      (runScan topic timeout assigned (.ok ends) now table before).1 = none ∧
      ∀ p offset, ends.lookup p = some (.ok offset) → 0 < offset → last.Reports p offset := by
  unfold runScan at finished whole ⊢
  split at finished
  · cases finished
  rename_i some
  simp only [if_neg some, Except.bind] at finished whole ⊢
  split at finished
  · cases finished
  rename_i targets read
  simp only [read] at whole
  obtain ⟨q, high, known, positive⟩ := records
  have nonempty : ¬ targets.entries.all (·.2 ≤ 0) := by
    intro allEmpty
    have there := AList.mem_lookup_iff.mp (lookup_scanTargets read known)
    have low := all_eq_true.mp allEmpty _ there
    exact Int.not_le.mpr positive (of_decide_eq_true low)
  simp only [if_neg nonempty] at finished whole ⊢
  obtain ⟨before, last, after, rfl, running, ended, caughtUp⟩ := last_round_of_scanLoop finished
  refine ⟨before, last, after, rfl, running, fun p offset known positive => ?_⟩
  have wanted : (targets.retain fun _ hwm => 0 < hwm).lookup p = Option.some offset := by
    simp [AList.lookup_retain, lookup_scanTargets read known, positive, Option.filter]
  refine reports_of_laggingPartitions caughtUp wanted positive ?_
  have held := whole before last ⟨after, by simp⟩ running ended
  exact held.imp_right fun all => all p offset known positive

def sampleEnds : EndOffsets := AList.insert 0 (.ok 5) (AList.insert 1 (.ok 5) ∅)

def sampleScanRound (assigned : List Int) : ScanRound := ⟨.ok [], assigned, fun _ => some 5, 1⟩

theorem sample_scan_is_complete : ∃ before last after,
    [sampleScanRound [0, 1]] = before ++ last :: after ∧
      (runScan "t" 300 [0, 1] (.ok sampleEnds) 0 {} before).1 = none ∧
      ∀ p offset, sampleEnds.lookup p = some (.ok offset) → 0 < offset → last.Reports p offset := by
  refine finished_scan_is_complete (fun before last begins _ _ => ?_) rfl ⟨0, 5, rfl, by decide⟩
  cases mem_singleton.mp (begins.subset (mem_append_right before (mem_singleton_self _)))
  refine .inr fun p offset known _ => ?_
  by_cases first : p = 0
  · simp [sampleScanRound, first]
  · by_cases second : p = 1
    · simp [sampleScanRound, second]
    · rw [sampleEnds, AList.lookup_insert_ne first, AList.lookup_insert_ne second] at known
      cases known

/-- The scan ends with `Ok` although partition 1 has left the assignment and was never read. -/
theorem scan_ignores_lost_partition :
    (runScan "t" 300 [0, 1] (.ok sampleEnds) 0 {} [sampleScanRound [0]]).1 = some (.ok ()) ∧
      sampleEnds.lookup 1 = some (.ok 5) ∧ ¬ (sampleScanRound [0]).Reports 1 5 := by
  refine ⟨rfl, rfl, ?_⟩
  rintro ⟨place, held, -⟩
  have there : (1 : Int) ∈ [0] := mem_of_getElem? held
  simp at there

/-! What the table holds -/

/-- What is known of a key after the records, if `before` was known of it. -/
def latest (key : List UInt8) (records : List ConsumerRecord) (before : Option CompactedEntry) :
    Option CompactedEntry :=
  match (records.filter (·.key = some key)).getLast? with
  | none => before
  | some record => record.value.map (⟨·, record.timestamp, record.offset, record.partition⟩)

/-- The table says of every key what the last record with that key says; a tombstone says
nothing, and records without keys or with other keys do not matter. -/
theorem table_keeps_latest (table : CompactedTable) (key : List UInt8)
    (records : List ConsumerRecord) :
    (table.ingest records).entries.lookup key = latest key records (table.entries.lookup key) := by
  induction records using List.reverseRecOn with
  | nil => rfl
  | append_singleton records record ih =>
    rw [CompactedTable.ingest, foldl_concat, ← CompactedTable.ingest, latest,
      filter_append]
    by_cases keyed : record.key = some key
    · cases value : record.value <;> simp [keyed, value, CompactedTable.ingestKeyedRecord]
    · rw [filter_cons_of_neg (by simpa using keyed), filter_nil, append_nil,
        ← latest, ← ih]
      cases other : record.key with
      | none => rfl
      | some k =>
        have ne : key ≠ k := fun eq => keyed (eq ▸ other)
        cases value : record.value <;> simp [value, CompactedTable.ingestKeyedRecord, ne]

end Krafka.Consumer
