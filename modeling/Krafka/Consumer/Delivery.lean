import Krafka.Consumer.Operations
import Mathlib.Data.List.Chain
import Mathlib.Data.List.Rotate

/-! How records flow through a partition: from an accepted fetch into the buffer, out in a
delivery, and from there to the application or back. Under one version of the partition
every accepted record is in exactly one of these places. -/

namespace Krafka.Consumer

open List Relation SubscriptionState

/-! Deliveries by partition -/

def chunks : List DeliveredPartition → List ConsumerRecord →
    List (DeliveredPartition × List ConsumerRecord)
  | [], _ => []
  | part :: parts, records =>
    (part, records.take part.count) :: chunks parts (records.drop part.count)

theorem map_fst_chunks (parts : List DeliveredPartition) (records : List ConsumerRecord) :
    (chunks parts records).map (·.1) = parts := by
  induction parts generalizing records with
  | nil => rfl
  | cons part parts ih => simp [chunks, ih]

theorem chunks_append {parts : List DeliveredPartition} {records : List ConsumerRecord}
    (covers : (parts.map (·.count)).sum = records.length) (part : DeliveredPartition)
    (more : List ConsumerRecord) (all : part.count = more.length) :
    chunks (parts ++ [part]) (records ++ more) = chunks parts records ++ [(part, more)] := by
  induction parts generalizing records with
  | nil =>
    have none : records = [] := length_eq_zero_iff.mp covers.symm
    simp [chunks, none, all]
  | cons first parts ih =>
    rw [map_cons, sum_cons] at covers
    have fits : first.count ≤ records.length := by omega
    have rest : (parts.map (·.count)).sum = (records.drop first.count).length := by
      rw [length_drop]
      omega
    simp only [cons_append, chunks, take_append_of_le_length fits,
      drop_append_of_le_length fits, ih rest]

def chunksFor (key : PartitionKey) (version : Nat)
    (all : List (DeliveredPartition × List ConsumerRecord)) : List (List ConsumerRecord) :=
  (all.filter fun chunk => chunk.1.key = key ∧ chunk.1.version = version).map (·.2)

def Delivery.carries (delivery : Delivery) (key : PartitionKey) (version : Nat) :
    List (List ConsumerRecord) :=
  chunksFor key version (chunks delivery.partitions delivery.records)

theorem chunksFor_append (key : PartitionKey) (version : Nat)
    (all more : List (DeliveredPartition × List ConsumerRecord)) :
    chunksFor key version (all ++ more) = chunksFor key version all ++ chunksFor key version more := by
  simp [chunksFor]

theorem chunksFor_eq_nil {key : PartitionKey} {version : Nat}
    {all : List (DeliveredPartition × List ConsumerRecord)}
    (absent : ∀ chunk ∈ all, chunk.1.key = key → chunk.1.version ≠ version) :
    chunksFor key version all = [] := by
  simpa [chunksFor] using absent

theorem carries_eq_nil {delivery : Delivery} {key : PartitionKey} {version : Nat}
    (absent : ∀ part ∈ delivery.partitions, part.key = key → part.version ≠ version) :
    delivery.carries key version = [] := by
  apply chunksFor_eq_nil
  intro chunk mem
  refine absent _ ?_
  rw [← map_fst_chunks delivery.partitions delivery.records]
  exact mem_map_of_mem mem

theorem carries_add (delivery : Delivery) (key k : PartitionKey) (version v : Nat)
    (taken : List ConsumerRecord) :
    (delivery.add key version taken).carries k v =
      delivery.carries k v ++ if k = key ∧ v = version then [taken] else [] := by
  have split := chunks_append delivery.covers ⟨key, version, taken.length⟩ taken rfl
  rw [Delivery.carries, Delivery.add, split, chunksFor_append]
  congr 1
  by_cases same : k = key ∧ v = version
  · simp [chunksFor, same]
  · rw [if_neg same]
    apply chunksFor_eq_nil
    rintro _ (_ | ⟨_, ⟨⟩⟩) rfl rfl
    exact same ⟨rfl, rfl⟩

/-! What happened to a partition under one version -/

def acceptedUnder (key : PartitionKey) (version : Nat) (history : List Event) :
    List (Offset × CompletedFetch) :=
  history.filterMap fun
    | .accepted k v offset fetch => if k = key ∧ v = version then some (offset, fetch) else none
    | .handed .. => none

def handedUnder (key : PartitionKey) (version : Nat) (history : List Event) :
    List ConsumerRecord :=
  history.flatMap fun
    | .handed k v records => if k = key ∧ v = version then records else []
    | .accepted .. => []

def Event.version : Event → Nat
  | .accepted _ version _ _ | .handed _ version _ => version

def Event.key : Event → PartitionKey
  | .accepted key _ _ _ | .handed key _ _ => key

theorem acceptedUnder_append (key : PartitionKey) (version : Nat) (history more : List Event) :
    acceptedUnder key version (history ++ more) =
      acceptedUnder key version history ++ acceptedUnder key version more :=
  filterMap_append ..

theorem handedUnder_append (key : PartitionKey) (version : Nat) (history more : List Event) :
    handedUnder key version (history ++ more) =
      handedUnder key version history ++ handedUnder key version more :=
  flatMap_append

theorem acceptedUnder_eq_nil {key : PartitionKey} {version : Nat} {history : List Event}
    (absent : ∀ event ∈ history, event.key = key → event.version ≠ version) :
    acceptedUnder key version history = [] := by
  refine filterMap_eq_nil_iff.mpr fun event mem => ?_
  have apart := absent event mem
  cases event with
  | accepted => exact if_neg fun same => apart same.1 same.2
  | handed => rfl

theorem handedUnder_eq_nil {key : PartitionKey} {version : Nat} {history : List Event}
    (absent : ∀ event ∈ history, event.key = key → event.version ≠ version) :
    handedUnder key version history = [] := by
  refine flatMap_eq_nil_iff.mpr fun event mem => ?_
  have apart := absent event mem
  cases event with
  | handed => exact if_neg fun same => apart same.1 same.2
  | accepted => rfl

def positionAfter (offset : Offset) (fetch : CompletedFetch) (done rest : List ConsumerRecord) :
    Offset :=
  let handed := (done.getLast?.map fun last => after last.offset).getD offset
  if rest = [] then max handed fetch.nextOffset else handed

def FollowsOn (first second : Offset × CompletedFetch) : Prop :=
  second.1 = positionAfter first.1 first.2 first.2.records []

inductive Holds (r : PartitionRecord) (fetch : CompletedFetch) :
    List ConsumerRecord → List (List ConsumerRecord) → Prop where
  | usedUp (buffered : r.buffered = none) (delivering : r.delivering = false) : Holds r fetch [] []
  | ready {rest} (nonempty : rest ≠ []) (buffered : r.buffered = some { fetch with records := rest })
      (delivering : r.delivering = false) : Holds r fetch rest []
  | leaving {chunk tail} (nonempty : chunk ≠ [])
      (buffered : r.buffered = some { fetch with records := tail })
      (delivering : r.delivering) : Holds r fetch (chunk ++ tail) [chunk]

inductive Flow (r : PartitionRecord) : List (Offset × CompletedFetch) → List ConsumerRecord →
    List (List ConsumerRecord) → Prop where
  | untouched (buffered : r.buffered = none) (delivering : r.delivering = false) : Flow r [] [] []
  | fetched {past offset fetch done rest out}
      (chained : (past ++ [(offset, fetch)]).IsChain FollowsOn)
      (records : fetch.records = done ++ rest)
      (position : r.position = some (positionAfter offset fetch done rest))
      (holds : Holds r fetch rest out) :
      Flow r (past ++ [(offset, fetch)]) (past.flatMap (·.2.records) ++ done) out

section Flow

variable {r r' : PartitionRecord} {accepted : List (Offset × CompletedFetch)}
  {handed : List ConsumerRecord} {out : List (List ConsumerRecord)}

theorem Holds.congr {fetch : CompletedFetch} {rest : List ConsumerRecord}
    (buffered : r'.buffered = r.buffered) (delivering : r'.delivering = r.delivering)
    (holds : Holds r fetch rest out) : Holds r' fetch rest out := by
  cases holds with
  | usedUp b d => exact .usedUp (buffered.trans b) (delivering.trans d)
  | ready some b d => exact .ready some (buffered.trans b) (delivering.trans d)
  | leaving some b d => exact .leaving some (buffered.trans b) (delivering.trans d)

theorem Flow.congr (same : r'.core = r.core) (flow : Flow r accepted handed out) :
    Flow r' accepted handed out := by
  simp only [PartitionRecord.core, Prod.mk.injEq] at same
  obtain ⟨-, position, delivering, buffered⟩ := same
  cases flow with
  | untouched b d => exact .untouched (buffered.trans b) (delivering.trans d)
  | fetched chained records at_ holds =>
    exact .fetched chained records (position.trans at_) (holds.congr buffered delivering)

theorem Flow.place {offset : Offset} (unplaced : r.position = none)
    (core : r'.core = (r.version, some offset, r.delivering, r.buffered))
    (flow : Flow r accepted handed out) : Flow r' accepted handed out := by
  simp only [PartitionRecord.core, Prod.mk.injEq] at core
  obtain ⟨-, -, delivering, buffered⟩ := core
  cases flow with
  | untouched b d => exact .untouched (buffered.trans b) (delivering.trans d)
  | fetched _ _ position => simp [unplaced] at position

theorem Flow.of_idle (buffered : r.buffered = none) (flow : Flow r accepted handed out) :
    handed = accepted.flatMap (·.2.records) ∧ out = [] ∧ accepted.IsChain FollowsOn ∧
      ∀ last ∈ accepted.getLast?,
        r.position = some (positionAfter last.1 last.2 last.2.records []) := by
  cases flow with
  | untouched => exact ⟨rfl, rfl, .nil, by simp⟩
  | fetched chained records position holds =>
    cases holds with
    | usedUp =>
      rw [append_nil] at records
      exact ⟨by simp [records], rfl, chained, by simpa [records] using position⟩
    | ready some b | leaving some b => simp [buffered] at b

theorem Flow.length_out (flow : Flow r accepted handed out) : out.length ≤ 1 := by
  cases flow with
  | untouched => exact Nat.zero_le _
  | fetched _ _ _ holds => cases holds <;> simp

theorem Flow.install {offset : Offset} {fetch : CompletedFetch} (buffered : r.buffered = none)
    (position : r.position = some offset)
    (position' : r'.position = some (positionAfter offset fetch [] fetch.records))
    (holds : Holds r' fetch fetch.records []) (flow : Flow r accepted handed out) :
    Flow r' (accepted ++ [(offset, fetch)]) handed out := by
  obtain ⟨all, rfl, chained, ended⟩ := flow.of_idle buffered
  have longer : (accepted ++ [(offset, fetch)]).IsChain FollowsOn := by
    refine isChain_append.mpr ⟨chained, isChain_singleton _, ?_⟩
    rintro last mem _ ⟨⟩
    exact Option.some.inj (position.symm.trans (ended last mem))
  have next : Flow r' (accepted ++ [(offset, fetch)]) (accepted.flatMap (·.2.records) ++ []) [] :=
    .fetched longer (nil_append _).symm position' holds
  rwa [append_nil, ← all] at next

theorem Flow.take {fetch : CompletedFetch} {n : Nat} (buffered : r.buffered = some fetch)
    (delivering : r.delivering = false) (nonempty : fetch.records ≠ []) (positive : 0 < n)
    (flow : Flow r accepted handed out) :
    out = [] ∧
      Flow { r with
          buffered := some { fetch with records := fetch.records.drop n }
          delivering := true }
        accepted handed [fetch.records.take n] := by
  cases flow with
  | untouched b => simp [buffered] at b
  | @fetched past offset fetch' done rest out chained records position holds =>
    cases holds with
    | usedUp b => simp [buffered] at b
    | leaving some b d => simp [delivering] at d
    | ready some b =>
      obtain rfl : fetch = { fetch' with records := rest } := by
        simpa [buffered] using b
      refine ⟨rfl, ?_⟩
      have cut : rest = rest.take n ++ rest.drop n := (take_append_drop n rest).symm
      have taken : rest.take n ≠ [] := by
        simp only [ne_eq, take_eq_nil_iff, not_or]
        exact ⟨by omega, some⟩
      refine .fetched chained records position ?_
      conv => arg 3; rw [cut]
      exact .leaving taken rfl rfl

theorem getLast?_append_map (done delivered : List ConsumerRecord) (offset : Offset) :
    ((done ++ delivered).getLast?.map fun last => after last.offset).getD offset =
      (delivered.getLast?.map fun last => after last.offset).getD
        ((done.getLast?.map fun last => after last.offset).getD offset) := by
  rw [List.getLast?_append]
  cases delivered.getLast? <;> rfl

theorem position_advance {offset : Offset} (position : r.position = some offset)
    (delivered : List ConsumerRecord) :
    (r.advance delivered).position =
      some ((delivered.getLast?.map fun last => after last.offset).getD offset) := by
  unfold PartitionRecord.advance
  cases delivered.getLast? with
  | none => exact position
  | some => rfl

theorem advance_eq (r : PartitionRecord) (delivered : List ConsumerRecord) :
    (r.advance delivered).version = r.version ∧ (r.advance delivered).delivering = r.delivering ∧
      (r.advance delivered).buffered = r.buffered := by
  unfold PartitionRecord.advance
  split <;> exact ⟨rfl, rfl, rfl⟩

theorem putBack_eq {fetch : CompletedFetch} {offset : Offset} (buffered : r.buffered = some fetch)
    (position : r.position = some offset) (back : List ConsumerRecord) :
    let records := back ++ fetch.records
    (r.putBack back).version = r.version ∧ (r.putBack back).delivering = r.delivering ∧
      (r.putBack back).position =
        some (if records = [] then max offset fetch.nextOffset else offset) ∧
      (r.putBack back).buffered = if records = [] then none else some { fetch with records } := by
  intro records
  unfold PartitionRecord.putBack
  rw [buffered]
  by_cases empty : records = []
  · by_cases behind : offset < fetch.nextOffset
    · simp [records, empty, position, behind, behind.le]
    · simp [records, empty, position, behind, not_lt.mp behind]
  · simp [records, empty, position]

theorem settle_eq {fetch : CompletedFetch} {offset : Offset} (buffered : r.buffered = some fetch)
    (position : r.position = some offset) (delivered rest : List ConsumerRecord) :
    let records := rest ++ fetch.records
    let handed := (delivered.getLast?.map fun last => after last.offset).getD offset
    (r.settle delivered rest).version = r.version ∧ (r.settle delivered rest).delivering = false ∧
      (r.settle delivered rest).position =
        some (if records = [] then max handed fetch.nextOffset else handed) ∧
      (r.settle delivered rest).buffered =
        if records = [] then none else some { fetch with records } := by
  intro records handed
  let idle := { r with delivering := false }
  obtain ⟨version, delivering, same⟩ := advance_eq idle delivered
  obtain ⟨version', delivering', rest⟩ :=
    putBack_eq (same.trans buffered) (position_advance (r := idle) position delivered) rest
  exact ⟨version'.trans version, delivering'.trans delivering, rest⟩

theorem version_settle (r : PartitionRecord) (delivered rest : List ConsumerRecord) :
    (r.settle delivered rest).version = r.version := by
  have put (r : PartitionRecord) : (r.putBack rest).version = r.version := by
    simp only [PartitionRecord.putBack]
    split
    · rfl
    · split
      · split <;> rfl
      · rfl
  exact (put _).trans (advance_eq _ delivered).1

theorem Flow.settle {chunk : List ConsumerRecord} (n : Nat)
    (flow : Flow r accepted handed [chunk]) :
    Flow (r.settle (chunk.take n) (chunk.drop n)) accepted (handed ++ chunk.take n) [] := by
  cases flow with
  | @fetched past offset fetch done rest out chained records position holds =>
    cases holds with
    | @leaving chunk tail some buffered =>
      obtain ⟨-, idle, moved, put⟩ := settle_eq buffered position (chunk.take n) (chunk.drop n)
      rw [append_assoc]
      have unsplit : fetch.records = (done ++ chunk.take n) ++ (chunk.drop n ++ tail) := by
        rw [records, append_assoc, ← append_assoc (chunk.take n), take_append_drop]
      have before : positionAfter offset fetch done (chunk ++ tail) =
          (done.getLast?.map fun last => after last.offset).getD offset :=
        if_neg (by simp [some])
      refine .fetched chained unsplit ?_ ?_
      · rw [moved, before, ← getLast?_append_map]
        rfl
      · by_cases empty : chunk.drop n ++ tail = []
        · rw [if_pos empty] at put
          rw [empty]
          exact .usedUp put idle
        · rw [if_neg empty] at put
          exact .ready empty put idle

theorem Change.flow {before after : Nat} {o : Option PartitionRecord}
    (change : Change before after o (some r)) :
    (before < r.version ∧ r.version ≤ after ∧ Flow r [] [] []) ∨
      ∃ old, o = some old ∧ r.version = old.version ∧
        ∀ accepted handed out, Flow old accepted handed out → Flow r accepted handed out := by
  cases change with
  | kept same =>
    obtain ⟨old, rfl, core⟩ := Option.map_eq_some_iff.mp same.symm
    exact .inr ⟨old, rfl, congrArg Prod.fst core.symm, fun _ _ _ => Flow.congr core.symm⟩
  | renewed fresh known empty idle => exact .inl ⟨fresh, known, .untouched empty idle⟩
  | placed unplaced core =>
    exact .inr ⟨_, rfl, congrArg Prod.fst core, fun _ _ _ => Flow.place unplaced core⟩

end Flow

/-! Taking a delivery, seen from one partition -/

inductive Taken (keys : List PartitionKey) (key : PartitionKey) (d d' : Delivery)
    (s s' : SubscriptionState) : Prop where
  | left (same : s'.partitions.lookup key = s.partitions.lookup key)
      (carries : ∀ version, d'.carries key version = d.carries key version)
  | taken {r : PartitionRecord} {fetch : CompletedFetch} {n : Nat} (mem : key ∈ keys)
      (found : s.partitions.lookup key = some r) (buffered : r.buffered = some fetch)
      (positive : 0 < n)
      (now : s'.partitions.lookup key = some { r with
        buffered := some { fetch with records := fetch.records.drop n }
        delivering := true })
      (carries : ∀ version, d'.carries key version =
        d.carries key version ++ if version = r.version then [fetch.records.take n] else [])

open SubscriptionState in
theorem takeFrom_cases (max : Nat) (d : Delivery) (s : SubscriptionState) (key : PartitionKey) :
    takeFrom max (d, s) key = (d, s) ∨
      ∃ r fetch n, s.partitions.lookup key = some r ∧ r.buffered = some fetch ∧ 0 < n ∧
        takeFrom max (d, s) key = (d.add key r.version (fetch.records.take n), s.put key { r with
          buffered := some { fetch with records := fetch.records.drop n }
          delivering := true }) := by
  simp only [takeFrom]
  split
  · exact .inl rfl
  · rename_i room
    split
    · exact .inl rfl
    · rename_i r found
      split
      · exact .inl rfl
      · rename_i fetch buffered
        exact .inr ⟨r, fetch, _, found, buffered, Nat.pos_of_ne_zero room, rfl⟩

theorem takeFrom_foldl (max : Nat) {keys : List PartitionKey} (nodup : keys.Nodup) (d : Delivery)
    (s : SubscriptionState) (apart : ∀ part ∈ d.partitions, part.key ∉ keys)
    (distinct : (d.partitions.map (·.key)).Nodup) :
    let taken := keys.foldl (takeFrom max) (d, s)
    taken.2.counter = s.counter ∧ (taken.1.partitions.map (·.key)).Nodup ∧
      (∀ part ∈ taken.1.partitions, part ∈ d.partitions ∨
        ∃ r, s.partitions.lookup part.key = some r ∧ part.version = r.version) ∧
      ∀ key, Taken keys key d taken.1 s taken.2 := by
  induction keys generalizing d s with
  | nil => exact ⟨rfl, distinct, fun _ => .inl, fun key => .left rfl fun _ => rfl⟩
  | cons head keys ih =>
    obtain ⟨fresh, nodup⟩ := nodup_cons.mp nodup
    have later : ∀ part ∈ d.partitions, part.key ∉ keys := fun part mem inside =>
      apart part mem (mem_cons_of_mem _ inside)
    rw [foldl_cons]
    rcases takeFrom_cases max d s head with skipped | ⟨r, fetch, n, found, buffered, positive, now⟩
    · rw [skipped]
      obtain ⟨version, parts, origin, each⟩ := ih nodup d s later distinct
      refine ⟨version, parts, origin, fun key => ?_⟩
      cases each key with
      | left same carries => exact .left same carries
      | taken mem found buffered positive now carries =>
        exact .taken (mem_cons_of_mem _ mem) found buffered positive now carries
    · rw [now]
      have unlisted : head ∉ d.partitions.map (·.key) := by
        intro mem
        obtain ⟨part, inside, rfl⟩ := mem_map.mp mem
        exact apart part inside mem_cons_self
      have apart' : ∀ part ∈ (d.add head r.version (fetch.records.take n)).partitions,
          part.key ∉ keys := by
        intro part mem
        rcases mem_append.mp mem with old | new
        · exact later part old
        · rw [mem_singleton.mp new]
          exact fresh
      have distinct' : ((d.add head r.version (fetch.records.take n)).partitions.map
          (·.key)).Nodup := by
        simpa [Delivery.add, nodup_append, distinct] using unlisted
      obtain ⟨version, parts, origin, each⟩ := ih nodup _ (s.put head _) apart' distinct'
      refine ⟨version, parts, fun part mem => ?_, fun key => ?_⟩
      · rcases origin part mem with old | ⟨r', found', same⟩
        · rcases mem_append.mp old with old | new
          · exact .inl old
          · rw [mem_singleton.mp new]
            exact .inr ⟨r, found, rfl⟩
        · rw [lookup_put] at found'
          split at found'
          · rename_i here
            cases found'
            exact .inr ⟨r, here ▸ found, same⟩
          · exact .inr ⟨r', found', same⟩
      · by_cases here : key = head
        · subst here
          cases each key with
          | taken mem => exact absurd mem fresh
          | left same carries =>
            refine .taken mem_cons_self found buffered positive
              (same.trans (by rw [lookup_put, if_pos rfl])) fun version => ?_
            rw [carries, carries_add]
            simp
        · have elsewhere (r' : PartitionRecord) :
              (s.put head r').partitions.lookup key = s.partitions.lookup key := by
            rw [lookup_put, if_neg here]
          have unchanged (version : Nat) :
              (d.add head r.version (fetch.records.take n)).carries key version =
                d.carries key version := by
            simp [carries_add, here]
          cases each key with
          | left same carries =>
            exact .left (same.trans (elsewhere _)) fun v => (carries v).trans (unchanged v)
          | taken mem found buffered positive now carries =>
            refine .taken (mem_cons_of_mem _ mem) ((elsewhere _).symm.trans found) buffered
              positive now fun v => ?_
            rw [carries, unchanged]

/-! Completing a delivery, seen from one partition -/

inductive Completed (key : PartitionKey) (all : List (DeliveredPartition × List ConsumerRecord))
    (out : List (DeliveredPartition × List ConsumerRecord)) (s s' : SubscriptionState) : Prop where
  | left (same : s'.partitions.lookup key = s.partitions.lookup key)
      (absent : ∀ r, s.partitions.lookup key = some r → chunksFor key r.version all = [])
      (silent : ∀ version, handedUnder key version (out.map .ofDelivered) = [])
  | settled {r : PartitionRecord} {chunk : List ConsumerRecord} {n : Nat}
      (found : s.partitions.lookup key = some r) (carried : chunksFor key r.version all = [chunk])
      (now : s'.partitions.lookup key = some (r.settle (chunk.take n) (chunk.drop n)))
      (handed : handedUnder key r.version (out.map .ofDelivered) = chunk.take n)

theorem chunksFor_cons (key : PartitionKey) (version : Nat) (part : DeliveredPartition)
    (chunk : List ConsumerRecord) (all : List (DeliveredPartition × List ConsumerRecord)) :
    chunksFor key version ((part, chunk) :: all) =
      (if part.key = key ∧ part.version = version then [chunk] else []) ++
        chunksFor key version all := by
  by_cases same : part.key = key ∧ part.version = version
  · simp [chunksFor, same]
  · simp [chunksFor, same]

theorem handedUnder_cons (key : PartitionKey) (version : Nat) (part : DeliveredPartition)
    (records : List ConsumerRecord) (out : List (DeliveredPartition × List ConsumerRecord)) :
    handedUnder key version (((part, records) :: out).map .ofDelivered) =
      (if part.key = key ∧ part.version = version then records else []) ++
        handedUnder key version (out.map .ofDelivered) := rfl

theorem chunksFor_eq_nil_of_notMem {key : PartitionKey} {parts : List DeliveredPartition}
    (absent : key ∉ parts.map (·.key)) (version : Nat) (records : List ConsumerRecord) :
    chunksFor key version (chunks parts records) = [] := by
  apply chunksFor_eq_nil
  rintro chunk mem rfl
  have part := mem_map_of_mem (f := Prod.fst) mem
  rw [map_fst_chunks] at part
  exact absurd (mem_map_of_mem part) absent

theorem Completed.passOver {key : PartitionKey} {part : DeliveredPartition}
    {chunk : List ConsumerRecord} {all out : List (DeliveredPartition × List ConsumerRecord)}
    {s s' : SubscriptionState}
    (stale : ∀ r, s.partitions.lookup part.key = some r → r.version ≠ part.version)
    (tail : Completed key all out s s') : Completed key ((part, chunk) :: all) out s s' := by
  have same (r : PartitionRecord) (found : s.partitions.lookup key = some r) :
      chunksFor key r.version ((part, chunk) :: all) = chunksFor key r.version all := by
    rw [chunksFor_cons, if_neg, nil_append]
    rintro ⟨rfl, version⟩
    exact stale r found version.symm
  cases tail with
  | left same' absent silent =>
    exact .left same' (fun r found => (same r found).trans (absent r found)) silent
  | settled found carried now handed => exact .settled found ((same _ found).trans carried) now handed

theorem completeParts_completed {parts : List DeliveredPartition}
    (distinct : (parts.map (·.key)).Nodup) (s : SubscriptionState) (records : List ConsumerRecord)
    (n : Nat) :
    let completed := s.completeParts parts records n
    completed.2.counter = s.counter ∧ (∀ delivered ∈ completed.1, delivered.1 ∈ parts) ∧
      ∀ key, Completed key (chunks parts records) completed.1 s completed.2 := by
  induction parts generalizing s records n with
  | nil => exact ⟨rfl, by simp [completeParts],
      fun key => .left rfl (fun _ _ => rfl) fun _ => rfl⟩
  | cons part parts ih =>
    rw [map_cons, nodup_cons] at distinct
    obtain ⟨fresh, distinct⟩ := distinct
    simp only [completeParts, chunks]
    split
    · rename_i gone
      obtain ⟨version, origin, each⟩ := ih distinct s (records.drop part.count) _
      exact ⟨version, fun _ mem => mem_cons_of_mem _ (origin _ mem),
        fun key => (each key).passOver (by simp [gone])⟩
    · rename_i r found
      split
      · rename_i stale
        obtain ⟨version, origin, each⟩ := ih distinct s (records.drop part.count) _
        exact ⟨version, fun _ mem => mem_cons_of_mem _ (origin _ mem),
          fun key => (each key).passOver (by simpa [found] using stale)⟩
      · rename_i current
        rw [not_not] at current
        obtain ⟨version, origin, each⟩ := ih distinct (s.put part.key _) (records.drop part.count) _
        refine ⟨version, ?_, fun key => ?_⟩
        · rintro delivered (_ | ⟨_, mem⟩)
          · exact mem_cons_self
          · exact mem_cons_of_mem _ (origin _ mem)
        · by_cases here : key = part.key
          · subst here
            have alone (v : Nat) := chunksFor_eq_nil_of_notMem fresh v (records.drop part.count)
            cases each part.key with
            | settled _ carried => simp [alone] at carried
            | left same _ silent =>
              refine .settled found ?_ (same.trans (by rw [lookup_put, if_pos rfl])) ?_
              · rw [chunksFor_cons, if_pos ⟨rfl, current.symm⟩, alone]
                rfl
              · rw [handedUnder_cons, if_pos ⟨rfl, current.symm⟩, silent, append_nil]
          · have elsewhere (r' : PartitionRecord) :
                (s.put part.key r').partitions.lookup key = s.partitions.lookup key := by
              rw [lookup_put, if_neg here]
            have other (v : Nat) : ¬ (part.key = key ∧ part.version = v) :=
              fun same => here same.1.symm
            cases each key with
            | left same absent silent =>
              rw [elsewhere] at same absent
              refine .left same (fun r' found' => ?_) fun v => ?_
              · rw [chunksFor_cons, if_neg (other _), nil_append, absent r' found']
              · rw [handedUnder_cons, if_neg (other _), nil_append, silent]
            | settled found carried now handed =>
              rw [elsewhere] at found
              refine .settled found ?_ now ?_
              · rw [chunksFor_cons, if_neg (other _), nil_append, carried]
              · rw [handedUnder_cons, if_neg (other _), nil_append, handed]

/-! Runs -/

def Client.leaving (c : Client) (key : PartitionKey) (version : Nat) : List (List ConsumerRecord) :=
  c.outstanding.flatMap (·.carries key version)

structure Sound (c : Client) : Prop where
  known : ∀ key r, c.state.partitions.lookup key = some r → r.version ≤ c.state.nextVersion
  heard : ∀ event ∈ c.history, event.version ≤ c.state.nextVersion
  taken : ∀ d ∈ c.outstanding, ∀ part ∈ d.partitions, part.version ≤ c.state.nextVersion
  distinct : ∀ d ∈ c.outstanding, (d.partitions.map (·.key)).Nodup
  flow : ∀ key r, c.state.partitions.lookup key = some r →
    Flow r (acceptedUnder key r.version c.history) (handedUnder key r.version c.history)
      (c.leaving key r.version)

namespace Sound

variable {c : Client}

theorem untouched (sound : Sound c) (key : PartitionKey) {version : Nat}
    (fresh : c.state.nextVersion < version) :
    acceptedUnder key version c.history = [] ∧ handedUnder key version c.history = [] ∧
      c.leaving key version = [] := by
  have silent : ∀ event ∈ c.history, event.key = key → event.version ≠ version :=
    fun event mem _ => ((sound.heard event mem).trans_lt fresh).ne
  refine ⟨acceptedUnder_eq_nil silent, handedUnder_eq_nil silent, ?_⟩
  refine flatMap_eq_nil_iff.mpr fun d mem => carries_eq_nil fun part inside _ => ?_
  exact ((sound.taken d mem part inside).trans_lt fresh).ne

theorem moves (sound : Sound c) {s : SubscriptionState} (moves : Moves c.state s) :
    Sound { c with state := s } where
  known key r found := by
    rcases (found ▸ moves.change key).flow with ⟨-, known, -⟩ | ⟨old, before, version, -⟩
    · exact known
    · exact version ▸ (sound.known key old before).trans moves.version
  heard event mem := (sound.heard event mem).trans moves.version
  taken d mem part inside := (sound.taken d mem part inside).trans moves.version
  distinct := sound.distinct
  flow key r found := by
    show Flow r _ _ (c.leaving key r.version)
    rcases (found ▸ moves.change key).flow with ⟨fresh, -, flow⟩ | ⟨old, before, version, flow⟩
    · obtain ⟨accepted, handed, leaving⟩ := sound.untouched key fresh
      rwa [accepted, handed, leaving]
    · rw [version]
      exact flow _ _ _ (sound.flow key old before)

theorem all_moves (sound : Sound c) {s : SubscriptionState} (all : ReflTransGen Moves c.state s) :
    Sound { c with state := s } := by
  induction all with
  | refl => exact sound
  | tail _ one ih => exact ih.moves one

end Sound

theorem installFetch_cases (s : SubscriptionState) (target : FetchTarget) (fetch : CompletedFetch) :
    s.installFetch target fetch = (false, s) ∨
      ∃ r r', s.partitions.lookup target.key = some r ∧ r.version = target.version ∧
        r.position = some target.offset ∧ r.buffered = none ∧
        s.installFetch target fetch = (true, s.put target.key r') ∧
        r'.version = r.version ∧
        r'.position = some (positionAfter target.offset fetch [] fetch.records) ∧
        Holds r' fetch fetch.records [] := by
  unfold installFetch
  split
  · exact .inl rfl
  · rename_i r found
    split
    · exact .inl rfl
    · rename_i fits
      simp only [not_or, not_not, Bool.not_eq_true, Option.isSome_eq_false_iff,
        Option.isNone_iff_eq_none] at fits
      obtain ⟨version, position, buffered, delivering⟩ := fits
      refine .inr ⟨r, _, found, version, position, buffered, rfl, ?_⟩
      by_cases empty : fetch.records = []
      · by_cases later : target.offset < fetch.nextOffset
        · simp only [empty, isEmpty_nil, if_true, if_pos later]
          exact ⟨trivial, by simp [positionAfter, later.le], .usedUp buffered delivering⟩
        · simp only [empty, isEmpty_nil, if_true, if_neg later]
          exact ⟨trivial, by simp [positionAfter, not_lt.mp later, position], .usedUp buffered delivering⟩
      · simp only [List.isEmpty_iff, if_neg empty]
        exact ⟨trivial, by simp [positionAfter, empty, position], .ready empty rfl delivering⟩

theorem takeDelivery_cases (s : SubscriptionState) (max : Nat) :
    s.takeDelivery max = (none, s) ∨
      ∃ d s' keys, s.takeDelivery max = (some d, s') ∧ s'.counter = s.counter ∧
        (d.partitions.map (·.key)).Nodup ∧
        (∀ part ∈ d.partitions,
          ∃ r, s.partitions.lookup part.key = some r ∧ part.version = r.version) ∧
        (∀ key ∈ keys, (s.partitions.lookup key).any PartitionRecord.deliverable) ∧
        ∀ key, Taken keys key {} d s s' := by
  simp only [takeDelivery]
  split
  · exact .inl rfl
  · split
    · exact .inl rfl
    · right
      let ready := s.assignedKeys.filter fun key =>
        (s.partitions.lookup key).any PartitionRecord.deliverable
      let turned := { s with rotation := (s.rotation + 1) % usizeSpace }
      have nodup : (ready.rotate (s.rotation % ready.length)).Nodup := by
        rw [nodup_rotate]
        have keys : s.assignedKeys.Nodup :=
          (perm_insertionSort _ _).nodup_iff.mpr (AList.keys_nodup _)
        exact keys.filter _
      obtain ⟨version, distinct, origin, each⟩ :=
        takeFrom_foldl max nodup {} turned (by simp) (by simp)
      refine ⟨_, _, ready.rotate (s.rotation % ready.length), rfl, version, distinct, ?_, ?_, ?_⟩
      · intro part mem
        simpa using origin part mem
      · intro key mem
        exact (mem_filter.mp (mem_rotate.mp mem)).2
      · intro key
        cases each key with
        | left same carries => exact .left same carries
        | taken mem found buffered positive now carries =>
          exact .taken mem found buffered positive now carries

theorem exists_eraseIdx {α : Type} {l : List α} {i : Nat} {a : α} (at_ : l[i]? = some a) :
    ∃ front back, l = front ++ a :: back ∧ l.eraseIdx i = front ++ back := by
  obtain ⟨inside, rfl⟩ := List.getElem?_eq_some_iff.mp at_
  refine ⟨l.take i, l.drop (i + 1), ?_, eraseIdx_eq_take_drop_succ l i⟩
  rw [← drop_eq_getElem_cons, take_append_drop]

namespace Sound

variable {c : Client}

theorem install (sound : Sound c) (target : FetchTarget) (fetch : CompletedFetch) :
    Sound (c.step (.installFetch target fetch)) := by
  simp only [Client.step]
  rcases installFetch_cases c.state target fetch with
    rejected | ⟨r, r', found, current, position, buffered, installed, version, position', holds⟩
  · simpa [rejected] using sound
  · simp only [installed, if_true]
    have event : (Event.accepted target.key target.version target.offset fetch).version =
      r.version := current.symm
    refine ⟨fun key q at_ => ?_, ?_, sound.taken, sound.distinct, fun key q at_ => ?_⟩
    · rw [lookup_put] at at_
      split at at_
      · cases at_
        exact version ▸ sound.known _ r found
      · exact sound.known key q at_
    · intro e mem
      rcases mem_append.mp mem with old | new
      · exact sound.heard e old
      · rw [mem_singleton.mp new, event]
        exact sound.known _ r found
    · show Flow q _ _ (c.leaving key q.version)
      rw [acceptedUnder_append, handedUnder_append]
      rw [lookup_put] at at_
      split at at_
      · rename_i here
        cases at_
        subst here
        rw [version]
        have flow := (sound.flow _ r found).install buffered position position' holds
        simpa [acceptedUnder, handedUnder, current] using flow
      · rename_i elsewhere
        have other : ¬ (target.key = key ∧ target.version = q.version) :=
          fun same => elsewhere same.1.symm
        simpa [acceptedUnder, handedUnder, other] using sound.flow key q at_

theorem take (sound : Sound c) (max : Nat) : Sound (c.step (.takeDelivery max)) := by
  simp only [Client.step]
  rcases takeDelivery_cases c.state max with
    nothing | ⟨d, s, keys, took, counted, distinct, origin, ready, each⟩
  · simpa [nothing] using sound
  · rw [took]
    have version : s.nextVersion = c.state.nextVersion := congrArg Prod.fst counted
    have known (key : PartitionKey) (r : PartitionRecord)
        (found : s.partitions.lookup key = some r) : r.version ≤ s.nextVersion := by
      rw [version]
      cases each key with
      | left same => exact sound.known key r (same.symm.trans found)
      | @taken old _ _ _ before _ _ now =>
        obtain rfl := Option.some.inj (now.symm.trans found)
        exact sound.known key old before
    have empty (key : PartitionKey) (v : Nat) : ({} : Delivery).carries key v = [] := rfl
    refine ⟨known, ?_, ?_, ?_, fun key r found => ?_⟩
    · exact fun e mem => version ▸ sound.heard e mem
    · intro d' mem part inside
      rcases mem_append.mp mem with old | new
      · exact version ▸ sound.taken d' old part inside
      · obtain rfl := mem_singleton.mp new
        obtain ⟨r, found, same⟩ := origin part inside
        exact version ▸ same ▸ sound.known _ r found
    · intro d' mem
      rcases mem_append.mp mem with old | new
      · exact sound.distinct d' old
      · obtain rfl := mem_singleton.mp new
        exact distinct
    · have both : Client.leaving { c with state := s, outstanding := c.outstanding ++ [d] } key
          r.version = c.leaving key r.version ++ d.carries key r.version := by
        simp [Client.leaving]
      show Flow r _ _ (Client.leaving { c with state := s, outstanding := c.outstanding ++ [d] } key
        r.version)
      rw [both]
      cases each key with
      | left same carries =>
        rw [carries, empty, append_nil]
        exact sound.flow key r (same.symm.trans found)
      | @taken old fetch n mem before buffered positive now carries =>
        obtain rfl := Option.some.inj (now.symm.trans found)
        have deliverable : old.deliverable = true := by simpa [before] using ready key mem
        simp only [PartitionRecord.deliverable, buffered, Bool.and_eq_true, Bool.not_eq_true',
          Option.any_some, isEmpty_eq_false_iff] at deliverable
        obtain ⟨nothing, flow⟩ := (sound.flow key old before).take buffered deliverable.1.2
          deliverable.2 positive
        rw [carries, empty, if_pos rfl, nothing]
        exact flow

theorem finish (sound : Sound c) (index handedOut : Nat) : Sound (c.finish index handedOut) := by
  unfold Client.finish
  split
  · exact sound
  · rename_i d at_
    obtain ⟨front, back, outstanding, erased⟩ := exists_eraseIdx at_
    have mem : d ∈ c.outstanding := by simp [outstanding]
    obtain ⟨counted, origin, each⟩ :=
      completeParts_completed (sound.distinct d mem) c.state d.records handedOut
    generalize c.state.completeParts d.partitions d.records handedOut = completed at *
    obtain ⟨out, s⟩ := completed
    have version : s.nextVersion = c.state.nextVersion := congrArg Prod.fst counted
    have remaining (d' : Delivery) (inside : d' ∈ c.outstanding.eraseIdx index) :
        d' ∈ c.outstanding := mem_of_mem_eraseIdx inside
    have whole (key : PartitionKey) (v : Nat) : c.leaving key v =
        front.flatMap (·.carries key v) ++ (d.carries key v ++ back.flatMap (·.carries key v)) := by
      simp [Client.leaving, outstanding]
    have rest (key : PartitionKey) (v : Nat) :
        (c.outstanding.eraseIdx index).flatMap (·.carries key v) =
          front.flatMap (·.carries key v) ++ back.flatMap (·.carries key v) := by
      simp [erased]
    have silent (key : PartitionKey) (v : Nat) :
        acceptedUnder key v (c.history ++ out.map .ofDelivered) = acceptedUnder key v c.history := by
      have none : acceptedUnder key v (out.map .ofDelivered) = [] := by
        simp [acceptedUnder, Event.ofDelivered]
      rw [acceptedUnder_append, none, append_nil]
    refine ⟨fun key r found => ?_, ?_, ?_, ?_, fun key r found => ?_⟩
    · show r.version ≤ s.nextVersion
      rw [version]
      cases each key with
      | left same => exact sound.known key r (same.symm.trans found)
      | @settled old _ _ before carried now =>
        obtain rfl := Option.some.inj (now.symm.trans found)
        exact version_settle old _ _ ▸ sound.known key old before
    · intro e inside
      show e.version ≤ s.nextVersion
      rw [version]
      rcases mem_append.mp inside with old | new
      · exact sound.heard e old
      · obtain ⟨delivered, from_, rfl⟩ := mem_map.mp new
        exact sound.taken d mem _ (origin delivered from_)
    · exact fun d' inside part mem => version ▸ sound.taken d' (remaining d' inside) part mem
    · exact fun d' inside => sound.distinct d' (remaining d' inside)
    · show Flow r (acceptedUnder key r.version (c.history ++ out.map .ofDelivered)) _
        ((c.outstanding.eraseIdx index).flatMap (·.carries key r.version))
      rw [silent, handedUnder_append, rest]
      cases each key with
      | left same absent quiet =>
        have before := same.symm.trans found
        have flow := sound.flow key r before
        rw [whole, show d.carries key r.version = [] from absent r before] at flow
        rw [quiet, append_nil]
        exact flow
      | @settled old chunk n before carried now handed =>
        have flow := sound.flow key old before
        rw [whole, show d.carries key old.version = [chunk] from carried] at flow
        -- At most one chunk is out under a version, so the other deliveries carry none.
        obtain ⟨none_, none'⟩ : front.flatMap (·.carries key old.version) = [] ∧
            back.flatMap (·.carries key old.version) = [] := by
          have one := flow.length_out
          simp only [length_append, length_singleton] at one
          exact ⟨length_eq_zero_iff.mp (by omega), length_eq_zero_iff.mp (by omega)⟩
        obtain rfl := Option.some.inj (now.symm.trans found)
        rw [none_, none'] at flow
        rw [version_settle, none_, none', handed]
        exact flow.settle n

theorem step (sound : Sound c) (operation : Operation) : Sound (c.step operation) := by
  by_cases still : operation.flows = false
  · rw [c.step_still still]
    exact sound.all_moves (.mono (fun _ _ => Shifts.toMoves) _ _ (c.step_shifts still))
  · cases operation with
    | installFetch target fetch => exact sound.install target fetch
    | takeDelivery max => exact sound.take max
    | completeDelivery index handedOut => exact sound.finish index handedOut
    | abortDelivery index => exact sound.finish index 0
    | _ => exact absurd rfl still

theorem run (operations : List Operation) : Sound (Client.run operations) := by
  have start : Sound {} :=
    ⟨fun key r found => by simp at found, by simp, by simp, by simp, fun key r found => by simp at found⟩
  exact List.foldlRecOn operations Client.step start fun c sound operation _ => sound.step operation

end Sound

end Krafka.Consumer
