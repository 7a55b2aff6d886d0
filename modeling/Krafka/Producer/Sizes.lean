import Krafka.Producer.Refinement
import Krafka.Producer.Requests
import Krafka.Protocol.RecordWire
import Mathlib.Algebra.Order.BigOperators.Group.List

/-! What a record is charged, what its batch takes on the wire, and that the first is never less
than the second as long as no split charges a half less than its own records. -/

namespace Krafka.Producer

open List Function Engine

/-! ## The estimate and the encoding -/

def timestampDeltaBytes : Nat := 5
def offsetDeltaBytes : Nat := 2

def nullableEstimate : Option Bytes → Nat
  | some bytes => signedVarintSize bytes.length + bytes.length
  | none => signedVarintSize (-1)

namespace RecordData

def headerEstimate (header : String × Option Bytes) : Nat :=
  signedVarintSize header.1.utf8ByteSize + header.1.utf8ByteSize + nullableEstimate header.2

def bodyEstimate (data : RecordData) : Nat :=
  1 + timestampDeltaBytes + offsetDeltaBytes + nullableEstimate data.key +
    nullableEstimate data.value + signedVarintSize data.headers.length +
    (data.headers.map headerEstimate).sum

def estimatedSize (topic : String) (data : RecordData) : Nat :=
  let framing := signedVarintSize data.bodyEstimate
  let batchOverhead := topic.utf8ByteSize + 64
  framing + data.bodyEstimate + batchOverhead

def saturatingSub (a b : Int) : Int := max (-2 ^ 63) (min (a - b) (2 ^ 63 - 1))

def toRecord (baseTimestamp : Int) (data : RecordData) (index : Nat) : Record where
  attributes := 0
  timestampDelta := saturatingSub data.timestamp baseTimestamp
  offsetDelta := if index < 2 ^ 31 then index else 2 ^ 31 - 1
  key := data.key
  value := data.value
  headers := data.headers.map fun header =>
    { key := header.1.toUTF8.data.toList, value := header.2 }

end RecordData

def baseTimestamp (records : List RecordData) : Int := (records.head?.map (·.timestamp)).getD 0

def wireRecords (records : List RecordData) : List Record :=
  records.zipIdx.map fun entry => entry.1.toRecord (baseTimestamp records) entry.2

def encode (wire : WireCodec) (records : List RecordData) (stamp : Option BatchIdentity)
    (transactional : Bool) (compression : Krafka.Compression) (level : Option Int) :
    Result Bytes :=
  RecordBatch.encode wire
    { baseOffset := 0
      attributes := { compression, isTransactional := transactional }
      lastOffsetDelta := if records.length - 1 < 2 ^ 31 then (records.length - 1 : Nat) else 2 ^ 31 - 1
      baseTimestamp := baseTimestamp records
      maxTimestamp := ((records.map (·.timestamp)).max?).getD (baseTimestamp records)
      producerId := (stamp.map (·.producerId)).getD (-1)
      producerEpoch := (stamp.map (·.epoch)).getD (-1)
      baseSequence := (stamp.map fun stamp => (stamp.baseSequence : Int)).getD (-1)
      records := wireRecords records
      compressionLevel := level }

/-! ## One record -/

theorem signedVarintSize_pos (value : Int) : 0 < signedVarintSize value := Varint.size_pos ..
theorem signedVarintSize_le (value : Int) : signedVarintSize value ≤ 5 := Varint.size_le ..
theorem signedVarlongSize_le (value : Int) : signedVarlongSize value ≤ 10 := Varint.size_le ..

theorem length_nullableWire (value : Option Bytes) :
    (nullableWire value).length = nullableEstimate value := by
  cases value with
  | none => exact VarFormat.length_encodeSigned ..
  | some =>
    rw [nullableWire, bytesWire, length_append, encodeSignedVarint,
      VarFormat.length_encodeSigned]
    rfl

namespace RecordData

variable (base : Int) (data : RecordData) (index : Nat)

theorem length_header (header : String × Option Bytes) :
    (RecordHeader.wire { key := header.1.toUTF8.data.toList, value := header.2 }).length =
      headerEstimate header := by
  have size : header.1.toUTF8.data.toList.length = header.1.utf8ByteSize := by
    rw [Array.length_toList]
    rfl
  rw [RecordHeader.wire, bytesWire, length_append, length_append, length_nullableWire,
    encodeSignedVarint, VarFormat.length_encodeSigned, size]
  rfl

theorem length_body : (data.toRecord base index).body.length + timestampDeltaBytes +
    offsetDeltaBytes = data.bodyEstimate +
      signedVarlongSize (data.toRecord base index).timestampDelta +
      signedVarintSize (data.toRecord base index).offsetDelta := by
  have headers : ((data.toRecord base index).headers.map fun header => header.wire.length).sum =
      (data.headers.map headerEstimate).sum := by
    rw [toRecord, map_map]
    exact congrArg List.sum (map_congr_left fun header _ => length_header header)
  rw [Record.length_body, headers, length_nullableWire, length_nullableWire]
  simp only [toRecord, bodyEstimate, length_map]
  omega

theorem length_wire : (data.toRecord base index).wire.length =
    signedVarintSize (data.toRecord base index).body.length +
      (data.toRecord base index).body.length := by
  rw [Record.wire, length_append, encodeSignedVarint, VarFormat.length_encodeSigned]
  rfl

theorem length_wire_le (topic : String) :
    (data.toRecord base index).wire.length + 52 ≤ data.estimatedSize topic := by
  have framing := signedVarintSize_pos data.bodyEstimate
  have length := signedVarintSize_le (data.toRecord base index).body.length
  have timestamp := signedVarlongSize_le (data.toRecord base index).timestampDelta
  have offset := signedVarintSize_le (data.toRecord base index).offsetDelta
  have body := data.length_body base index
  rw [length_wire]
  simp only [estimatedSize, timestampDeltaBytes, offsetDeltaBytes] at body ⊢
  omega

theorem length_first_le (topic : String) :
    (data.toRecord data.timestamp 0).wire.length + 65 ≤ data.estimatedSize topic := by
  have framing := signedVarintSize_pos data.bodyEstimate
  have length := signedVarintSize_le (data.toRecord data.timestamp 0).body.length
  have timestamp : signedVarlongSize (data.toRecord data.timestamp 0).timestampDelta = 1 := by
    rw [show (data.toRecord data.timestamp 0).timestampDelta = 0 by simp [toRecord, saturatingSub]]
    rfl
  have offset : signedVarintSize (data.toRecord data.timestamp 0).offsetDelta = 1 := by
    rw [show (data.toRecord data.timestamp 0).offsetDelta = 0 by simp [toRecord]]
    rfl
  have body := data.length_body data.timestamp 0
  rw [length_wire]
  simp only [estimatedSize, timestampDeltaBytes, offsetDeltaBytes, timestamp, offset] at body ⊢
  omega

end RecordData

/-! ## One batch -/

structure Charged (topic : String) (records : List RecordData) (bytes : Nat) : Prop where
  filled : records ≠ []
  estimates : (records.map (·.estimatedSize topic)).sum ≤ bytes

theorem payload_le (topic : String) (base : Int) (records : List RecordData) (start : Nat) :
    (payload ((records.zipIdx start).map fun entry => entry.1.toRecord base entry.2)).length +
      52 * records.length ≤ (records.map (·.estimatedSize topic)).sum := by
  induction records generalizing start with
  | nil => exact Nat.le_refl 0
  | cons data records ih =>
    have first := data.length_wire_le base start topic
    have rest := ih (start + 1)
    simp only [payload, zipIdx_cons, map_cons, flatMap_cons, length_append,
      length_cons, sum_cons] at rest ⊢
    omega

theorem Charged.covers {topic : String} {records : List RecordData} {bytes : Nat}
    (charged : Charged topic records bytes) :
    RecordBatchHeader.size + (payload (wireRecords records)).length ≤ bytes := by
  refine le_trans ?_ charged.estimates
  obtain ⟨first, rest, rfl⟩ := exists_cons_of_ne_nil charged.filled
  cases rest with
  | nil =>
    have only := first.length_first_le topic
    simp only [wireRecords, baseTimestamp, payload, RecordBatchHeader.size, List.head?_cons,
      Option.map_some, Option.getD_some, zipIdx_cons, zipIdx_nil, map_cons,
      map_nil, flatMap_cons, flatMap_nil, append_nil, sum_cons,
      sum_nil]
    omega
  | cons second rest =>
    have all := payload_le topic (baseTimestamp (first :: second :: rest))
      (first :: second :: rest) 0
    rw [length_cons, length_cons] at all
    rw [wireRecords, RecordBatchHeader.size]
    omega

theorem Charged.encode_le {topic : String} {records : List RecordData} {bytes : Nat}
    (charged : Charged topic records bytes) {wire : WireCodec} {stamp : Option BatchIdentity}
    {transactional : Bool} {level : Option Int} {out : Bytes}
    (done : encode wire records stamp transactional .none level = .ok out) : out.length ≤ bytes :=
  (RecordBatch.length_encode rfl done).trans_le charged.covers

/-! ## The engine -/

def Batch.SharesCover (topic : String) (batch : Batch) : Prop :=
  ((batch.records.take (batch.len / 2)).map (·.estimatedSize topic)).sum ≤
      batch.bytes * (batch.len / 2) / batch.len ∧
    ((batch.records.drop (batch.len / 2)).map (·.estimatedSize topic)).sum ≤
      batch.bytes * (batch.len - batch.len / 2) / batch.len

instance (topic : String) (batch : Batch) : Decidable (batch.SharesCover topic) :=
  inferInstanceAs (Decidable (_ ∧ _))

/-- Records are charged their estimates, and splits charge each half enough. -/
def charging : Policy where
  append := fun _ _ append => append.size = append.data.estimatedSize append.topic
  split := fun _ key batch _ => batch.SharesCover key.1

def Ledger.Charged (l : Ledger) : Prop :=
  ∀ key, ∀ batch ∈ l.line key, Producer.Charged key.1 batch.records batch.bytes

section Ledgers

variable {l l' : Ledger}

theorem Ledger.Charged.update (charged : l.Charged) {key : PartitionKey} {line : List Batch}
    (place : l'.line = Function.update l.line key line)
    (kept : ∀ batch ∈ line, Producer.Charged key.1 batch.records batch.bytes) : l'.Charged := by
  intro k
  rw [place, update_apply]
  split_ifs with same
  · exact same ▸ kept
  · exact charged k

theorem Charged.push {topic : String} {records : List RecordData} {data : RecordData} {bytes : Nat}
    (estimates : (records.map (·.estimatedSize topic)).sum ≤ bytes) :
    Charged topic (records ++ [data]) (bytes + data.estimatedSize topic) := by
  refine ⟨concat_ne_nil _ _, ?_⟩
  rw [map_append, sum_append]
  simpa using estimates

theorem Effect.charged (effect : Effect charging l l') (charged : l.Charged) : l'.Charged := by
  have headed {key : PartitionKey} {batch : Batch} {back : List Batch}
      (head : l.line key = batch :: back) :
      Producer.Charged key.1 batch.records batch.bytes ∧
        ∀ batch ∈ back, Producer.Charged key.1 batch.records batch.bytes :=
    forall_mem_cons.mp (head ▸ charged key)
  have again {key : PartitionKey} {batch new : Batch} {back : List Batch}
      (head : l.line key = batch :: back) (records : new.records = batch.records)
      (bytes : new.bytes = batch.bytes) :
      ∀ batch ∈ new :: back, Producer.Charged key.1 batch.records batch.bytes := by
    refine forall_mem_cons.mpr ⟨?_, (headed head).2⟩
    rw [records, bytes]
    exact (headed head).1
  cases effect with
  | silent | refuse | fail => exact charged
  | @accept free key record waiter size generation older last _ _ place _ _ allowed =>
    obtain ⟨s, now, append, priced, rfl, rfl, rfl, _⟩ := allowed
    have priced : append.size = append.data.estimatedSize append.key.1 := priced
    have before : (∀ batch ∈ older, Producer.Charged append.key.1 batch.records batch.bytes) ∧
        (last.records.map (·.estimatedSize append.key.1)).sum ≤ last.bytes := by
      rcases place with there | ⟨there, _, _, rfl⟩
      · have both := there ▸ charged append.key
        rw [forall_mem_append, forall_mem_singleton] at both
        exact ⟨both.1, both.2.estimates⟩
      · exact ⟨there ▸ charged append.key, Nat.le_refl 0⟩
    refine charged.update rfl (forall_mem_append.mpr ⟨before.1, ?_⟩)
    rw [forall_mem_singleton]
    show Producer.Charged _ (last.records ++ [_]) (last.bytes + append.size)
    rw [priced]
    exact Charged.push before.2
  | take free key parts order =>
    exact charged.update rfl fun batch member => charged key batch (order.subset member)
  | answer free error head | handOut free clear broker sent slot head
  | stampOut free clear broker sent slot head | retry error held head | restamp held head =>
    exact charged.update rfl (again head rfl rfl)
  | endAttempt free encoded outcome head =>
    exact charged.update rfl (again head (Batch.marked_records ..) (Batch.marked_bytes ..))
  | acknowledge result held head | condemn held head => exact charged.update rfl (headed head).2
  | split held head live halves unsettled allowed =>
    obtain ⟨s, left, right⟩ := allowed
    have several := Batch.several_of_split halves
    obtain ⟨rfl, rfl⟩ := Batch.split_eq halves
    refine charged.update rfl (forall_mem_cons.mpr ⟨⟨?_, left⟩,
      forall_mem_cons.mpr ⟨⟨?_, right⟩, (headed head).2⟩⟩)
    · exact ne_nil_of_length_pos (by simp [Batch.half, Batch.len] at several ⊢; omega)
    · exact ne_nil_of_length_pos (by simp [Batch.half, Batch.len] at several ⊢; omega)

end Ledgers

/-! What is on the wire -/

def WireBatch.Charged (sent : WireBatch) : Prop :=
  Producer.Charged sent.key.1 sent.records sent.estimated

structure Custody.Charged (c : Custody) : Prop where
  line : c.ledger.Charged
  wire : ∀ sent ∈ c.wire, sent.Charged
  requests : ∀ request ∈ c.engine.requests, ∀ sent ∈ request.wire, sent.Charged

theorem Move.charged {c c' : Custody} (move : Move charging c c') (sound : c.Sound)
    (charged : c.Charged) : c'.Charged := by
  have line := (move.effect sound).charged charged.line
  have aboard {s : Engine} {wire : List WireBatch} {key : PartitionKey}
      {queue left : PartitionQueue} {batch : Batch}
      (charged : (⟨s, wire, none, []⟩ : Custody).Charged)
      (present : s.partitions.lookup key = some queue) (free : queue.inFlight = none)
      (head : queue.popHead = some (batch, left)) :
      Producer.Charged key.1 batch.records batch.bytes := by
    refine charged.line key batch ?_
    show batch ∈ s.lines key
    rw [s.lines_of_lookup key present, (PartitionQueue.batches_of_popHead free head).1]
    exact mem_cons_self
  have carried {s s' : Engine} (same : s'.sent = s.sent)
      (before : ∀ request ∈ s.requests, ∀ sent ∈ request.wire, sent.Charged) :
      ∀ request ∈ s'.requests, ∀ sent ∈ request.wire, sent.Charged :=
    requests_of_sent same ▸ before
  cases move with
  | append => exact ⟨line, charged.wire, carried (sent_append ..) charged.requests⟩
  | setIdentity =>
    exact ⟨line, charged.wire, carried (sent_of_books (books_setIdentity ..)) charged.requests⟩
  | split =>
    exact ⟨line, charged.wire, carried (sent_of_books (books_of_frame (frame_splitBatch ..)))
      charged.requests⟩
  | handOut broker key present free head | stampOut broker key present free head =>
    refine ⟨line, forall_mem_append.mpr ⟨charged.wire, forall_mem_singleton.mpr ?_⟩,
      charged.requests⟩
    exact aboard charged present free head
  | startRequest =>
    exact ⟨line, (fun _ member => nomatch member), forall_mem_append.mpr
      ⟨charged.requests, forall_mem_singleton.mpr charged.wire⟩⟩
  | finishRequest request known =>
    exact ⟨line, charged.requests request known, fun other member =>
      charged.requests other (mem_of_mem_erase member)⟩
  | skipResult | endAttempt =>
    exact ⟨line, fun other member => charged.wire other (mem_of_mem_erase member),
      charged.requests⟩
  | _ => exact ⟨line, charged.wire, charged.requests⟩

theorem run_charged {config : EngineConfig} {inputs : List Input}
    (allowed : Runs.Along step charging.Allows (spawn config) inputs) :
    (Custody.rest (run config inputs)).Charged :=
  run_invariant Custody.Charged (fun _ _ move sound _ => move.charged sound)
    ⟨(fun _ _ member => nomatch member), (fun _ member => nomatch member),
      (fun _ member => nomatch member)⟩ allowed

/-! ## The request -/

def requestSize (wire : List WireBatch) : Nat :=
  perBatchOverhead +
    (wire.map fun sent => sent.estimated + perBatchOverhead + sent.key.1.utf8ByteSize).sum

theorem requestSize_concat (wire : List WireBatch) (sent : WireBatch) :
    requestSize (wire ++ [sent]) =
      requestSize wire + (sent.estimated + perBatchOverhead + sent.key.1.utf8ByteSize) := by
  simp only [requestSize, map_append, sum_append, map_singleton, sum_singleton,
    Nat.add_assoc]

def Coalesced (limit : Nat) (wire : List WireBatch) : Prop :=
  wire.length ≤ 1 ∨ requestSize wire ≤ limit

namespace Engine

theorem popHead_head {queue left : PartitionQueue} {batch : Batch}
    (popped : queue.popHead = some (batch, left)) : queue.head = some batch := by
  unfold PartitionQueue.popHead at popped
  unfold PartitionQueue.head
  split at popped
  · next sealed =>
    cases popped
    rw [sealed]
    rfl
  · next sealed =>
    rw [sealed]
    obtain ⟨_, opened, same⟩ := Option.map_eq_some_iff.mp popped
    cases same
    exact opened

variable {wire : List WireBatch}

theorem room_of {alone : Bool} {limit total : Nat}
    (room : ¬ (!wire.isEmpty && (alone || decide (limit < total))) = true) :
    wire ≠ [] → total ≤ limit := by
  intro filled
  by_contra more
  exact room (by simp [filled, Nat.not_le.mp more])

theorem Coalesced.concat (sent : WireBatch) {limit size headBytes : Nat}
    (sized : size = requestSize wire)
    (bytes : headBytes = sent.estimated + perBatchOverhead + sent.key.1.utf8ByteSize)
    (room : wire ≠ [] → size + headBytes ≤ limit) :
    Coalesced limit (wire ++ [sent]) ∧ size + headBytes = requestSize (wire ++ [sent]) := by
  rw [requestSize_concat, ← bytes, ← sized]
  refine ⟨?_, rfl⟩
  cases wire with
  | nil => exact .inl (Nat.le_refl 1)
  | cons =>
    right
    rw [requestSize_concat, ← bytes, ← sized]
    exact room (cons_ne_nil _ _)

theorem coalesced_fillRequest {identity : Option Identity} {broker : Int}
    {keys : List PartitionKey} {s : Engine} {size : Nat}
    (sized : size = requestSize wire) (before : Coalesced s.config.maxRequestSize wire) :
    Coalesced s.config.maxRequestSize (fillRequest identity broker keys s wire size).2 := by
  have bytes {queue left : PartitionQueue} {batch : Batch} {key : PartitionKey}
      (popped : queue.popHead = some (batch, left)) :
      (queue.head.map fun b => b.bytes + perBatchOverhead + key.1.utf8ByteSize).getD 0 =
        batch.bytes + perBatchOverhead + key.1.utf8ByteSize := by
    rw [popHead_head popped]
    rfl
  fun_induction fillRequest identity broker keys s wire size with
  | case1 => exact before
  | case2 key keys s wire size absent ih
  | case3 key keys s wire size queue present headBytes headAlone full ih
  | case4 key keys s wire size queue present headBytes headAlone room empty ih =>
    exact ih sized before
  | case5 key keys s wire size queue present headBytes headAlone room batch left head unstamped
      noIdentity ih =>
    subst noIdentity
    exact ih sized before
  | case6 key keys s wire size queue present headBytes headAlone room batch left head unstamped id hasId out
  | case8 key keys s wire size queue present headBytes headAlone room batch left head stamped out =>
    exact (Coalesced.concat out.2 sized (bytes head) (room_of room)).1
  | case7 key keys s wire size queue present headBytes headAlone room batch left head unstamped id
      hasId out alone ih =>
    subst hasId
    have joined := Coalesced.concat out.2 sized (bytes head) (room_of room)
    exact ih joined.2 joined.1
  | case9 key keys s wire size queue present headBytes headAlone room batch left head stamped out
      alone ih =>
    have joined := Coalesced.concat out.2 sized (bytes head) (room_of room)
    exact ih joined.2 joined.1

theorem coalesced_drain (s : Engine) (now : Instant) (leader : PartitionKey → Option Int)
    (delay : Nat → Duration) : ∀ request ∈ (s.drain now leader delay).requests,
      request ∈ s.requests ∨ Coalesced s.config.maxRequestSize request.wire := by
  intro request member
  refine ((s.starts_drain now leader delay).each request member).imp_right ?_
  rintro ⟨-, -, s₁, broker, config, wire⟩
  rw [wire, ← config]
  exact coalesced_fillRequest (show perBatchOverhead = requestSize [] from rfl)
    (.inl (Nat.zero_le 1))

end Engine

theorem requestSize_ge (wire : List WireBatch) :
    (wire.map (·.estimated)).sum ≤ requestSize wire := by
  unfold requestSize
  refine (sum_le_sum fun sent _ => ?_).trans (Nat.le_add_left ..)
  omega

theorem length_encoded_le {wire : WireCodec} {transactional : Bool} {level : Option Int}
    {batches : List WireBatch} {outs : List Bytes} (encoded : List.Forall₂ (fun sent out =>
      encode wire sent.records sent.stamp transactional .none level = .ok out) batches outs)
    (charged : ∀ sent ∈ batches, sent.Charged) :
    (outs.map List.length).sum ≤ (batches.map (·.estimated)).sum := by
  induction encoded with
  | nil => exact Nat.le_refl 0
  | cons done _ ih =>
    rw [forall_mem_cons] at charged
    rw [map_cons, map_cons, sum_cons, sum_cons]
    exact Nat.add_le_add (charged.1.encode_le done) (ih charged.2)

/-- In every run in which records are charged their estimates and no split charges a half less than
its records, the bytes of every queued batch cover its encoding, under any stamp; and the size
`drain` adds up for a request covers all its batches, so one that coalesces several is within
`max_request_size`. -/
theorem charged_size_covers_encoding (config : EngineConfig) (inputs : List Input)
    (wire : WireCodec) (transactional : Bool) (level : Option Int)
    (allowed : Runs.Along step charging.Allows (spawn config) inputs) :
    (∀ key, ∀ batch ∈ (run config inputs).lines key, ∀ stamp out,
      encode wire batch.records stamp transactional .none level = .ok out →
        out.length ≤ batch.bytes) ∧
    ∀ now leader delay,
      ∀ request ∈ (run config (inputs ++ [.drain now leader delay])).requests,
        (∀ outs, List.Forall₂ (fun sent out =>
            encode wire sent.records sent.stamp transactional .none level = .ok out)
            request.wire outs → (outs.map List.length).sum ≤ requestSize request.wire) ∧
          (request ∈ (run config inputs).requests ∨
            Coalesced config.maxRequestSize request.wire) := by
  refine ⟨fun key batch member stamp out done => ?_, fun now leader delay request member => ⟨?_, ?_⟩⟩
  · exact ((run_charged allowed).line key batch member).encode_le done
  · intro outs encoded
    have drained : Runs.Along step charging.Allows (spawn config)
        (inputs ++ [.drain now leader delay]) :=
      Runs.along_append.mpr ⟨allowed, trivial, trivial⟩
    have charged := (run_charged drained).requests request member
    exact (length_encoded_le encoded charged).trans (requestSize_ge request.wire)
  · rw [run_append] at member
    have started := coalesced_drain (run config inputs) now leader delay request member
    rwa [run_config] at started

def charge (data : RecordData) : Input :=
  .command 0 (.append
    { topic := "t", partition := 0, data, size := data.estimatedSize "t", generation := 0 })

def sampleOversized (records : List RecordData) : List Input :=
  records.map charge ++ [sampleDrain, sampleDone 0 (.answer .messageTooLarge (-1) (-1) (-1))]

theorem equal_records_split_covers_encoding :
    ((run (sampleConfig .plain) (sampleOversized [{}, {}])).lines sampleKey).map
        (fun batch => (batch.records.length, batch.bytes)) = [(1, 77), (1, 77)] ∧
      ∀ key, ∀ batch ∈ (run (sampleConfig .plain) (sampleOversized [{}, {}])).lines key,
        ∀ stamp out, encode sampleWire batch.records stamp false .none none = .ok out →
          out.length ≤ batch.bytes := by
  refine ⟨by decide +kernel, (charged_size_covers_encoding (sampleConfig .plain)
    (sampleOversized [{}, {}]) sampleWire false none ⟨rfl, rfl, trivial, ?_, trivial⟩).1⟩
  exact fun _ => ⟨by simp [Policy.AllowsError, charging],
    ⟨fun _ _ => show Batch.SharesCover _ _ by decide +kernel, trivial⟩, trivial⟩

/-- A small and a large record: each half of the split is charged half of the bytes. -/
theorem large_half_is_undercharged :
    ((run (sampleConfig .plain)
        (sampleOversized [{}, { value := some (List.replicate 200 0) }])).lines sampleKey).map
      (fun batch => (batch.bytes, (encode sampleWire batch.records batch.stamp false .none
        none).toOption.map List.length)) = [(178, some 68), (178, some 270)] := by
  decide +kernel

end Krafka.Producer
