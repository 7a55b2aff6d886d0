import Krafka.Protocol.RecordWire

/-! Record batches are read back as they were written: a reader takes exactly what was written off
the buffer, whatever follows. -/

namespace Krafka

open List RecordBatchHeader

/-! ## What is read -/

namespace Reader

theorem takes_takeBytes (bytes : Bytes) (error : KrafkaError) :
    Takes (takeBytes bytes.length error) bytes bytes := by
  intro rest
  have enough : ¬ (bytes ++ rest).length < bytes.length := by simp
  refine (if_neg enough).trans ?_
  rw [take_left, drop_left]

theorem takes_varint {value : Int} (fits : Fits 32 value) :
    Takes decodeSignedVarint (encodeSignedVarint value) value := varint.takes_decodeSigned fits

theorem takes_varlong {value : Int} (fits : Fits 64 value) :
    Takes decodeSignedVarlong (encodeSignedVarlong value) value := varlong.takes_decodeSigned fits

theorem takes_length {α : Type} {next : Int → Reader α} {length : Nat} {second : Bytes} {result : α}
    (small : length < 2 ^ 31) (after : Takes (next length) second result) :
    Takes (decodeSignedVarint >>= next) (encodeSignedVarint length ++ second) result :=
  (takes_varint (fits_length small)).bind after

theorem takes_nullable {value : Option Bytes} (small : (nullableWire value).length < 2 ^ 31)
    (invalid : String) : Takes (decodeNullable invalid) (nullableWire value) value := by
  cases value with
  | none =>
    have null : Fits 32 (-1) := by decide
    have read : Takes (decodeNullable invalid) (nullableWire none ++ []) none :=
      (takes_varint null).bind (Takes.pure none)
    rwa [append_nil] at read
  | some bytes =>
    refine takes_length ((length_le_bytesWire bytes).trans small) ?_
    rw [if_neg (by omega), Int.toNat_natCast]
    exact (takes_takeBytes bytes _).map some

theorem takes_header {header : RecordHeader} (small : header.wire.length < 2 ^ 31) :
    Takes RecordHeader.decode header.wire header := by
  obtain ⟨key, value⟩ := RecordHeader.parts_lt small
  rw [RecordHeader.wire, bytesWire, append_assoc]
  refine takes_length key ?_
  rw [if_neg (by omega), Int.toNat_natCast]
  exact (takes_takeBytes header.key _).bind
    ((takes_nullable value _).map (RecordHeader.mk header.key))

theorem takes_many {α : Type} {reader : Reader α} {bytes : α → Bytes} {values : List α}
    (each : ∀ value ∈ values, Takes reader (bytes value) value) :
    Takes (readMany reader values.length) (values.flatMap bytes) values := by
  induction values with
  | nil => exact Takes.pure []
  | cons value values ih =>
    rw [forall_mem_cons] at each
    rw [flatMap_cons]
    exact each.1.bind ((ih each.2).map (value :: ·))

variable {record : Record} (fits : record.Fits)

include fits

theorem takes_headers :
    Takes Record.decodeHeaders (encodeSignedVarint record.headers.length ++
      record.headers.flatMap RecordHeader.wire) record.headers := by
  refine takes_length fits.headers_lt ?_
  rw [if_neg (by omega), Int.toNat_natCast, if_neg (Nat.not_lt.mpr fits.headers)]
  exact takes_many fun _ member => takes_header (fits.header_lt member)

theorem takes_body : Takes Record.decodeBody record.body record := by
  have attributes : beInt (putInt 1 record.attributes) = record.attributes :=
    beInt_putInt fits.attributes Nat.one_pos
  have first := takes_takeBytes (putInt 1 record.attributes)
    (.protocol .malformed "missing record attributes")
  rw [length_putInt] at first
  refine first.bind ((takes_varlong fits.timestampDelta).bind
    ((takes_varint fits.offsetDelta).bind ((takes_nullable fits.key_lt _).bind
    ((takes_nullable fits.value_lt _).bind ?_))))
  rw [attributes]
  exact (takes_headers fits).map fun headers => { record with headers }

theorem takes_record : Takes Record.decode record.wire record := by
  refine takes_length fits.body ?_
  rw [if_neg (by omega), Int.toNat_natCast]
  intro rest
  have read : Record.decodeBody.run record.body = .ok (record, []) := by
    have whole := takes_body fits []
    rwa [append_nil] at whole
  refine (run_bind_of_ok (show (get : Reader Bytes).run _ = _ from rfl)).trans ?_
  refine (run_bind_of_ok (takes_takeBytes record.body _ rest)).trans ?_
  rw [read]
  rfl

end Reader

/-! ## Whole batches -/

theorem minRecordSize_le (record : Record) : minRecordSize ≤ record.wire.length := by
  have pos (format : VarFormat) (value : Int) : 0 < (format.encodeSigned value).length :=
    (format.length_encodeSigned value).symm ▸ Varint.size_pos ..
  have nullable (value : Option Bytes) : 0 < (nullableWire value).length := by
    cases value with
    | none => exact pos varint (-1)
    | some bytes => exact (Nat.zero_le _).trans_lt (length_le_bytesWire bytes)
  have length := pos varint record.body.length
  have timestamp := pos varlong record.timestampDelta
  have offset := pos varint record.offsetDelta
  have key := nullable record.key
  have value := nullable record.value
  have count := pos varint record.headers.length
  simp only [Record.wire, encodeSignedVarint, length_append, minRecordSize]
  simp only [Record.body, encodeSignedVarint, encodeSignedVarlong, length_append,
    length_putInt] at length ⊢
  omega

theorem length_payload_ge (records : List Record) :
    minRecordSize * records.length ≤ (payload records).length := by
  induction records with
  | nil => exact Nat.zero_le _
  | cons record records ih =>
    have first := minRecordSize_le record
    simp only [payload, flatMap_cons, length_cons, length_append] at ih ⊢
    rw [Nat.mul_add, Nat.mul_one]
    omega

theorem RecordBatchAttributes.fromI16_toI16 (attributes : RecordBatchAttributes) :
    fromI16 attributes.toI16 = .ok attributes := by
  obtain ⟨compression, timestampType, isTransactional, isControlBatch⟩ := attributes
  cases compression <;> cases timestampType <;> cases isTransactional <;> cases isControlBatch <;>
    rfl

theorem RecordBatchAttributes.toI16_lt (attributes : RecordBatchAttributes) :
    attributes.toI16 < 256 ^ 2 := by
  obtain ⟨compression, timestampType, isTransactional, isControlBatch⟩ := attributes
  cases compression <;> cases timestampType <;> cases isTransactional <;> cases isControlBatch <;>
    decide

section Fields

variable (width other start : Nat) (rest : Bytes)

theorem field_skip {front : Bytes} (past : front.length ≤ start) :
    field (front ++ rest) start width = field rest (start - front.length) width := by
  unfold field
  rw [drop_append, drop_eq_nil_of_le past, nil_append]

theorem field_putNat (n : Nat) : field (putNat width n ++ rest) 0 width = putNat width n := by
  unfold field
  rw [drop_zero, take_left' (length_putNat width n)]

theorem field_putInt (value : Int) : field (putInt width value ++ rest) 0 width = putInt width value :=
  field_putNat ..

theorem field_putNat_skip (n : Nat) (past : other ≤ start) :
    field (putNat other n ++ rest) start width = field rest (start - other) width := by
  rw [field_skip width start rest (by rwa [length_putNat]), length_putNat]

theorem field_putInt_skip (value : Int) (past : other ≤ start) :
    field (putInt other value ++ rest) start width = field rest (start - other) width :=
  field_putNat_skip width other start rest _ past

end Fields

/-- Decompressing gives back what was compressed, if that is within the limit. -/
def WireCodec.Inverse (wire : WireCodec) : Prop :=
  ∀ compression level payload packed limit, compression ≠ .none →
    wire.pack compression level payload = .ok packed → payload.length ≤ limit →
    wire.unpack compression limit packed = .ok payload

section Codecs

variable {wire : WireCodec} {compression : Compression} (real : compression ≠ .none)

include real

theorem WireCodec.compressWithLevel_of_ne (level : Option Int) (payload : Bytes) :
    wire.compressWithLevel compression level payload = wire.pack compression level payload := by
  cases compression with
  | none => exact absurd rfl real
  | _ => rfl

theorem WireCodec.decompressRecords_of_ne (data : Bytes) (limit : Nat) :
    wire.decompressRecords compression data limit =
      wire.unpack compression limit data >>= checkDecompressed limit := by
  cases compression with
  | none => exact absurd rfl real
  | _ => rfl

end Codecs

namespace RecordBatch

structure Fits (batch : RecordBatch) : Prop where
  baseOffset : Krafka.Fits 64 batch.baseOffset
  partitionLeaderEpoch : Krafka.Fits 32 batch.partitionLeaderEpoch
  magic : batch.magic = 2
  lastOffsetDelta : Krafka.Fits 32 batch.lastOffsetDelta
  baseTimestamp : Krafka.Fits 64 batch.baseTimestamp
  maxTimestamp : Krafka.Fits 64 batch.maxTimestamp
  producerId : Krafka.Fits 64 batch.producerId
  producerEpoch : Krafka.Fits 16 batch.producerEpoch
  baseSequence : Krafka.Fits 32 batch.baseSequence
  count : batch.records.length < 2 ^ 31
  records : ∀ record ∈ batch.records, record.Fits

variable (batch : RecordBatch)

theorem patch_append {front old new back : Bytes} {pos : Nat} (place : front.length = pos)
    (same : new.length = old.length) :
    patch (front ++ (old ++ back)) pos new = front ++ (new ++ back) := by
  subst place
  unfold patch
  rw [take_left, drop_append, append_assoc]
  simp [same]

theorem patch_length (batchLength batchLength' : Int) (crc : Nat) (recordsCount : Int)
    (rest : Bytes) :
    patch (batch.header batchLength crc recordsCount ++ rest) batchLengthPos
        (putInt 4 batchLength') =
      batch.header batchLength' crc recordsCount ++ rest := by
  simp only [header, append_assoc]
  exact patch_append (length_putInt ..) (by simp)

def beforeCrc (batchLength : Int) : Bytes :=
  putInt 8 batch.baseOffset ++ putInt 4 batchLength ++ putInt 4 batch.partitionLeaderEpoch ++
    putInt 1 batch.magic

def afterCrc (recordsCount : Int) : Bytes :=
  putNat 2 batch.attributes.toI16 ++ putInt 4 batch.lastOffsetDelta ++
    putInt 8 batch.baseTimestamp ++ putInt 8 batch.maxTimestamp ++ putInt 8 batch.producerId ++
    putInt 2 batch.producerEpoch ++ putInt 4 batch.baseSequence ++ putInt 4 recordsCount

theorem header_append (batchLength : Int) (crc : Nat) (recordsCount : Int) (rest : Bytes) :
    batch.header batchLength crc recordsCount ++ rest =
      batch.beforeCrc batchLength ++ (putNat 4 crc ++ (batch.afterCrc recordsCount ++ rest)) := by
  simp only [header, beforeCrc, afterCrc, append_assoc]

theorem length_beforeCrc (batchLength : Int) : (batch.beforeCrc batchLength).length = crcPos := by
  simp [beforeCrc, crcPos]

theorem patch_crc (batchLength : Int) (crc crc' : Nat) (recordsCount : Int) (rest : Bytes) :
    patch (batch.header batchLength crc recordsCount ++ rest) crcPos (putNat 4 crc') =
      batch.header batchLength crc' recordsCount ++ rest := by
  rw [header_append, header_append]
  exact patch_append (batch.length_beforeCrc batchLength) (by simp)

theorem drop_crcCoveredStart (batchLength : Int) (crc : Nat) (recordsCount : Int) (rest : Bytes) :
    (batch.header batchLength crc recordsCount ++ rest).drop crcCoveredStart =
      batch.afterCrc recordsCount ++ rest := by
  have place : crcCoveredStart =
      (batch.beforeCrc batchLength ++ putNat 4 crc).length := by
    rw [length_append, length_beforeCrc, length_putNat]
    rfl
  rw [header_append, ← append_assoc, place, drop_left]

def readHeader (batchLength crc : Nat) : RecordBatchHeader where
  baseOffset := batch.baseOffset
  batchLength := batchLength
  partitionLeaderEpoch := batch.partitionLeaderEpoch
  magic := batch.magic
  crc := crc
  attributes := batch.attributes
  lastOffsetDelta := batch.lastOffsetDelta
  baseTimestamp := batch.baseTimestamp
  maxTimestamp := batch.maxTimestamp
  producerId := batch.producerId
  producerEpoch := batch.producerEpoch
  baseSequence := batch.baseSequence
  recordsCount := batch.records.length

def frame (wire : WireCodec) (compressed : Bytes) : Bytes :=
  batch.header (fixedOverhead + compressed.length)
    (wire.crc32c (batch.afterCrc batch.records.length ++ compressed)) batch.records.length ++
      compressed

variable {batch} {wire : WireCodec} {compressed : Bytes} (fits : batch.Fits)
  (room : fixedOverhead + compressed.length < 2 ^ 31)

include fits room

theorem encode_eq (packed : wire.compressWithLevel batch.attributes.compression
      batch.compressionLevel (payload batch.records) = .ok compressed) :
    batch.encode wire = .ok (batch.frame wire compressed) := by
  rw [encode, lengthI32_of_lt fits.count, encodeRecords_eq fits.records]
  by_cases plain : batch.attributes.compression = .none
  · have same : payload batch.records = compressed := by
      rw [plain] at packed
      exact Except.ok.inj packed
    have size (recordsCount : Int) :
        (batch.header 0 0 recordsCount ++ compressed).length - 12 =
          fixedOverhead + compressed.length := by
      rw [length_append, length_header, RecordBatchHeader.size, fixedOverhead]
      omega
    simp only [if_pos plain, same, bind, Except.bind, size, lengthI32_of_lt room, patch_length,
      patch_crc, drop_crcCoveredStart]
    rfl
  · simp only [if_neg plain, packed, bind, Except.bind, lengthI32_of_lt room, patch_crc,
      drop_crcCoveredStart]
    rfl

omit room in
theorem peek_header {batchLength crc : Nat} (rest : Bytes) (low : fixedOverhead ≤ batchLength)
    (high : batchLength < 2 ^ 31) (checksum : crc < 2 ^ 32) :
    peek (batch.header batchLength crc batch.records.length ++ rest) =
      .ok (batch.readHeader batchLength crc) := by
  have long : (batch.header batchLength crc batch.records.length ++ rest).length =
      61 + rest.length := by
    rw [length_append, length_header, RecordBatchHeader.size]
  have i64 {value : Int} (fits : Krafka.Fits 64 value) : beInt (putInt 8 value) = value :=
    @beInt_putInt 8 value fits (by decide)
  have i32 {value : Int} (fits : Krafka.Fits 32 value) : beInt (putInt 4 value) = value :=
    @beInt_putInt 4 value fits (by decide)
  have i16 {value : Int} (fits : Krafka.Fits 16 value) : beInt (putInt 2 value) = value :=
    @beInt_putInt 2 value fits (by decide)
  have i8 : beInt (putInt 1 batch.magic) = batch.magic := by
    rw [fits.magic]
    decide
  unfold peek
  rw [long, if_neg (by omega)]
  simp (disch := decide) only [header, append_assoc, field_putInt_skip, field_putNat_skip,
    Nat.reduceSub, field_putInt, field_putNat]
  rw [i32 (fits_length high), i8, beNat_putNat_of_lt batch.attributes.toI16_lt,
    RecordBatchAttributes.fromI16_toI16, i32 (fits_length fits.count), i64 fits.baseOffset,
    i32 fits.partitionLeaderEpoch, beNat_putNat_of_lt (show crc < 256 ^ 4 from checksum),
    i32 fits.lastOffsetDelta, i64 fits.baseTimestamp, i64 fits.maxTimestamp, i64 fits.producerId,
    i16 fits.producerEpoch, i32 fits.baseSequence]
  have enough : ¬ (batchLength : Int) < (RecordBatchHeader.size : Nat) - 12 := by
    simp only [fixedOverhead, RecordBatchHeader.size] at low ⊢
    omega
  rw [if_neg enough, if_neg (by simp [RecordBatchHeader.size]), if_neg (by simp [fits.magic])]
  exact if_neg (by omega)

omit fits room in
theorem decodeRecords_eq {limit : Nat} (records : ∀ record ∈ batch.records, record.Fits)
    (unpacked : wire.decompressRecords batch.attributes.compression compressed limit =
      .ok (payload batch.records)) :
    wire.decodeRecords limit batch.attributes.compression compressed batch.records.length =
      .ok batch.records := by
  have enough : ¬ (payload batch.records).length / minRecordSize < batch.records.length := by
    rw [Nat.not_lt, Nat.le_div_iff_mul_le (by decide), Nat.mul_comm]
    exact length_payload_ge batch.records
  have read := Reader.takes_many (fun record member => Reader.takes_record (records record member)) []
  rw [append_nil] at read
  rw [WireCodec.decodeRecords, unpacked]
  refine (if_neg enough).trans ?_
  rw [payload, read]
  rfl

omit fits room in
theorem decompressRecords_eq {limit : Nat} (inverse : wire.Inverse)
    (packed : wire.compressWithLevel batch.attributes.compression batch.compressionLevel
      (payload batch.records) = .ok compressed)
    (within : batch.attributes.compression ≠ .none → (payload batch.records).length ≤ limit) :
    wire.decompressRecords batch.attributes.compression compressed limit =
      .ok (payload batch.records) := by
  by_cases plain : batch.attributes.compression = .none
  · rw [plain] at packed ⊢
    exact packed.symm
  · rw [WireCodec.compressWithLevel_of_ne plain] at packed
    rw [WireCodec.decompressRecords_of_ne plain,
      inverse _ _ _ _ limit plain packed (within plain)]
    exact if_neg (Nat.not_lt.mpr (within plain))

theorem decodeWithLimit_frame {limit : Nat}
    (unpacked : wire.decompressRecords batch.attributes.compression compressed limit =
      .ok (payload batch.records)) (rest : Bytes) :
    decodeWithLimit wire.codec limit (batch.frame wire compressed ++ rest) =
      .ok ({ batch with compressionLevel := none }, rest) := by
  obtain ⟨crc, crc_eq⟩ : ∃ crc, crc = wire.crc32c (batch.afterCrc batch.records.length ++ compressed) :=
    ⟨_, rfl⟩
  have parsed : peek (batch.frame wire compressed ++ rest) =
      .ok (batch.readHeader (fixedOverhead + compressed.length) crc) := by
    rw [frame, append_assoc, ← crc_eq]
    exact peek_header fits _ (Nat.le_add_right ..) room (crc_eq ▸ wire.crc32c_lt _)
  have size : (batch.readHeader (fixedOverhead + compressed.length) crc).totalSize =
      (batch.frame wire compressed).length := by
    rw [frame, length_append, length_header, RecordBatchHeader.size]
    simp only [RecordBatchHeader.totalSize, readHeader, fixedOverhead, Int.toNat_natCast]
    omega
  have covered : (batch.frame wire compressed).drop crcCoveredStart =
      batch.afterCrc batch.records.length ++ compressed := drop_crcCoveredStart ..
  have section_ : (batch.frame wire compressed).drop RecordBatchHeader.size = compressed := by
    rw [frame, drop_left' (length_header ..)]
  have read : wire.codec.records limit batch.attributes.compression compressed
      batch.records.length = .ok batch.records := decodeRecords_eq fits.records unpacked
  unfold decodeWithLimit
  rw [parsed]
  simp only [size, take_left, drop_left, covered, section_]
  rw [if_neg (by simp), if_neg (by simp [WireCodec.codec, readHeader, crc_eq])]
  simp only [readHeader, Int.toNat_natCast, read]
  rfl

omit fits room

section Stateful

variable {α β : Type} {x : ExceptT KrafkaError (StateM Bytes) α}
  {f : α → ExceptT KrafkaError (StateM Bytes) β} {buf buf' : Bytes}

theorem run_bind_ok {value : α} (ran : x.run.run buf = (.ok value, buf')) :
    (x >>= f).run.run buf = (f value).run.run buf' := by
  rw [ExceptT.run_bind, StateT.run_bind, ran]
  rfl

theorem run_bind_error {error : KrafkaError} (ran : x.run.run buf = (.error error, buf')) :
    (x >>= f).run.run buf = (.error error, buf') := by
  rw [ExceptT.run_bind, StateT.run_bind, ran]
  rfl

end Stateful

theorem run_decodeIn (codec : Codec) (limit : Nat) (buf : Bytes) :
    (decodeIn codec limit).run.run buf = match decodeWithLimit codec limit buf with
      | .error error => (.error error, buf)
      | .ok (batch, rest) => (.ok batch, rest) := by
  unfold decodeIn decodeWithLimit
  refine (run_bind_ok (show (get : ExceptT KrafkaError (StateM Bytes) Bytes).run.run buf = _ from rfl)).trans ?_
  cases parsed : peek buf with
  | error => exact run_bind_error rfl
  | ok header =>
    refine (run_bind_ok rfl).trans ?_
    dsimp only
    split_ifs with short mismatch
    · rfl
    · rfl
    · cases read : codec.records limit header.attributes.compression
          ((buf.take header.totalSize).drop RecordBatchHeader.size) header.recordsCount.toNat with
      | error error => exact run_bind_error rfl
      | ok records => exact run_bind_ok rfl

theorem advance_decodeIn (codec : Codec) (limit : Nat) (buf : Bytes) :
    (∀ error rest, (decodeIn codec limit).run.run buf = (.error error, rest) → rest = buf) ∧
      ∀ batch rest, (decodeIn codec limit).run.run buf = (.ok batch, rest) →
        ∃ front, buf = front ++ rest ∧ (front.length : Int) = 12 + beInt (field buf 8 4) := by
  rw [run_decodeIn]
  cases decoded : decodeWithLimit codec limit buf with
  | error => exact ⟨fun _ _ ran => (Prod.mk.inj ran).2.symm, fun _ _ ran => nomatch ran⟩
  | ok =>
    refine ⟨fun _ _ ran => (nomatch ran), fun batch rest ran => ?_⟩
    obtain ⟨header, parsed, whole, _, left⟩ := decodeWithLimit_eq_ok decoded
    have size := size_le_totalSize parsed
    have length := batchLength_of_peek parsed
    have rest_eq : rest = buf.drop header.totalSize := (Prod.mk.inj ran).2.symm.trans left
    refine ⟨buf.take header.totalSize, ?_, ?_⟩
    · rw [rest_eq, take_append_drop]
    · rw [length_take, Nat.min_eq_left whole, ← length]
      simp only [RecordBatchHeader.totalSize, RecordBatchHeader.size] at size ⊢
      omega

end RecordBatch

/-- A batch that fits is encoded, for every codec, and decoding gives back all its fields but the
compression level, which the format does not hold; what follows stays in the buffer. On any bytes, a
decode that fails leaves the buffer as it was, and one that succeeds takes off one batch. -/
theorem record_batch_round_trips (wire : WireCodec) (inverse : wire.Inverse) (limit : Nat)
    (batch : RecordBatch) (compressed : Bytes) (fits : batch.Fits)
    (packed : wire.compressWithLevel batch.attributes.compression batch.compressionLevel
      (payload batch.records) = .ok compressed)
    (room : RecordBatch.fixedOverhead + compressed.length < 2 ^ 31)
    (within : batch.attributes.compression ≠ .none → (payload batch.records).length ≤ limit) :
    (∃ bytes, batch.encode wire = .ok bytes ∧
      ∀ rest, (RecordBatch.decodeIn wire.codec limit).run.run (bytes ++ rest) =
        (.ok { batch with compressionLevel := none }, rest)) ∧
    ∀ (codec : Codec) (limit : Nat) (buf : Bytes),
      (∀ error rest, (RecordBatch.decodeIn codec limit).run.run buf = (.error error, rest) →
        rest = buf) ∧
      ∀ batch rest, (RecordBatch.decodeIn codec limit).run.run buf = (.ok batch, rest) →
        ∃ front, buf = front ++ rest ∧ (front.length : Int) = 12 + beInt (field buf 8 4) := by
  refine ⟨⟨_, RecordBatch.encode_eq fits room packed, fun rest => ?_⟩,
    fun codec limit buf => RecordBatch.advance_decodeIn codec limit buf⟩
  have unpacked := RecordBatch.decompressRecords_eq inverse packed within
  rw [RecordBatch.run_decodeIn, RecordBatch.decodeWithLimit_frame fits room unpacked]

/-! A batch of two records. -/

def sampleBatch : RecordBatch where
  baseOffset := 7
  attributes := { compression := .lz4, isTransactional := true }
  lastOffsetDelta := 1
  producerId := 5
  producerEpoch := 0
  baseSequence := 0
  records :=
    [{ offsetDelta := 0, key := some [1], value := some [2, 3] },
      { offsetDelta := 1, timestampDelta := -300, headers := [{ key := [104], value := none }] }]

theorem sampleWire_inverse : sampleWire.Inverse := by
  intro compression level payload packed limit _ made _
  simp only [sampleWire] at made ⊢
  split_ifs at made
  cases made
  have header : ([4, 0x22, 0x4D, 0x18, 0x60, 0x40, 0x82] ++
      (putNat 4 (2 ^ 31 + payload.length)).reverse).length = 11 := by simp
  have body : (lz4Frame payload).drop 11 = payload ++ [0, 0, 0, 0] := by
    rw [lz4Frame, append_assoc, drop_left' header]
  have length : (lz4Frame payload).length - 15 = payload.length := by simp [lz4Frame]; omega
  rw [body, length, take_left]

theorem sample_batch_round_trips :
    ∃ bytes, sampleBatch.encode sampleWire = .ok bytes ∧
      ∀ rest, (RecordBatch.decodeIn sampleWire.codec 100).run.run (bytes ++ rest) =
        (.ok sampleBatch, rest) :=
  (record_batch_round_trips sampleWire sampleWire_inverse 100 sampleBatch
    (lz4Frame (payload sampleBatch.records))
    ⟨by decide, by decide, rfl, by decide, by decide, by decide, by decide, by decide, by decide,
      by decide, by
        refine forall_mem_cons.mpr ⟨⟨?_, ?_, ?_, ?_, ?_⟩, forall_mem_singleton.mpr
          ⟨?_, ?_, ?_, ?_, ?_⟩⟩ <;> decide +kernel⟩
    rfl (by decide +kernel) (fun _ => by decide +kernel)).1

end Krafka
