import Krafka.Protocol.RecordFormat

/-! What a record is written as is a function of the record alone: `wire`. The encoder gives that
when the lengths fit their fields, and nothing else ever. -/

namespace Krafka

def bytesWire (bytes : Bytes) : Bytes := encodeSignedVarint bytes.length ++ bytes

def nullableWire : Option Bytes → Bytes
  | some bytes => bytesWire bytes
  | none => encodeSignedVarint (-1)

def RecordHeader.wire (header : RecordHeader) : Bytes :=
  bytesWire header.key ++ nullableWire header.value

namespace Record

def body (record : Record) : Bytes :=
  putInt 1 record.attributes ++ (encodeSignedVarlong record.timestampDelta ++
    (encodeSignedVarint record.offsetDelta ++ (nullableWire record.key ++
    (nullableWire record.value ++ (encodeSignedVarint record.headers.length ++
    record.headers.flatMap RecordHeader.wire)))))

def wire (record : Record) : Bytes := encodeSignedVarint record.body.length ++ record.body

/-- The fields are within their types, the headers within the limit of the decoder, and the
record within that of its length field. -/
structure Fits (record : Record) : Prop where
  attributes : Krafka.Fits 8 record.attributes
  timestampDelta : Krafka.Fits 64 record.timestampDelta
  offsetDelta : Krafka.Fits 32 record.offsetDelta
  headers : record.headers.length ≤ maxDecodeArrayLen
  body : record.body.length < 2 ^ 31

end Record

section Lengths

theorem lengthI32_of_lt {length : Nat} (small : length < 2 ^ 31) (message : String) :
    lengthI32 length message = .ok (length : Int) := if_pos small

theorem fits_length {length : Nat} (small : length < 2 ^ 31) : Fits 32 (length : Int) := by
  constructor <;> omega

theorem encodeBytes_of_lt {bytes : Bytes} (small : bytes.length < 2 ^ 31) (tooLarge : String) :
    encodeBytes tooLarge bytes = .ok (bytesWire bytes) := by
  rw [encodeBytes, lengthI32_of_lt small]
  rfl

theorem bytesSize_of_lt {bytes : Bytes} (small : bytes.length < 2 ^ 31) (tooLarge : String) :
    bytesSize tooLarge bytes = .ok (bytesWire bytes).length := by
  rw [bytesSize, lengthI32_of_lt small, bytesWire, List.length_append, encodeSignedVarint,
    VarFormat.length_encodeSigned]
  rfl

theorem length_le_bytesWire (bytes : Bytes) : bytes.length < (bytesWire bytes).length := by
  have pos : 0 < (encodeSignedVarint bytes.length).length :=
    (VarFormat.length_encodeSigned ..).symm ▸ Varint.size_pos ..
  rw [bytesWire, List.length_append]
  omega

variable {value : Option Bytes} (small : (nullableWire value).length < 2 ^ 31) (tooLarge : String)

include small

theorem encodeNullable_of_lt : encodeNullable tooLarge value = .ok (nullableWire value) := by
  cases value with
  | none => rfl
  | some bytes => exact encodeBytes_of_lt ((length_le_bytesWire bytes).trans small) tooLarge

theorem nullableSize_of_lt : nullableSize tooLarge value = .ok (nullableWire value).length := by
  cases value with
  | none => rw [nullableWire, encodeSignedVarint, VarFormat.length_encodeSigned]; rfl
  | some bytes => exact bytesSize_of_lt ((length_le_bytesWire bytes).trans small) tooLarge

end Lengths

theorem mapM_ok {α β ε : Type} {f : α → Except ε β} {g : α → β} {l : List α}
    (each : ∀ a ∈ l, f a = .ok (g a)) : l.mapM f = .ok (l.map g) := by
  induction l with
  | nil => rfl
  | cons a l ih =>
    rw [List.forall_mem_cons] at each
    rw [List.mapM_cons, each.1, ih each.2]
    rfl

namespace RecordHeader

variable {header : RecordHeader} (small : header.wire.length < 2 ^ 31)

include small

theorem parts_lt : header.key.length < 2 ^ 31 ∧ (nullableWire header.value).length < 2 ^ 31 := by
  have key := length_le_bytesWire header.key
  rw [wire, List.length_append] at small
  constructor <;> omega

theorem encode_of_lt : header.encode = .ok header.wire := by
  rw [encode, encodeBytes_of_lt (parts_lt small).1, encodeNullable_of_lt (parts_lt small).2]
  rfl

theorem size_of_lt : header.size = .ok header.wire.length := by
  rw [size, bytesSize_of_lt (parts_lt small).1, nullableSize_of_lt (parts_lt small).2, wire,
    List.length_append]
  rfl

end RecordHeader

namespace Record

theorem length_body (record : Record) : record.body.length =
    1 + signedVarlongSize record.timestampDelta + signedVarintSize record.offsetDelta +
      (nullableWire record.key).length + (nullableWire record.value).length +
      signedVarintSize record.headers.length +
      (record.headers.map fun header => header.wire.length).sum := by
  simp only [body, List.length_append, length_putInt, List.length_flatMap, encodeSignedVarint,
    encodeSignedVarlong, VarFormat.length_encodeSigned, signedVarintSize, signedVarlongSize,
    Nat.add_assoc]

theorem length_wire_le {headers : List RecordHeader} {header : RecordHeader}
    (member : header ∈ headers) :
    header.wire.length ≤ (headers.flatMap RecordHeader.wire).length := by
  obtain ⟨front, back, rfl⟩ := List.append_of_mem member
  simp only [List.flatMap_append, List.flatMap_cons, List.length_append]
  omega

variable {record : Record} (fits : record.Fits)

include fits

theorem Fits.key_lt : (nullableWire record.key).length < 2 ^ 31 := by
  have small := fits.body
  simp only [Record.body, List.length_append] at small
  omega

theorem Fits.value_lt : (nullableWire record.value).length < 2 ^ 31 := by
  have small := fits.body
  simp only [Record.body, List.length_append] at small
  omega

theorem Fits.headers_lt : record.headers.length < 2 ^ 31 := by
  have few := fits.headers
  simp only [maxDecodeArrayLen] at few
  omega

theorem Fits.header_lt {header : RecordHeader} (member : header ∈ record.headers) :
    header.wire.length < 2 ^ 31 := by
  have small := fits.body
  have part := length_wire_le member
  simp only [Record.body, List.length_append] at small
  omega

theorem encodeBody_eq : record.encodeBody = .ok record.body := by
  rw [encodeBody, encodeNullable_of_lt fits.key_lt, encodeNullable_of_lt fits.value_lt,
    lengthI32_of_lt fits.headers_lt, mapM_ok fun _ member =>
      RecordHeader.encode_of_lt (fits.header_lt member)]
  simp only [body, List.flatMap, List.append_assoc]
  rfl

theorem recordBodySize_eq : record.recordBodySize = .ok record.body.length := by
  rw [recordBodySize, nullableSize_of_lt fits.key_lt, nullableSize_of_lt fits.value_lt,
    lengthI32_of_lt fits.headers_lt, mapM_ok fun _ member =>
      RecordHeader.size_of_lt (fits.header_lt member)]
  exact congrArg Except.ok record.length_body.symm

theorem encode_eq : record.encode = .ok record.wire := by
  rw [encode, recordBodySize_eq fits, encodeBody_eq fits]
  show lengthI32 record.body.length _ >>= _ = _
  rw [lengthI32_of_lt fits.body]
  rfl

end Record

/-! ## Nothing else is written -/

section Only

theorem lengthI32_eq_ok {length : Nat} {message : String} {value : Int}
    (done : lengthI32 length message = .ok value) : length < 2 ^ 31 ∧ value = length := by
  unfold lengthI32 at done
  split_ifs at done with small
  exact ⟨small, (Except.ok.inj done).symm⟩

theorem mapM_eq_ok {ε α β : Type} {f : α → Except ε β} {g : α → β} {l : List α} {bs : List β}
    (each : ∀ a b, f a = .ok b → b = g a) (done : l.mapM f = .ok bs) : bs = l.map g := by
  induction l generalizing bs with
  | nil => exact (Except.ok.inj done).symm
  | cons a l ih =>
    rw [List.mapM_cons] at done
    obtain ⟨b, first, done⟩ := bind_eq_ok done
    obtain ⟨rest, others, done⟩ := bind_eq_ok done
    rw [← Except.ok.inj done, each a b first, ih others, List.map_cons]

variable {tooLarge : String}

variable {out : Bytes}

theorem encodeBytes_eq_ok {bytes : Bytes} (done : encodeBytes tooLarge bytes = .ok out) :
    out = bytesWire bytes := by
  obtain ⟨length, read, done⟩ := bind_eq_ok done
  rw [← Except.ok.inj done, (lengthI32_eq_ok read).2, bytesWire]

theorem encodeNullable_eq_ok {value : Option Bytes}
    (done : encodeNullable tooLarge value = .ok out) : out = nullableWire value := by
  cases value with
  | none => exact (Except.ok.inj done).symm
  | some => exact encodeBytes_eq_ok done

variable {size : Nat}

theorem bytesSize_eq_ok {bytes : Bytes} (done : bytesSize tooLarge bytes = .ok size) :
    size = (bytesWire bytes).length := by
  obtain ⟨length, read, _⟩ := bind_eq_ok done
  rw [bytesSize_of_lt (lengthI32_eq_ok read).1] at done
  exact (Except.ok.inj done).symm

theorem nullableSize_eq_ok {value : Option Bytes}
    (done : nullableSize tooLarge value = .ok size) : size = (nullableWire value).length := by
  cases value with
  | none =>
    rw [← Except.ok.inj done, nullableWire, encodeSignedVarint, VarFormat.length_encodeSigned,
      signedVarintSize]
  | some => exact bytesSize_eq_ok done

theorem RecordHeader.encode_eq_ok {header : RecordHeader}
    (done : header.encode = .ok out) : out = header.wire := by
  obtain ⟨key, wroteKey, done⟩ := bind_eq_ok done
  obtain ⟨value, wroteValue, done⟩ := bind_eq_ok done
  rw [← Except.ok.inj done, encodeBytes_eq_ok wroteKey, encodeNullable_eq_ok wroteValue, wire]

theorem RecordHeader.size_eq_ok {header : RecordHeader}
    (done : header.size = .ok size) : size = header.wire.length := by
  obtain ⟨key, sizeKey, done⟩ := bind_eq_ok done
  obtain ⟨value, sizeValue, done⟩ := bind_eq_ok done
  rw [← Except.ok.inj done, bytesSize_eq_ok sizeKey, nullableSize_eq_ok sizeValue, wire,
    List.length_append]

namespace Record

variable {record : Record}

theorem encodeBody_eq_ok {out : Bytes} (done : record.encodeBody = .ok out) : out = record.body := by
  obtain ⟨key, wroteKey, done⟩ := bind_eq_ok done
  obtain ⟨value, wroteValue, done⟩ := bind_eq_ok done
  obtain ⟨count, read, done⟩ := bind_eq_ok done
  obtain ⟨headers, wroteHeaders, done⟩ := bind_eq_ok done
  rw [← Except.ok.inj done, encodeNullable_eq_ok wroteKey, encodeNullable_eq_ok wroteValue,
    (lengthI32_eq_ok read).2, mapM_eq_ok (fun _ _ => RecordHeader.encode_eq_ok) wroteHeaders]
  simp only [body, List.flatMap, List.append_assoc]

theorem recordBodySize_eq_ok {size : Nat} (done : record.recordBodySize = .ok size) :
    size = record.body.length := by
  obtain ⟨key, sizeKey, done⟩ := bind_eq_ok done
  obtain ⟨value, sizeValue, done⟩ := bind_eq_ok done
  obtain ⟨count, read, done⟩ := bind_eq_ok done
  obtain ⟨headers, sizeHeaders, done⟩ := bind_eq_ok done
  rw [← Except.ok.inj done, nullableSize_eq_ok sizeKey, nullableSize_eq_ok sizeValue,
    (lengthI32_eq_ok read).2, mapM_eq_ok (fun _ _ => RecordHeader.size_eq_ok) sizeHeaders,
    record.length_body]

theorem encode_eq_ok {out : Bytes} (done : record.encode = .ok out) : out = record.wire := by
  obtain ⟨size, sized, done⟩ := bind_eq_ok done
  obtain ⟨length, read, done⟩ := bind_eq_ok done
  obtain ⟨body, wrote, done⟩ := bind_eq_ok done
  rw [← Except.ok.inj done, (lengthI32_eq_ok read).2, recordBodySize_eq_ok sized,
    encodeBody_eq_ok wrote, wire]

end Record

def payload (records : List Record) : Bytes := records.flatMap Record.wire

theorem encodeRecords_eq {records : List Record} (fits : ∀ record ∈ records, record.Fits) :
    encodeRecords records = .ok (payload records) := by
  rw [encodeRecords, mapM_ok fun record member => Record.encode_eq (fits record member)]
  rfl

theorem encodeRecords_eq_ok {records : List Record}
    (done : encodeRecords records = .ok out) : out = payload records := by
  obtain ⟨encoded, wrote, done⟩ := bind_eq_ok done
  rw [← Except.ok.inj done, mapM_eq_ok (fun _ _ => Record.encode_eq_ok) wrote, payload,
    List.flatMap]

end Only

/-! ## The size of a batch -/

theorem length_patch {buf bytes : Bytes} {pos : Nat} (inside : pos + bytes.length ≤ buf.length) :
    (patch buf pos bytes).length = buf.length := by
  simp only [patch, List.length_append, List.length_take, List.length_drop]
  omega

namespace RecordBatch

@[simp] theorem length_header (batch : RecordBatch) (batchLength : Int) (crc : Nat) (recordsCount : Int) :
    (batch.header batchLength crc recordsCount).length = RecordBatchHeader.size := by
  simp [header, RecordBatchHeader.size]

theorem length_encode {wire : WireCodec} {batch : RecordBatch} {bytes : Bytes}
    (plain : batch.attributes.compression = .none) (done : batch.encode wire = .ok bytes) :
    bytes.length = RecordBatchHeader.size + (payload batch.records).length := by
  obtain ⟨count, _, done⟩ := bind_eq_ok done
  rw [if_pos plain] at done
  obtain ⟨records, wrote, done⟩ := bind_eq_ok done
  obtain ⟨length, _, done⟩ := bind_eq_ok done
  have whole : (batch.header 0 0 count ++ records).length =
      RecordBatchHeader.size + (payload batch.records).length := by
    rw [List.length_append, length_header, encodeRecords_eq_ok wrote]
  have patched : (patch (batch.header 0 0 count ++ records) batchLengthPos
      (putInt 4 length)).length = RecordBatchHeader.size + (payload batch.records).length := by
    rw [length_patch, whole]
    rw [whole, length_putInt, batchLengthPos, RecordBatchHeader.size]
    omega
  rw [← Except.ok.inj done, length_patch, patched]
  rw [patched, length_putNat, crcPos, RecordBatchHeader.size]
  omega

end RecordBatch

end Krafka
