import Krafka.Error
import Mathlib.Tactic.SplitIfs

/-! Record batches as they are read from the wire. The header is parsed byte by byte; the
checksum and what turns the record section into records are the codec's. -/

namespace Krafka

abbrev Bytes := List UInt8

def beNat (bytes : Bytes) : Nat := bytes.foldl (fun n b => n * 256 + b.toNat) 0

def beInt (bytes : Bytes) : Int :=
  let space : Nat := 256 ^ bytes.length
  if 2 * beNat bytes < space then beNat bytes else (beNat bytes : Int) - space

def field (buf : Bytes) (start width : Nat) : Bytes := (buf.drop start).take width

def saturatingAdd (a b : Int) : Int := max (-2 ^ 63) (min (a + b) (2 ^ 63 - 1))

theorem saturatingAdd_eq {a b : Int} (low : -2 ^ 63 ≤ a + b) (high : a + b ≤ 2 ^ 63 - 1) :
    saturatingAdd a b = a + b := by
  unfold saturatingAdd
  omega

def hex8 (n : Nat) : String := String.ofList ((Nat.toDigits 16 n).leftpad 8 '0')

inductive Compression where
  | none | gzip | snappy | lz4 | zstd
  deriving DecidableEq

def Compression.fromU8 : Nat → Option Compression
  | 0 => some .none
  | 1 => some .gzip
  | 2 => some .snappy
  | 3 => some .lz4
  | 4 => some .zstd
  | _ => Option.none

inductive TimestampType where
  | createTime | logAppendTime
  deriving DecidableEq

structure RecordBatchAttributes where
  compression : Compression := .none
  timestampType : TimestampType := .createTime
  isTransactional : Bool := false
  isControlBatch : Bool := false
  deriving DecidableEq

def RecordBatchAttributes.fromI16 (value : Nat) : Result RecordBatchAttributes :=
  match Compression.fromU8 (value % 8) with
  | Option.none =>
    let bits := value % 8
    .error (.protocol .invalidValue s!"unknown compression codec discriminant: {bits}")
  | some compression =>
    .ok
      { compression
        timestampType := if value.testBit 3 then .logAppendTime else .createTime
        isTransactional := value.testBit 4
        isControlBatch := value.testBit 5 }

structure RecordHeader where
  key : Bytes
  value : Option Bytes
  deriving DecidableEq

structure Record where
  attributes : Int := 0
  timestampDelta : Int := 0
  offsetDelta : Int
  key : Option Bytes := none
  value : Option Bytes := none
  headers : List RecordHeader := []
  deriving DecidableEq

structure RecordBatchHeader where
  baseOffset : Int
  batchLength : Int
  partitionLeaderEpoch : Int
  magic : Int := 2
  crc : Nat
  attributes : RecordBatchAttributes
  lastOffsetDelta : Int
  baseTimestamp : Int
  maxTimestamp : Int
  producerId : Int
  producerEpoch : Int
  baseSequence : Int
  recordsCount : Int
  deriving DecidableEq

namespace RecordBatchHeader

def size : Nat := 61

def crcCoveredStart : Nat := 21

def peek (buf : Bytes) : Result RecordBatchHeader :=
  if buf.length < 12 then
    .error (.protocol .truncatedFrame "not enough bytes for record batch header")
  else
    let batchLength := beInt (field buf 8 4)
    if batchLength < size - 12 then
      .error (.protocol .invalidValue s!"invalid record batch length: {batchLength}")
    else if buf.length < size then
      .error (.protocol .truncatedFrame "not enough bytes for record batch header")
    else
      let magic := beInt (field buf 16 1)
      if magic ≠ 2 then
        .error (.protocol .unsupportedMagic s!"unsupported record batch magic: {magic}")
      else
        match RecordBatchAttributes.fromI16 (beNat (field buf 21 2)) with
        | .error error => .error error
        | .ok attributes =>
          let recordsCount := beInt (field buf 57 4)
          if recordsCount < 0 then
            .error (.protocol .invalidValue s!"invalid negative records count: {recordsCount}")
          else
            .ok
              { batchLength, magic, attributes, recordsCount
                baseOffset := beInt (field buf 0 8)
                partitionLeaderEpoch := beInt (field buf 12 4)
                crc := beNat (field buf 17 4)
                lastOffsetDelta := beInt (field buf 23 4)
                baseTimestamp := beInt (field buf 27 8)
                maxTimestamp := beInt (field buf 35 8)
                producerId := beInt (field buf 43 8)
                producerEpoch := beInt (field buf 51 2)
                baseSequence := beInt (field buf 53 4) }

def totalSize (header : RecordBatchHeader) : Nat := 12 + header.batchLength.toNat

def lastOffset (header : RecordBatchHeader) : Int :=
  saturatingAdd header.baseOffset header.lastOffsetDelta

theorem size_le_totalSize {buf : Bytes} {header : RecordBatchHeader}
    (parsed : peek buf = .ok header) : size ≤ header.totalSize := by
  unfold peek at parsed
  simp only at parsed
  split_ifs at parsed with short small truncated magic negative
  · split at parsed <;> cases parsed
  · split at parsed
    · cases parsed
    · cases parsed
      simp only [totalSize, size] at *
      omega

theorem batchLength_of_peek {buf : Bytes} {header : RecordBatchHeader}
    (parsed : peek buf = .ok header) : header.batchLength = beInt (field buf 8 4) := by
  unfold peek at parsed
  simp only at parsed
  split_ifs at parsed with short small truncated magic negative
  · split at parsed <;> cases parsed
  · split at parsed
    · cases parsed
    · cases parsed
      rfl

end RecordBatchHeader

structure Codec where
  crc32c : Bytes → Nat
  /-- Decompress the record section, within the limit, and decode as many records as the header
  declares. -/
  records : (maxDecompressedSize : Nat) → Compression → Bytes → (count : Nat) →
    Result (List Record)

structure RecordBatch where
  baseOffset : Int
  partitionLeaderEpoch : Int := 0
  magic : Int := 2
  attributes : RecordBatchAttributes := {}
  lastOffsetDelta : Int := 0
  baseTimestamp : Int := 0
  maxTimestamp : Int := 0
  producerId : Int := -1
  producerEpoch : Int := -1
  baseSequence : Int := -1
  records : List Record := []
  compressionLevel : Option Int := none
  deriving DecidableEq

namespace RecordBatch

def ofHeader (header : RecordBatchHeader) (records : List Record) : RecordBatch :=
  { baseOffset := header.baseOffset
    partitionLeaderEpoch := header.partitionLeaderEpoch
    magic := header.magic
    attributes := header.attributes
    lastOffsetDelta := header.lastOffsetDelta
    baseTimestamp := header.baseTimestamp
    maxTimestamp := header.maxTimestamp
    producerId := header.producerId
    producerEpoch := header.producerEpoch
    baseSequence := header.baseSequence
    records }

def decodeWithLimit (codec : Codec) (maxDecompressedSize : Nat) (buf : Bytes) :
    Result (RecordBatch × Bytes) :=
  match RecordBatchHeader.peek buf with
  | .error error => .error error
  | .ok header =>
    let totalSize := header.totalSize
    let length := buf.length
    let computed := codec.crc32c ((buf.take totalSize).drop RecordBatchHeader.crcCoveredStart)
    if length < totalSize then
      .error (.protocol .truncatedFrame
        s!"not enough bytes for record batch: need {totalSize}, have {length}")
    else if computed ≠ header.crc then
      let expected := hex8 header.crc
      let got := hex8 computed
      .error (.protocol .crcMismatch s!"CRC mismatch: expected {expected}, got {got}")
    else
      match codec.records maxDecompressedSize header.attributes.compression
          ((buf.take totalSize).drop RecordBatchHeader.size) header.recordsCount.toNat with
      | .error error => .error error
      | .ok records => .ok (ofHeader header records, buf.drop totalSize)

theorem decodeWithLimit_eq_ok {codec : Codec} {limit : Nat} {buf rest : Bytes} {batch : RecordBatch}
    (decoded : decodeWithLimit codec limit buf = .ok (batch, rest)) :
    ∃ header, RecordBatchHeader.peek buf = .ok header ∧ header.totalSize ≤ buf.length ∧
      batch = ofHeader header batch.records ∧ rest = buf.drop header.totalSize := by
  unfold decodeWithLimit at decoded
  split at decoded
  · cases decoded
  · rename_i header parsed
    simp only at decoded
    split_ifs at decoded with short mismatch
    split at decoded
    · cases decoded
    · cases decoded
      exact ⟨header, parsed, Nat.not_lt.mp short, rfl, rfl⟩

theorem length_decodeWithLimit_lt {codec : Codec} {limit : Nat} {buf rest : Bytes}
    {batch : RecordBatch} (decoded : decodeWithLimit codec limit buf = .ok (batch, rest)) :
    rest.length < buf.length := by
  obtain ⟨header, parsed, whole, -, rfl⟩ := decodeWithLimit_eq_ok decoded
  have large := RecordBatchHeader.size_le_totalSize parsed
  simp only [RecordBatchHeader.size] at large
  rw [List.length_drop]
  omega

end RecordBatch

end Krafka
