import Krafka.Protocol.Primitives

/-! The record batch format, version 2: how records and batches are written, and how they are
read back. The compression codecs and the checksum come from outside. -/

namespace Krafka

def maxDecodeArrayLen : Nat := 100000

def minRecordSize : Nat := 7

def lengthI32 (length : Nat) (message : String) : Result Int :=
  if length < 2 ^ 31 then .ok length else .error (.protocol .invalidLength message)

/-! ## Writing -/

def encodeBytes (tooLarge : String) (bytes : Bytes) : Result Bytes := do
  let length ← lengthI32 bytes.length tooLarge
  pure (encodeSignedVarint length ++ bytes)

def encodeNullable (tooLarge : String) : Option Bytes → Result Bytes
  | some bytes => encodeBytes tooLarge bytes
  | none => pure (encodeSignedVarint (-1))

def bytesSize (tooLarge : String) (bytes : Bytes) : Result Nat := do
  let length ← lengthI32 bytes.length tooLarge
  pure (signedVarintSize length + bytes.length)

def nullableSize (tooLarge : String) : Option Bytes → Result Nat
  | some bytes => bytesSize tooLarge bytes
  | none => pure (signedVarintSize (-1))

namespace RecordHeader

def keyTooLarge : String := "record header key too large for i32 length"
def valueTooLarge : String := "record header value too large for i32 length"

def encode (header : RecordHeader) : Result Bytes := do
  let key ← encodeBytes keyTooLarge header.key
  let value ← encodeNullable valueTooLarge header.value
  pure (key ++ value)

def size (header : RecordHeader) : Result Nat := do
  let key ← bytesSize keyTooLarge header.key
  let value ← nullableSize valueTooLarge header.value
  pure (key + value)

end RecordHeader

namespace Record

def keyTooLarge : String := "record key too large for i32 length"
def valueTooLarge : String := "record value too large for i32 length"
def headersTooMany : String := "record headers count exceeds i32 limit"

def recordBodySize (record : Record) : Result Nat := do
  let key ← nullableSize keyTooLarge record.key
  let value ← nullableSize valueTooLarge record.value
  let count ← lengthI32 record.headers.length headersTooMany
  let headers ← record.headers.mapM RecordHeader.size
  pure (1 + signedVarlongSize record.timestampDelta + signedVarintSize record.offsetDelta + key +
    value + signedVarintSize count + headers.sum)

def encodeBody (record : Record) : Result Bytes := do
  let key ← encodeNullable keyTooLarge record.key
  let value ← encodeNullable valueTooLarge record.value
  let count ← lengthI32 record.headers.length headersTooMany
  let headers ← record.headers.mapM RecordHeader.encode
  pure (putInt 1 record.attributes ++ encodeSignedVarlong record.timestampDelta ++
    encodeSignedVarint record.offsetDelta ++ key ++ value ++ encodeSignedVarint count ++
    headers.flatten)

def encode (record : Record) : Result Bytes := do
  let bodySize ← record.recordBodySize
  let length ← lengthI32 bodySize "record too large for i32 length prefix"
  let body ← record.encodeBody
  pure (encodeSignedVarint length ++ body)

end Record

def RecordBatchAttributes.toI16 (attributes : RecordBatchAttributes) : Nat :=
  let value := match attributes.compression with
    | .none => 0
    | .gzip => 1
    | .snappy => 2
    | .lz4 => 3
    | .zstd => 4
  let value := if attributes.timestampType = .logAppendTime then value ||| 0x08 else value
  let value := if attributes.isTransactional then value ||| 0x10 else value
  if attributes.isControlBatch then value ||| 0x20 else value

/-- The compression codecs and the checksum. `pack` and `unpack` are only asked about real
codecs. -/
structure WireCodec where
  crc32c : Bytes → Nat
  crc32c_lt : ∀ bytes, crc32c bytes < 2 ^ 32
  pack : Compression → (level : Option Int) → Bytes → Result Bytes
  unpack : Compression → (maxDecompressedSize : Nat) → Bytes → Result Bytes

def checkDecompressed (maxDecompressedSize : Nat) (result : Bytes) : Result Bytes :=
  let size := result.length
  if maxDecompressedSize < size then
    .error (.compression (s!"decompressed size {size} exceeds maximum {maxDecompressedSize} bytes " ++
      "(possible compression bomb)"))
  else .ok result

/-! A codec of its own: CRC-32C, and LZ4 where it stores a small payload as it is. -/

def crcByte (crc : BitVec 32) (byte : UInt8) : BitVec 32 :=
  (List.range 8).foldl
    (fun crc _ => (crc >>> 1) ^^^ if crc.getLsbD 0 then 0x82F63B78#32 else 0#32)
    (crc ^^^ byte.toBitVec.setWidth 32)

def crc32c (bytes : Bytes) : BitVec 32 := ~~~(bytes.foldl crcByte (BitVec.allOnes 32))

def lz4Frame (payload : Bytes) : Bytes :=
  [4, 0x22, 0x4D, 0x18, 0x60, 0x40, 0x82] ++ (putNat 4 (2 ^ 31 + payload.length)).reverse ++
    payload ++ [0, 0, 0, 0]

def sampleWire : WireCodec where
  crc32c bytes := (crc32c bytes).toNat
  crc32c_lt bytes := (crc32c bytes).isLt
  pack compression _ payload :=
    if compression = .lz4 ∧ payload.length ≤ 2 ^ 16 then .ok (lz4Frame payload)
    else .error (.compression "not supported")
  unpack _ _ packed := .ok ((packed.drop 11).take (packed.length - 15))

namespace WireCodec

variable (wire : WireCodec)

def compressWithLevel (compression : Compression) (level : Option Int) (payload : Bytes) :
    Result Bytes :=
  match compression with
  | .none => .ok payload
  | compression => wire.pack compression level payload

def decompressRecords (compression : Compression) (data : Bytes) (maxDecompressedSize : Nat) :
    Result Bytes :=
  match compression with
  | .none => .ok data
  | compression =>
    wire.unpack compression maxDecompressedSize data >>= checkDecompressed maxDecompressedSize

end WireCodec

def patch (buf : Bytes) (pos : Nat) (bytes : Bytes) : Bytes :=
  buf.take pos ++ bytes ++ buf.drop (pos + bytes.length)

def encodeRecords (records : List Record) : Result Bytes := do
  let encoded ← records.mapM Record.encode
  pure encoded.flatten

namespace RecordBatch

def batchLengthPos : Nat := 8
def crcPos : Nat := 17

def fixedOverhead : Nat := 49

def header (batch : RecordBatch) (batchLength : Int) (crc : Nat) (recordsCount : Int) : Bytes :=
  putInt 8 batch.baseOffset ++ (putInt 4 batchLength ++ (putInt 4 batch.partitionLeaderEpoch ++
    (putInt 1 batch.magic ++ (putNat 4 crc ++ (putNat 2 batch.attributes.toI16 ++
    (putInt 4 batch.lastOffsetDelta ++ (putInt 8 batch.baseTimestamp ++
    (putInt 8 batch.maxTimestamp ++ (putInt 8 batch.producerId ++ (putInt 2 batch.producerEpoch ++
    (putInt 4 batch.baseSequence ++ putInt 4 recordsCount)))))))))))

def tooLarge : String := "record batch too large for i32 length prefix"

def encode (wire : WireCodec) (batch : RecordBatch) : Result Bytes := do
  let recordsCount ← lengthI32 batch.records.length "record batch record count exceeds i32 limit"
  if batch.attributes.compression = .none then
    -- length and checksum are known once the records are written: zeros, patched in place
    let records ← encodeRecords batch.records
    let buf := batch.header 0 0 recordsCount ++ records
    let batchLength ← lengthI32 (buf.length - 12) tooLarge
    let buf := patch buf batchLengthPos (putInt 4 batchLength)
    let crc := wire.crc32c (buf.drop RecordBatchHeader.crcCoveredStart)
    pure (patch buf crcPos (putNat 4 crc))
  else
    let records ← encodeRecords batch.records
    let compressed ←
      wire.compressWithLevel batch.attributes.compression batch.compressionLevel records
    let batchLength ← lengthI32 (fixedOverhead + compressed.length) tooLarge
    let buf := batch.header batchLength 0 recordsCount ++ compressed
    let crc := wire.crc32c (buf.drop RecordBatchHeader.crcCoveredStart)
    pure (patch buf crcPos (putNat 4 crc))

end RecordBatch

/-! ## Reading -/

def takeBytes (length : Nat) (error : KrafkaError) : Reader Bytes := fun buf =>
  if buf.length < length then .error error else .ok (buf.take length, buf.drop length)

def decodeNullable (invalid : String) : Reader (Option Bytes) := do
  let length ← decodeSignedVarint
  if length < 0 then pure none
  else do
    let bytes ← takeBytes length.toNat (.protocol .invalidValue invalid)
    pure (some bytes)

namespace RecordHeader

def invalidKey : KrafkaError := .protocol .invalidValue "invalid header key length"

def decode : Reader RecordHeader := do
  let length ← decodeSignedVarint
  if length < 0 then throw invalidKey
  else do
    let key ← takeBytes length.toNat invalidKey
    let value ← decodeNullable "invalid header value length"
    pure { key, value }

end RecordHeader

def readMany {α : Type} (reader : Reader α) : Nat → Reader (List α)
  | 0 => pure []
  | count + 1 => do
    let first ← reader
    let rest ← readMany reader count
    pure (first :: rest)

namespace Record

def decodeHeaders : Reader (List RecordHeader) := do
  let count ← decodeSignedVarint
  if count < 0 then throw (.protocol .invalidValue s!"negative header count {count} in record")
  else if maxDecodeArrayLen < count.toNat then
    let count := count.toNat
    throw (.protocol .invalidLength s!"header count {count} exceeds safety limit {maxDecodeArrayLen}")
  else readMany RecordHeader.decode count.toNat

def decodeBody : Reader Record := do
  let attributes ← takeBytes 1 (.protocol .malformed "missing record attributes")
  let timestampDelta ← decodeSignedVarlong
  let offsetDelta ← decodeSignedVarint
  let key ← decodeNullable "invalid record key length"
  let value ← decodeNullable "invalid record value length"
  let headers ← decodeHeaders
  pure { attributes := beInt attributes, timestampDelta, offsetDelta, key, value, headers }

def decode : Reader Record := do
  let length ← decodeSignedVarint
  if length < 0 then throw (.protocol .invalidValue s!"invalid record length: {length}")
  else do
    let have_ := (← get).length
    let body ← takeBytes length.toNat (.protocol .truncatedFrame
      s!"record body truncated: need {length} bytes, have {have_}")
    let (record, _) ← decodeBody.run body
    pure record

end Record

def WireCodec.decodeRecords (wire : WireCodec) (maxDecompressedSize : Nat)
    (compression : Compression) (compressed : Bytes) (recordsCount : Nat) :
    Result (List Record) := do
  let recordsBuf ← wire.decompressRecords compression compressed maxDecompressedSize
  let size := recordsBuf.length
  if size / minRecordSize < recordsCount then
    .error (.protocol .invalidLength
      (s!"record batch declares {recordsCount} records but holds only {size} record bytes " ++
        s!"(at least {minRecordSize} bytes per record)"))
  else do
    let (records, _) ← (readMany Record.decode recordsCount).run recordsBuf
    pure records

def WireCodec.codec (wire : WireCodec) : Codec where
  crc32c := wire.crc32c
  records := wire.decodeRecords

namespace RecordBatch

def decodeIn (codec : Codec) (maxDecompressedSize : Nat) :
    ExceptT KrafkaError (StateM Bytes) RecordBatch := do
  let buf ← get
  let header ← ExceptT.mk (pure (RecordBatchHeader.peek buf))
  let totalSize := header.totalSize
  let length := buf.length
  if length < totalSize then
    throw (.protocol .truncatedFrame
      s!"not enough bytes for record batch: need {totalSize}, have {length}")
  else do
    let computed := codec.crc32c ((buf.take totalSize).drop RecordBatchHeader.crcCoveredStart)
    if computed ≠ header.crc then
      let expected := hex8 header.crc
      let got := hex8 computed
      throw (.protocol .crcMismatch s!"CRC mismatch: expected {expected}, got {got}")
    else do
      let compressed := (buf.take totalSize).drop RecordBatchHeader.size
      let records ← ExceptT.mk (pure (codec.records maxDecompressedSize
        header.attributes.compression compressed header.recordsCount.toNat))
      modify (·.drop totalSize)
      pure (ofHeader header records)

end RecordBatch

end Krafka
