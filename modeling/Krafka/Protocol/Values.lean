import Krafka.Library.Texts
import Krafka.Protocol.RoundTrip

/-! The values messages are made of: integers, strings, byte strings and arrays, each with its
length in front. -/

namespace Krafka

open Reader (Takes takes_takeBytes)

/-- What is written of a value is read back as the value, whatever follows. -/
def RoundTrips {α : Type} (write : α → Result Bytes) (reader : Reader α) (value : α) :
    Prop := ∀ bytes, write value = .ok bytes → Takes reader bytes value

/-! ## Integers -/

def decodeInt (width : Nat) (type : String) : Reader Int := do
  let bytes ← takeBytes width (.protocol .truncatedFrame s!"not enough bytes for {type}")
  pure (beInt bytes)

def decodeI16 : Reader Int := decodeInt 2 "i16"
def decodeI32 : Reader Int := decodeInt 4 "i32"

theorem takes_decodeInt {width : Nat} {value : Int} (fits : Fits (8 * width) value)
    (wide : 0 < width) (type : String) : Takes (decodeInt width type) (putInt width value) value := by
  have read := (takes_takeBytes (putInt width value)
    (.protocol .truncatedFrame s!"not enough bytes for {type}")).map beInt
  rw [length_putInt, beInt_putInt fits wide] at read
  exact read

theorem takes_i16 {value : Int} (fits : Fits 16 value) : Takes decodeI16 (putInt 2 value) value :=
  takes_decodeInt fits (by decide) "i16"

theorem takes_i32 {value : Int} (fits : Fits 32 value) : Takes decodeI32 (putInt 4 value) value :=
  takes_decodeInt fits (by decide) "i32"

theorem takes_length_i32 {length : Nat} (small : length < 2 ^ 31) :
    Takes decodeI32 (putInt 4 length) length :=
  takes_i32 ⟨by omega, by norm_num; exact_mod_cast small⟩

/-! ## Strings and bytes -/

def utf8 (s : String) : Bytes := s.toUTF8.data.toList

def fromUtf8 (bytes : Bytes) : Option String := String.fromUTF8? ⟨bytes.toArray⟩

theorem fromUtf8_utf8 (s : String) : fromUtf8 (utf8 s) = some s :=
  dif_pos s.isValidUTF8

def invalidUtf8 (bytes : Bytes) : KrafkaError :=
  .protocol .invalidUtf8 ("invalid UTF-8 string: " ++ Texts.utf8Problem bytes)

def encodeString : Option String → Result Bytes
  | none => .ok (putInt 2 (-1))
  | some s =>
    let length := (utf8 s).length
    if length < 2 ^ 15 then .ok (putInt 2 length ++ utf8 s)
    else
      .error (.protocol .invalidLength
        s!"KafkaString length {length} exceeds protocol limit of 32767")

def decodeString : Reader (Option String) := do
  let len ← decodeI16
  if len = -1 then pure none
  else if len < 0 then
    throw (.protocol .malformed
      s!"invalid negative string length {len} (only -1 is valid for null)")
  else do
    let bytes ← takeBytes len.toNat (.protocol .truncatedFrame "not enough bytes for string")
    match fromUtf8 bytes with
    | some s => pure (some s)
    | none => throw (invalidUtf8 bytes)

theorem string_round_trips (value : Option String) :
    RoundTrips encodeString decodeString value := by
  intro bytes wrote
  cases value with
  | none =>
    cases wrote
    have read : Takes decodeString (putInt 2 (-1) ++ []) none :=
      (takes_i16 (by decide)).bind (.pure none)
    rwa [List.append_nil] at read
  | some s =>
    simp only [encodeString] at wrote
    split_ifs at wrote with small
    cases wrote
    refine (takes_i16 ⟨by omega, by norm_num; exact_mod_cast small⟩).bind ?_
    rw [if_neg (by omega), if_neg (by omega), Int.toNat_natCast]
    intro rest
    rw [Reader.run_bind_of_ok (takes_takeBytes (utf8 s) _ rest), fromUtf8_utf8]
    rfl

def decodeBytes : Reader (Option Bytes) := do
  let len ← decodeI32
  if len = -1 then pure none
  else if len < 0 then
    throw (.protocol .malformed
      s!"invalid negative bytes length {len} (only -1 is valid for null)")
  else do
    let bytes ← takeBytes len.toNat (.protocol .truncatedFrame "not enough bytes for bytes field")
    pure (some bytes)

theorem takes_null_bytes : Takes decodeBytes (putInt 4 (-1)) none := by
  have read : Takes decodeBytes (putInt 4 (-1) ++ []) none :=
    (takes_i32 (by decide)).bind (.pure none)
  rwa [List.append_nil] at read

theorem takes_bytes {bytes : Bytes} (small : bytes.length < 2 ^ 31) :
    Takes decodeBytes (putInt 4 bytes.length ++ bytes) (some bytes) := by
  refine (takes_length_i32 small).bind ?_
  rw [if_neg (by omega), if_neg (by omega), Int.toNat_natCast]
  exact (takes_takeBytes bytes _).map some

/-! ## Arrays -/

def arrayLenI32 (len : Nat) : Result Int :=
  lengthI32 len s!"array length {len} exceeds i32::MAX"

def checkDecodeArrayLen (len : Int) : Reader Nat :=
  if len < 0 then
    throw (.protocol .malformed (s!"negative array length {len} in decode " ++
      "(use check_decode_nullable_array_len for fields where -1 means null)"))
  else
    let len := len.toNat
    if maxDecodeArrayLen < len then
      throw (.protocol .invalidLength
        s!"array length {len} exceeds safety limit {maxDecodeArrayLen}")
    else pure len

section Array

variable {α : Type}

def encodeArray (write : α → Result Bytes) (items : List α) :
    Result Bytes := do
  let len ← arrayLenI32 items.length
  let parts ← items.mapM write
  pure (putInt 4 len ++ parts.flatten)

def decodeArray (reader : Reader α) : Reader (List α) := do
  let len ← decodeI32
  let count ← checkDecodeArrayLen len
  readMany reader count

theorem takes_parts {write : α → Result Bytes} {reader : Reader α} {items : List α}
    {parts : List Bytes} (each : ∀ a ∈ items, RoundTrips write reader a)
    (wrote : items.mapM write = .ok parts) :
    Takes (readMany reader items.length) parts.flatten items := by
  induction items generalizing parts with
  | nil =>
    cases Except.ok.inj wrote
    exact .pure []
  | cons item items ih =>
    rw [List.forall_mem_cons] at each
    rw [List.mapM_cons] at wrote
    obtain ⟨first, wroteFirst, wrote⟩ := bind_eq_ok wrote
    obtain ⟨rest, wroteRest, wrote⟩ := bind_eq_ok wrote
    rw [← Except.ok.inj wrote, List.flatten_cons]
    exact (each.1 first wroteFirst).bind ((ih each.2 wroteRest).map (item :: ·))

theorem array_round_trips {write : α → Result Bytes} {reader : Reader α}
    {items : List α} (each : ∀ a ∈ items, RoundTrips write reader a)
    (few : items.length ≤ maxDecodeArrayLen) :
    RoundTrips (encodeArray write) (decodeArray reader) items := by
  intro bytes wrote
  obtain ⟨len, counted, wrote⟩ := bind_eq_ok wrote
  obtain ⟨parts, wroteParts, wrote⟩ := bind_eq_ok wrote
  obtain ⟨small, rfl⟩ := lengthI32_eq_ok counted
  rw [← Except.ok.inj wrote]
  have count : Takes (checkDecodeArrayLen items.length) [] items.length := by
    rw [checkDecodeArrayLen, if_neg (by omega)]
    simp only [Int.toNat_natCast]
    rw [if_neg (by omega)]
    exact .pure items.length
  exact (takes_length_i32 small).bind (count.bind (takes_parts each wroteParts))

end Array

end Krafka
