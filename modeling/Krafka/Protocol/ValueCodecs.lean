import Krafka.Protocol.Values

/-! Nullable strings, bytes and arrays and the tagged fields, in the classic and in the compact
form. -/

namespace Krafka

open Reader (Takes takes_takeBytes)

/-- `TryEncode` and `Decode`: the compact form is the classic one unless a type has its own. -/
structure ValueCodec (α : Type) where
  tryEncode : α → Result Bytes
  tryEncodeCompact : α → Result Bytes := tryEncode
  decode : Reader α
  decodeCompact : Reader α := decode

section Forms

variable {α : Type}

/-! ## Writing -/

def encodeClassic (width : Nat) (tooLong : Nat → String) (length : α → Nat)
    (body : α → Result Bytes) : Option α → Result Bytes
  | none => .ok (putInt width (-1))
  | some value =>
    if length value < 2 ^ (8 * width - 1) then do
      let bytes ← body value
      pure (putInt width (length value) ++ bytes)
    else .error (.protocol .invalidLength (tooLong (length value)))

def encodeCompact (tooLong : Nat → String) (length : α → Nat)
    (body : α → Result Bytes) : Option α → Result Bytes
  | none => .ok (encodeUnsignedVarint 0)
  | some value =>
    if length value + 1 < 2 ^ 32 then do
      let bytes ← body value
      pure (encodeUnsignedVarint (length value + 1) ++ bytes)
    else .error (.protocol .invalidLength (tooLong (length value)))

def writeItems (write : α → Result Bytes) (items : List α) :
    Result Bytes := do
  let parts ← items.mapM write
  pure parts.flatten

/-! ## Reading -/

def decodeClassic (width : Nat) (type : String) (negative : Int → String) (body : Nat → Reader α) :
    Reader (Option α) := do
  let len ← decodeInt width type
  if len = -1 then pure none
  else if len < 0 then throw (.protocol .malformed (negative len))
  else do
    let value ← body len.toNat
    pure (some value)

def decodeCompact (body : Nat → Reader α) : Reader (Option α) := do
  let len ← decodeUnsignedVarint
  if len = 0 then pure none
  else do
    let value ← body (len - 1)
    pure (some value)

def readText (short : String) (len : Nat) : Reader String := do
  let bytes ← takeBytes len (.protocol .truncatedFrame short)
  match fromUtf8 bytes with
  | some s => pure s
  | none => throw (invalidUtf8 bytes)

def readItems (reader : Reader α) (len : Nat) : Reader (List α) :=
  if maxDecodeArrayLen < len then
    throw (.protocol .invalidLength
      s!"array length {len} exceeds safety limit {maxDecodeArrayLen}")
  else readMany reader len

end Forms

/-! ## The codecs -/

def kafkaString : ValueCodec (Option String) where
  tryEncode := encodeString
  tryEncodeCompact := encodeCompact (fun len => s!"compact KafkaString length {len} exceeds u32 limit")
    (fun s => (utf8 s).length) fun s => .ok (utf8 s)
  decode := decodeString
  decodeCompact := decodeCompact (readText "not enough bytes for compact string")

def kafkaBytes : ValueCodec (Option Bytes) where
  tryEncode := encodeClassic 4
    (fun len => s!"KafkaBytes length {len} exceeds protocol limit of 2147483647") List.length .ok
  tryEncodeCompact := encodeCompact
    (fun len => s!"compact KafkaBytes length {len} exceeds u32 limit") List.length .ok
  decode := decodeBytes
  decodeCompact := decodeCompact fun len =>
    takeBytes len (.protocol .truncatedFrame "not enough bytes for compact bytes field")

def kafkaArray {α : Type} (item : ValueCodec α) : ValueCodec (Option (List α)) where
  tryEncode := encodeClassic 4
    (fun len => s!"KafkaArray length {len} exceeds protocol limit of 2147483647") List.length
    (writeItems item.tryEncode)
  tryEncodeCompact := encodeCompact
    (fun len => s!"compact KafkaArray length {len} exceeds u32 limit") List.length
    (writeItems item.tryEncodeCompact)
  decode := decodeClassic 4 "i32"
    (fun len => s!"invalid negative array length {len} (only -1 is valid for null)")
    (readItems item.decode)
  decodeCompact := decodeCompact (readItems item.decodeCompact)

structure TaggedField where
  tag : UInt32
  data : Bytes

namespace TaggedField

def encode (field : TaggedField) : Result Bytes :=
  let len := field.data.length
  if len < 2 ^ 32 then
    .ok (encodeUnsignedVarint field.tag.toNat ++ (encodeUnsignedVarint len ++ field.data))
  else .error (.protocol .invalidLength s!"TaggedField data length {len} exceeds u32 limit")

def decode : Reader TaggedField := do
  let tag ← decodeUnsignedVarint
  let len ← decodeUnsignedVarint
  let data ← takeBytes len (.protocol .truncatedFrame "not enough bytes for tagged field")
  pure { tag := .ofNat tag, data }

end TaggedField

def taggedFields : ValueCodec (List TaggedField) where
  tryEncode fields :=
    let count := fields.length
    if count < 2 ^ 32 then do
      let parts ← writeItems TaggedField.encode fields
      pure (encodeUnsignedVarint count ++ parts)
    else .error (.protocol .invalidLength s!"TaggedFields count {count} exceeds u32 limit")
  decode := do
    let count ← decodeUnsignedVarint
    if maxDecodeArrayLen < count then
      throw (.protocol .invalidLength
        s!"tagged fields count {count} exceeds safety limit {maxDecodeArrayLen}")
    else readMany TaggedField.decode count

theorem decodeString_eq : decodeString = decodeClassic 2 "i16"
    (fun len => s!"invalid negative string length {len} (only -1 is valid for null)")
    (readText "not enough bytes for string") := by
  unfold decodeString decodeClassic
  refine bind_congr fun len => ?_
  split_ifs
  · rfl
  · rfl
  · unfold readText
    rw [bind_assoc]
    refine bind_congr fun bytes => ?_
    cases fromUtf8 bytes <;> rfl

theorem decodeBytes_eq : decodeBytes = decodeClassic 4 "i32"
    (fun len => s!"invalid negative bytes length {len} (only -1 is valid for null)")
    fun len => takeBytes len (.protocol .truncatedFrame "not enough bytes for bytes field") := rfl

/-! ## Round trips -/

structure ValueCodec.RoundTrips {α : Type} (codec : ValueCodec α) (value : α) : Prop where
  classic : Krafka.RoundTrips codec.tryEncode codec.decode value
  compact : Krafka.RoundTrips codec.tryEncodeCompact codec.decodeCompact value

section RoundTrips

variable {α : Type} {tooLong : Nat → String} {length : α → Nat}
  {body : α → Result Bytes} {reader : Nat → Reader α} {value : Option α}

theorem takes_unsigned {n : Nat} (small : n < 2 ^ 32) :
    Takes decodeUnsignedVarint (encodeUnsignedVarint n) n := varint.takes_decodeUnsigned small

theorem classic_round_trips {width : Nat} {type : String} {negative : Int → String}
    (wide : 0 < width) (each : ∀ v ∈ value, RoundTrips body (reader (length v)) v) :
    RoundTrips (encodeClassic width tooLong length body)
      (decodeClassic width type negative reader) value := by
  intro bytes wrote
  have positive : (0 : Int) < 2 ^ (8 * width - 1) := Int.pow_pos (by decide)
  cases value with
  | none =>
    cases wrote
    have fits : Fits (8 * width) (-1) := ⟨by omega, by omega⟩
    have read : Takes (decodeClassic width type negative reader) (putInt width (-1) ++ []) none :=
      (takes_decodeInt fits wide type).bind (.pure none)
    rwa [List.append_nil] at read
  | some v =>
    simp only [encodeClassic] at wrote
    split_ifs at wrote with small
    obtain ⟨back, wroteBody, wrote⟩ := bind_eq_ok wrote
    cases wrote
    have fits : Fits (8 * width) (length v) := ⟨by omega, by exact_mod_cast small⟩
    refine (takes_decodeInt fits wide type).bind ?_
    rw [if_neg (by omega), if_neg (by omega), Int.toNat_natCast]
    exact (each v rfl back wroteBody).map some

theorem compact_round_trips (each : ∀ v ∈ value, RoundTrips body (reader (length v)) v) :
    RoundTrips (encodeCompact tooLong length body) (decodeCompact reader) value := by
  intro bytes wrote
  cases value with
  | none =>
    cases wrote
    have read : Takes (decodeCompact reader) (encodeUnsignedVarint 0 ++ []) none :=
      (takes_unsigned (by decide)).bind (.pure none)
    rwa [List.append_nil] at read
  | some v =>
    simp only [encodeCompact] at wrote
    split_ifs at wrote with small
    obtain ⟨back, wroteBody, wrote⟩ := bind_eq_ok wrote
    cases wrote
    refine (takes_unsigned small).bind ?_
    rw [if_neg (by omega), Nat.add_sub_cancel]
    exact (each v rfl back wroteBody).map some

theorem text_round_trips (short s : String) :
    RoundTrips (fun s => .ok (utf8 s)) (readText short (utf8 s).length) s := by
  rintro _ ⟨⟩ rest
  refine (Reader.run_bind_of_ok (takes_takeBytes (utf8 s) _ rest)).trans ?_
  rw [fromUtf8_utf8]
  rfl

theorem items_round_trip {write : α → Result Bytes} {reader : Reader α}
    {items : List α} (few : items.length ≤ maxDecodeArrayLen)
    (each : ∀ a ∈ items, RoundTrips write reader a) :
    RoundTrips (writeItems write) (readItems reader items.length) items := by
  intro bytes wrote
  obtain ⟨parts, wroteParts, wrote⟩ := bind_eq_ok wrote
  cases wrote
  rw [readItems, if_neg (Nat.not_lt.mpr few)]
  exact takes_parts each wroteParts

end RoundTrips

theorem kafkaString_round_trips (value : Option String) : kafkaString.RoundTrips value where
  classic := string_round_trips value
  compact := by
    dsimp only [kafkaString]
    exact compact_round_trips fun s _ => text_round_trips _ s

theorem bytes_round_trip (error : KrafkaError) (bytes : Bytes) :
    RoundTrips .ok (takeBytes bytes.length error) bytes := by
  rintro _ ⟨⟩
  exact takes_takeBytes bytes error

theorem kafkaBytes_round_trips (value : Option Bytes) : kafkaBytes.RoundTrips value where
  classic := by
    dsimp only [kafkaBytes]
    rw [decodeBytes_eq]
    exact classic_round_trips (by decide) fun bytes _ => bytes_round_trip _ bytes
  compact := by
    dsimp only [kafkaBytes]
    exact compact_round_trips fun bytes _ => bytes_round_trip _ bytes

theorem kafkaArray_round_trips {α : Type} (item : ValueCodec α) (value : Option (List α))
    (each : ∀ items ∈ value, items.length ≤ maxDecodeArrayLen ∧ ∀ a ∈ items, item.RoundTrips a) :
    (kafkaArray item).RoundTrips value where
  classic := by
    dsimp only [kafkaArray]
    refine classic_round_trips (by decide) fun items held => ?_
    obtain ⟨few, each⟩ := each items held
    exact items_round_trip few fun a there => (each a there).classic
  compact := by
    dsimp only [kafkaArray]
    refine compact_round_trips fun items held => ?_
    obtain ⟨few, each⟩ := each items held
    exact items_round_trip few fun a there => (each a there).compact

theorem taggedField_round_trips (field : TaggedField) :
    RoundTrips TaggedField.encode TaggedField.decode field := by
  intro bytes wrote
  simp only [TaggedField.encode] at wrote
  split_ifs at wrote with small
  cases wrote
  have read := (takes_takeBytes field.data
    (.protocol .truncatedFrame "not enough bytes for tagged field")).map
      (TaggedField.mk (.ofNat field.tag.toNat))
  rw [UInt32.ofNat_toNat] at read
  refine (takes_unsigned field.tag.toNat_lt).bind ((takes_unsigned small).bind ?_)
  rw [UInt32.ofNat_toNat]
  exact read

theorem taggedFields_round_trip {fields : List TaggedField}
    (few : fields.length ≤ maxDecodeArrayLen) : taggedFields.RoundTrips fields := by
  have one : RoundTrips taggedFields.tryEncode taggedFields.decode fields := by
    intro bytes wrote
    simp only [taggedFields] at wrote
    split_ifs at wrote with small
    obtain ⟨back, wroteItems, wrote⟩ := bind_eq_ok wrote
    obtain ⟨parts, wroteParts, wroteItems⟩ := bind_eq_ok wroteItems
    cases wroteItems
    cases wrote
    refine (takes_unsigned small).bind ?_
    rw [if_neg (Nat.not_lt.mpr few)]
    exact takes_parts (fun field _ => taggedField_round_trips field) wroteParts
  exact ⟨one, one⟩

/-! ## What is accepted -/

def Reads {α : Type} (reader : Reader α) (Says : Bytes → α → Prop) : Prop :=
  ∀ buf value rest, reader.run buf = .ok (value, rest) →
    ∃ used, buf = used ++ rest ∧ Says used value

section Reads

variable {α β : Type}

theorem Reads.bind {reader : Reader α} {next : α → Reader β} {S : Bytes → α → Prop}
    {T : Bytes → β → Prop} (first : Reads reader S)
    (after : ∀ front a, S front a → Reads (next a) fun back b => T (front ++ back) b) :
    Reads (reader >>= next) T := by
  intro buf value rest done
  rw [StateT.run_bind] at done
  obtain ⟨⟨a, left⟩, read, next⟩ := bind_eq_ok done
  obtain ⟨front, rfl, holds⟩ := first buf a left read
  obtain ⟨back, rfl, holds⟩ := after front a holds left value rest next
  exact ⟨front ++ back, (List.append_assoc ..).symm, holds⟩

theorem Reads.pure {T : Bytes → α → Prop} {value : α} (holds : T [] value) :
    Reads (Pure.pure value) T := by
  rintro buf _ _ ⟨⟩
  exact ⟨[], rfl, holds⟩

theorem Reads.throw {T : Bytes → α → Prop} (error : KrafkaError) :
    Reads (MonadExcept.throw error : Reader α) T := by
  rintro buf _ _ ⟨⟩

theorem reads_takeBytes (len : Nat) (error : KrafkaError) :
    Reads (takeBytes len error) fun used bytes => used.length = len ∧ used = bytes := by
  intro buf value rest done
  change (if buf.length < len then _ else _) = _ at done
  split_ifs at done with enough
  cases done
  exact ⟨buf.take len, (List.take_append_drop ..).symm,
    List.length_take_of_le (Nat.not_lt.mp enough), rfl⟩

theorem reads_decodeInt (width : Nat) (type : String) :
    Reads (decodeInt width type) fun used value => used.length = width ∧ beInt used = value := by
  refine (reads_takeBytes width _).bind fun front bytes holds => .pure ?_
  rw [List.append_nil]
  exact ⟨holds.1, congrArg beInt holds.2⟩

def SaysNat (used : Bytes) (n : Nat) : Prop :=
  Varint.Numeral used ∧ used.length ≤ 5 ∧ n < 2 ^ 32 ∧ Varint.value used = n

theorem reads_unsigned : Reads decodeUnsignedVarint SaysNat := by
  intro buf value rest read
  obtain ⟨used, whole, numeral, few, small, same⟩ := varint.readsExactly buf value rest read
  exact ⟨used, whole, numeral, few, small, same.symm⟩

def ItemsOf (S : Bytes → α → Prop) (count : Nat) (used : Bytes) (items : List α) : Prop :=
  ∃ parts : List Bytes, parts.length = count ∧ parts.flatten = used ∧ List.Forall₂ S parts items

theorem reads_many {reader : Reader α} {S : Bytes → α → Prop} (each : Reads reader S)
    (count : Nat) : Reads (readMany reader count) (ItemsOf S count) := by
  induction count with
  | zero => exact .pure ⟨[], rfl, rfl, .nil⟩
  | succ count ih =>
    refine each.bind fun part item holds => ih.bind fun back items => ?_
    rintro ⟨parts, many, rfl, all⟩
    refine .pure ⟨part :: parts, by rw [List.length_cons, many], ?_, .cons holds all⟩
    rw [List.append_nil, List.flatten_cons]

inductive Announced (Length : Bytes → Option Nat → Prop) (Body : Nat → Bytes → α → Prop) :
    Bytes → Option α → Prop
  | null {front : Bytes} (length : Length front none) : Announced Length Body front none
  | value {front back : Bytes} {len : Nat} {v : α} (length : Length front (some len))
      (body : Body len back v) : Announced Length Body (front ++ back) (some v)

def ClassicLength (width : Nat) (front : Bytes) (len : Option Nat) : Prop :=
  front.length = width ∧ beInt front = len.elim (-1) Nat.cast

def CompactLength (front : Bytes) (len : Option Nat) : Prop := SaysNat front (len.elim 0 (· + 1))

variable {reader : Nat → Reader α} {Body : Nat → Bytes → α → Prop}

theorem reads_classic (each : ∀ len, Reads (reader len) (Body len)) (width : Nat) (type : String)
    (negative : Int → String) :
    Reads (decodeClassic width type negative reader) (Announced (ClassicLength width) Body) := by
  refine (reads_decodeInt width type).bind fun front len holds => ?_
  split_ifs with null below
  · refine .pure ?_
    rw [List.append_nil]
    exact .null ⟨holds.1, holds.2.trans null⟩
  · exact .throw _
  · refine (each len.toNat).bind fun back v body => .pure ?_
    rw [List.append_nil]
    exact .value ⟨holds.1, holds.2.trans (Int.toNat_of_nonneg (by omega)).symm⟩ body

theorem reads_compact (each : ∀ len, Reads (reader len) (Body len)) :
    Reads (decodeCompact reader) (Announced CompactLength Body) := by
  refine reads_unsigned.bind fun front len holds => ?_
  split_ifs with null
  · subst null
    refine .pure ?_
    rw [List.append_nil]
    exact .null holds
  · refine (each (len - 1)).bind fun back v body => .pure ?_
    rw [List.append_nil]
    refine .value ?_ body
    rwa [CompactLength, Option.elim_some, Nat.sub_add_cancel (Nat.pos_of_ne_zero null)]

end Reads

def TextOf (len : Nat) (used : Bytes) (s : String) : Prop :=
  used.length = len ∧ fromUtf8 used = some s

def BytesOf (len : Nat) (used bytes : Bytes) : Prop := used.length = len ∧ used = bytes

theorem reads_text (short : String) (len : Nat) : Reads (readText short len) (TextOf len) := by
  refine (reads_takeBytes len _).bind fun front bytes holds => ?_
  obtain ⟨long, rfl⟩ := holds
  split
  · rename_i s text
    refine .pure ?_
    rw [List.append_nil]
    exact ⟨long, text⟩
  · exact .throw _

structure ValueCodec.Announces {α : Type} (codec : ValueCodec (Option α)) (width : Nat)
    (Classic Compact : Nat → Bytes → α → Prop) : Prop where
  classic : Reads codec.decode (Announced (ClassicLength width) Classic)
  compact : Reads codec.decodeCompact (Announced CompactLength Compact)

theorem kafkaString_announces : kafkaString.Announces 2 TextOf TextOf where
  classic := by
    dsimp only [kafkaString]
    rw [decodeString_eq]
    exact reads_classic (reads_text _) _ _ _
  compact := by
    dsimp only [kafkaString]
    exact reads_compact (reads_text _)

theorem kafkaBytes_announces : kafkaBytes.Announces 4 BytesOf BytesOf where
  classic := by
    dsimp only [kafkaBytes]
    rw [decodeBytes_eq]
    exact reads_classic (fun len => reads_takeBytes len _) _ _ _
  compact := by
    dsimp only [kafkaBytes]
    exact reads_compact fun len => reads_takeBytes len _

theorem reads_items {α : Type} {reader : Reader α} {S : Bytes → α → Prop} (each : Reads reader S)
    (len : Nat) : Reads (readItems reader len) (ItemsOf S len) := by
  unfold readItems
  split_ifs
  · exact .throw _
  · exact reads_many each len

theorem kafkaArray_announces {α : Type} {item : ValueCodec α} {S T : Bytes → α → Prop}
    (classic : Reads item.decode S) (compact : Reads item.decodeCompact T) :
    (kafkaArray item).Announces 4 (ItemsOf S) (ItemsOf T) where
  classic := by
    dsimp only [kafkaArray]
    exact reads_classic (reads_items classic) _ _ _
  compact := by
    dsimp only [kafkaArray]
    exact reads_compact (reads_items compact)

def FieldOf (used : Bytes) (field : TaggedField) : Prop :=
  ∃ tag len, used = tag ++ (len ++ field.data) ∧ SaysNat tag field.tag.toNat ∧
    SaysNat len field.data.length

def FieldsOf (used : Bytes) (fields : List TaggedField) : Prop :=
  ∃ count front back, used = front ++ back ∧ SaysNat front count ∧ ItemsOf FieldOf count back fields

theorem reads_taggedField : Reads TaggedField.decode FieldOf := by
  refine reads_unsigned.bind fun tag number saysTag => reads_unsigned.bind fun len size saysLen =>
    (reads_takeBytes size _).bind fun data bytes holds => .pure ?_
  obtain ⟨rfl, rfl⟩ := holds
  rw [List.append_nil]
  refine ⟨tag, len, rfl, ?_, saysLen⟩
  rwa [UInt32.toNat_ofNat_of_lt' saysTag.2.2.1]

theorem reads_taggedFields : Reads taggedFields.decode FieldsOf := by
  refine reads_unsigned.bind fun front count holds => ?_
  split_ifs
  · exact .throw _
  · intro buf fields rest done
    obtain ⟨back, whole, items⟩ := reads_many reads_taggedField count buf fields rest done
    exact ⟨back, whole, count, front, back, rfl, holds, items⟩

/-- Strings, bytes, arrays and tagged fields come back from either form, whatever follows them; and
whatever is read has taken exactly as much as its lengths announce. -/
theorem values_are_exact :
    (∀ value, kafkaString.RoundTrips value) ∧ (∀ value, kafkaBytes.RoundTrips value) ∧
    (∀ (α : Type) (item : ValueCodec α) (value : Option (List α)),
      (∀ items ∈ value, items.length ≤ maxDecodeArrayLen ∧ ∀ a ∈ items, item.RoundTrips a) →
        (kafkaArray item).RoundTrips value) ∧
    (∀ fields, fields.length ≤ maxDecodeArrayLen → taggedFields.RoundTrips fields) ∧
    kafkaString.Announces 2 TextOf TextOf ∧ kafkaBytes.Announces 4 BytesOf BytesOf ∧
    (∀ (α : Type) (item : ValueCodec α) (S T : Bytes → α → Prop), Reads item.decode S →
      Reads item.decodeCompact T → (kafkaArray item).Announces 4 (ItemsOf S) (ItemsOf T)) ∧
    Reads taggedFields.decode FieldsOf ∧ Reads taggedFields.decodeCompact FieldsOf :=
  ⟨kafkaString_round_trips, kafkaBytes_round_trips, fun _ => kafkaArray_round_trips,
    fun _ => taggedFields_round_trip, kafkaString_announces, kafkaBytes_announces,
    fun _ _ _ _ => kafkaArray_announces, reads_taggedFields, reads_taggedFields⟩

end Krafka
