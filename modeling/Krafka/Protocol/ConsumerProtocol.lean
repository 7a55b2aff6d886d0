import Krafka.Protocol.Values

/-! The consumer protocol of classic groups: what a member subscribes to and what the leader has
assigned to it, as the blobs that the coordinator passes on without looking at them. -/

namespace Krafka

open Reader (Takes)

def consumerProtocolMaxVersion : Int := 3
def consumerProtocolV1 : Int := 1
def consumerProtocolV2 : Int := 2
def consumerProtocolV3 : Int := 3

structure ConsumerProtocolTopicPartitions where
  topic : String
  partitions : List Int32

structure ConsumerProtocolSubscription where
  version : Int16 := 0
  topics : List String := []
  userData : Option Bytes := none
  ownedPartitions : List ConsumerProtocolTopicPartitions := []
  /-- `-1` is no generation, but an empty blob has generation `0`. -/
  generationId : Int32 := 0
  rackId : Option String := none

structure ConsumerProtocolAssignment where
  version : Int16 := 0
  assignedPartitions : List ConsumerProtocolTopicPartitions := []
  userData : Option Bytes := none

/-! ## Writing -/

def encodeTopicPartitions : List ConsumerProtocolTopicPartitions → Result Bytes :=
  encodeArray fun entry => do
    let topic ← encodeString (some entry.topic)
    let partitions ← encodeArray (fun p : Int32 => .ok (putInt 4 p.toInt)) entry.partitions
    pure (topic ++ partitions)

def encodeNullableBytes : Option Bytes → Bytes
  | some bytes =>
    if bytes.length < 2 ^ 31 then putInt 4 bytes.length ++ bytes else putInt 4 (-1)
  | none => putInt 4 (-1)

def invalidLength (message : String) : KrafkaError := .protocol .invalidLength message

def writeSince (since version : Int) (write : Result Bytes) : Result Bytes :=
  if since ≤ version then write else pure []

def writeSubscription (s : ConsumerProtocolSubscription) : Result Bytes := do
  let version := s.version.toInt
  let topics ← encodeArray (fun topic => encodeString (some topic)) s.topics
  let owned ← writeSince consumerProtocolV1 version (encodeTopicPartitions s.ownedPartitions)
  let generation ← writeSince consumerProtocolV2 version (.ok (putInt 4 s.generationId.toInt))
  let rack ← writeSince consumerProtocolV3 version (encodeString s.rackId)
  pure (putInt 2 version ++ (topics ++ (encodeNullableBytes s.userData ++
    (owned ++ (generation ++ rack)))))

def encodeConsumerProtocolSubscription (s : ConsumerProtocolSubscription) :
    Result Bytes :=
  let version := s.version.toInt
  if version < 0 then
    .error (invalidLength s!"ConsumerProtocolSubscription version {version} is negative")
  else if version < consumerProtocolV1 ∧ s.ownedPartitions ≠ [] then
    .error (invalidLength "owned partitions need ConsumerProtocolSubscription v1 or newer")
  else if version < consumerProtocolV2 ∧ s.generationId ≠ -1 then
    .error (invalidLength "generation_id needs ConsumerProtocolSubscription v2 or newer")
  else if version < consumerProtocolV3 ∧ s.rackId.isSome then
    .error (invalidLength "rack_id needs ConsumerProtocolSubscription v3 or newer")
  else writeSubscription s

def encodeConsumerProtocolAssignment (a : ConsumerProtocolAssignment) : Result Bytes :=
  let version := a.version.toInt
  if version < 0 then
    .error (invalidLength s!"ConsumerProtocolAssignment version {version} is negative")
  else do
    let assigned ← encodeTopicPartitions a.assignedPartitions
    pure (putInt 2 version ++ (assigned ++ encodeNullableBytes a.userData))

/-! ## Reading -/

def decodeVersion (what : String) : Reader Int := do
  let version ← decodeI16
  if version < 0 then throw (.protocol .malformed s!"{what} has negative version {version}")
  else pure version

def nonNullString (what : String) : Reader String := do
  let value ← decodeString
  match value with
  | some s => pure s
  | none => throw (.protocol .malformed s!"null topic name in {what}")

def decodeTopicPartitions (what : String) : Reader (List ConsumerProtocolTopicPartitions) :=
  decodeArray do
    let topic ← nonNullString what
    let partitions ← decodeArray (do let p ← decodeI32; pure (Int32.ofInt p))
    pure { topic, partitions }

def readSince {α : Type} (since version : Int) (reader : Reader α) (absent : α) : Reader α :=
  if since ≤ version then reader else pure absent

def readSubscription : Reader ConsumerProtocolSubscription := do
  let version ← decodeVersion "ConsumerProtocolSubscription"
  -- a newer version is read as the newest one known
  let effective := min version consumerProtocolMaxVersion
  let topics ← decodeArray (nonNullString "subscription topic")
  let userData ← decodeBytes
  let ownedPartitions ←
    readSince consumerProtocolV1 effective (decodeTopicPartitions "owned partitions") []
  let generationId ← readSince consumerProtocolV2 effective decodeI32 (-1)
  let rackId ← readSince consumerProtocolV3 effective decodeString none
  pure
    { version := Int16.ofInt version, topics, userData, ownedPartitions
      generationId := Int32.ofInt generationId, rackId }

/-- An empty blob is an empty subscription, and what follows the last field is ignored. -/
def decodeConsumerProtocolSubscription (data : Bytes) :
    Result ConsumerProtocolSubscription :=
  if data.isEmpty then .ok {} else readSubscription.run' data

def readAssignment : Reader ConsumerProtocolAssignment := do
  let version ← decodeVersion "ConsumerProtocolAssignment"
  let assignedPartitions ← decodeTopicPartitions "assigned partitions"
  let userData ← decodeBytes
  pure { version := Int16.ofInt version, assignedPartitions, userData }

def decodeConsumerProtocolAssignment (data : Bytes) :
    Result ConsumerProtocolAssignment :=
  if data.isEmpty then .ok {} else readAssignment.run' data

/-! ## What is read back -/

theorem fits_int16 (value : Int16) : Fits 16 value.toInt := ⟨value.le_toInt, value.toInt_lt⟩

theorem fits_int32 (value : Int32) : Fits 32 value.toInt := ⟨value.le_toInt, value.toInt_lt⟩

theorem takes_int32 (value : Int32) :
    Takes (do let p ← decodeI32; pure (Int32.ofInt p)) (putInt 4 value.toInt) value := by
  have read := (takes_i32 (fits_int32 value)).map Int32.ofInt
  rwa [Int32.ofInt_toInt] at read

theorem takes_version {version : Int16} (old : ¬ version.toInt < 0) (what : String) :
    Takes (decodeVersion what) (putInt 2 version.toInt) version.toInt := by
  have read : Takes (decodeVersion what) (putInt 2 version.toInt ++ []) version.toInt := by
    refine (takes_i16 (fits_int16 version)).bind ?_
    rw [if_neg old]
    exact .pure _
  rwa [List.append_nil] at read

theorem nonNullString_round_trips (what : String) (s : String) :
    RoundTrips (fun s => encodeString (some s)) (nonNullString what) s := by
  intro bytes wrote rest
  rw [nonNullString, Reader.run_bind_of_ok (string_round_trips (some s) bytes wrote rest)]
  rfl

theorem topicPartitions_round_trip (what : String) {topics : List ConsumerProtocolTopicPartitions}
    (few : topics.length ≤ maxDecodeArrayLen)
    (each : ∀ t ∈ topics, t.partitions.length ≤ maxDecodeArrayLen) :
    RoundTrips encodeTopicPartitions (decodeTopicPartitions what) topics := by
  refine array_round_trips (fun entry there bytes wrote => ?_) few
  obtain ⟨topic, wroteTopic, wrote⟩ := bind_eq_ok wrote
  obtain ⟨partitions, wrotePartitions, wrote⟩ := bind_eq_ok wrote
  rw [← Except.ok.inj wrote]
  have name := nonNullString_round_trips what entry.topic topic wroteTopic
  have numbers : Takes _ partitions entry.partitions :=
    array_round_trips (fun p _ bytes wrote => Except.ok.inj wrote ▸ takes_int32 p) (each entry there)
      partitions wrotePartitions
  exact name.bind (numbers.map (ConsumerProtocolTopicPartitions.mk entry.topic))

theorem takes_userData {userData : Option Bytes} (small : ∀ d ∈ userData, d.length < 2 ^ 31) :
    Takes decodeBytes (encodeNullableBytes userData) userData := by
  cases userData with
  | none => exact takes_null_bytes
  | some bytes =>
    have short := small bytes rfl
    rw [encodeNullableBytes, if_pos short]
    exact takes_bytes short

variable {bytes : Bytes}

theorem takes_since {α : Type} {since version : Int} (known : since ≤ consumerProtocolMaxVersion)
    {write : Result Bytes} {reader : Reader α} {value absent : α}
    (wrote : writeSince since version write = .ok bytes)
    (read : write = .ok bytes → Takes reader bytes value)
    (none_ : version < since → value = absent) :
    Takes (readSince since (min version consumerProtocolMaxVersion) reader absent) bytes value := by
  unfold writeSince at wrote
  unfold readSince
  by_cases has : since ≤ version
  · rw [if_pos has] at wrote
    rw [if_pos (le_min has known)]
    exact read wrote
  · rw [if_neg has] at wrote
    rw [if_neg fun both => has (both.trans (min_le_left ..)), none_ (not_le.mp has),
      ← Except.ok.inj wrote]
    exact .pure absent

theorem carried_of_accepted {s : ConsumerProtocolSubscription}
    (accepted : encodeConsumerProtocolSubscription s = .ok bytes) :
    writeSubscription s = .ok bytes ∧ ¬ s.version.toInt < 0 ∧
      (s.version.toInt < consumerProtocolV1 → s.ownedPartitions = []) ∧
      (s.version.toInt < consumerProtocolV2 → s.generationId = -1) ∧
      (s.version.toInt < consumerProtocolV3 → s.rackId = none) := by
  unfold encodeConsumerProtocolSubscription at accepted
  dsimp only at accepted
  split_ifs at accepted with negative owned generation rack
  exact ⟨accepted, negative, fun low => not_not.mp fun some => owned ⟨low, some⟩,
    fun low => not_not.mp fun some => generation ⟨low, some⟩,
    fun low => Option.not_isSome_iff_eq_none.mp fun some => rack ⟨low, some⟩⟩

/-- The counts are within the decoder's limit, and the user data is not too long to be written. -/
def Decodable (userData : Option Bytes) (topics : List ConsumerProtocolTopicPartitions) : Prop :=
  (∀ d ∈ userData, d.length < 2 ^ 31) ∧ topics.length ≤ maxDecodeArrayLen ∧
    ∀ t ∈ topics, t.partitions.length ≤ maxDecodeArrayLen

theorem takes_subscription {s : ConsumerProtocolSubscription}
    (accepted : encodeConsumerProtocolSubscription s = .ok bytes)
    (topics : s.topics.length ≤ maxDecodeArrayLen) (fits : Decodable s.userData s.ownedPartitions) :
    Takes readSubscription bytes s := by
  obtain ⟨small, few, each⟩ := fits
  obtain ⟨wrote, negative, noOwned, noGeneration, noRack⟩ := carried_of_accepted accepted
  obtain ⟨names, wroteNames, wrote⟩ := bind_eq_ok wrote
  obtain ⟨owned, wroteOwned, wrote⟩ := bind_eq_ok wrote
  obtain ⟨generation, wroteGeneration, wrote⟩ := bind_eq_ok wrote
  obtain ⟨rack, wroteRack, wrote⟩ := bind_eq_ok wrote
  rw [← Except.ok.inj wrote]
  have version := takes_version negative "ConsumerProtocolSubscription"
  have subscribed := array_round_trips
    (fun topic _ => nonNullString_round_trips "subscription topic" topic) topics names wroteNames
  have owns := takes_since (by decide) wroteOwned
    (topicPartitions_round_trip "owned partitions" few each owned) noOwned
  have knows : Takes _ generation s.generationId.toInt := takes_since (by decide) wroteGeneration
    (fun wrote => Except.ok.inj wrote ▸ takes_i32 (fits_int32 s.generationId))
    fun low => by rw [noGeneration low]
  have stands := takes_since (by decide) wroteRack (string_round_trips s.rackId rack) noRack
  have final := stands.map fun rackId => ({ s with
    version := Int16.ofInt s.version.toInt
    generationId := Int32.ofInt s.generationId.toInt, rackId } : ConsumerProtocolSubscription)
  have same : ({ s with
      version := Int16.ofInt s.version.toInt
      generationId := Int32.ofInt s.generationId.toInt } : ConsumerProtocolSubscription) = s := by
    rw [Int16.ofInt_toInt, Int32.ofInt_toInt]
  rw [same] at final
  exact version.bind (subscribed.bind ((takes_userData small).bind (owns.bind (knows.bind final))))

theorem takes_assignment {a : ConsumerProtocolAssignment}
    (accepted : encodeConsumerProtocolAssignment a = .ok bytes)
    (fits : Decodable a.userData a.assignedPartitions) : Takes readAssignment bytes a := by
  obtain ⟨small, few, each⟩ := fits
  unfold encodeConsumerProtocolAssignment at accepted
  dsimp only at accepted
  split_ifs at accepted with negative
  obtain ⟨assigned, wrote, accepted⟩ := bind_eq_ok accepted
  rw [← Except.ok.inj accepted]
  have version := takes_version negative "ConsumerProtocolAssignment"
  have gets := topicPartitions_round_trip "assigned partitions" few each assigned wrote
  have final := (takes_userData small).map fun userData => ({ a with
    version := Int16.ofInt a.version.toInt, userData } : ConsumerProtocolAssignment)
  have same : ({ a with version := Int16.ofInt a.version.toInt } : ConsumerProtocolAssignment) = a := by
    rw [Int16.ofInt_toInt]
  rw [same] at final
  exact version.bind (gets.bind final)

/-- What the encoder accepts is read back from the blob, whatever follows it, if the counts are
within the decoder's limit; and it accepts no field that the version of the subscription lacks. -/
theorem consumer_protocol_round_trips :
    (∀ (s : ConsumerProtocolSubscription) (bytes suffix : Bytes),
      encodeConsumerProtocolSubscription s = .ok bytes → s.topics.length ≤ maxDecodeArrayLen →
      Decodable s.userData s.ownedPartitions →
      decodeConsumerProtocolSubscription (bytes ++ suffix) = .ok s) ∧
    (∀ (a : ConsumerProtocolAssignment) (bytes suffix : Bytes),
      encodeConsumerProtocolAssignment a = .ok bytes →
      Decodable a.userData a.assignedPartitions →
      decodeConsumerProtocolAssignment (bytes ++ suffix) = .ok a) ∧
    ∀ (s : ConsumerProtocolSubscription) (bytes : Bytes),
      encodeConsumerProtocolSubscription s = .ok bytes →
      (s.version < 1 → s.ownedPartitions = []) ∧ (s.version < 2 → s.generationId = -1) ∧
        (s.version < 3 → s.rackId = none) := by
  have read {α : Type} {reader : Reader α} {bytes suffix : Bytes} {value empty : α}
      (takes : Takes reader bytes value) (fails : ∀ e, reader.run [] ≠ .ok e) :
      (if (bytes ++ suffix).isEmpty then .ok empty else reader.run' (bytes ++ suffix)) =
        .ok value := by
    have done := takes suffix
    split
    · next none_ =>
      rw [List.isEmpty_iff.mp none_] at done
      exact absurd done (fails _)
    · rw [StateT.run', show reader (bytes ++ suffix) = .ok (value, suffix) from done]
      rfl
  refine ⟨fun s bytes suffix accepted topics fits => ?_, fun a bytes suffix accepted fits => ?_,
    fun s bytes accepted => ?_⟩
  · exact read (takes_subscription accepted topics fits) fun _ => nofun
  · exact read (takes_assignment accepted fits) fun _ => nofun
  · obtain ⟨-, -, owned, generation, rack⟩ := carried_of_accepted accepted
    exact ⟨fun low => owned (Int16.lt_iff_toInt_lt.mp low),
      fun low => generation (Int16.lt_iff_toInt_lt.mp low),
      fun low => rack (Int16.lt_iff_toInt_lt.mp low)⟩

def sampleSubscription : ConsumerProtocolSubscription where
  version := 3
  topics := ["t"]
  userData := some [7]
  ownedPartitions := [⟨"t", [0, 4]⟩]
  generationId := 5
  rackId := some "r"

theorem sampleSubscription_round_trips :
    decodeConsumerProtocolSubscription
      ([0, 3] ++ [0, 0, 0, 1, 0, 1, 116] ++ [0, 0, 0, 1, 7] ++
        [0, 0, 0, 1, 0, 1, 116, 0, 0, 0, 2, 0, 0, 0, 0, 0, 0, 0, 4] ++ [0, 0, 0, 5] ++
        [0, 1, 114] ++ [9, 9]) = .ok sampleSubscription :=
  consumer_protocol_round_trips.1 sampleSubscription _ [9, 9] (by decide +kernel) (by decide)
    (by simp [Decodable, sampleSubscription, maxDecodeArrayLen])

end Krafka
