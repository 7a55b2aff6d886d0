import Krafka.Protocol.Primitives

/-! How messages are framed on a connection: four bytes of length in front of each. The decoder
gets the stream in whatever pieces the socket hands over, and puts the messages together again. -/

namespace Krafka

open List

/-! ## Writing -/

structure Encoder where
  buffer : Bytes := []

namespace Encoder

def startMessage (e : Encoder) : Encoder × Nat :=
  ({ buffer := e.buffer ++ putInt 4 0 }, e.buffer.length)

def finishMessage (e : Encoder) (sizePos : Nat) : Result Encoder :=
  let messageSize := e.buffer.length - sizePos - 4
  if messageSize < 2 ^ 31 then
    .ok
      { buffer := e.buffer.take sizePos ++ putInt 4 messageSize ++ e.buffer.drop (sizePos + 4) }
  else .error (.protocol .invalidLength "message size exceeds i32::MAX")

def frame (e : Encoder) (message : Bytes) : Result Encoder :=
  let (started, sizePos) := e.startMessage
  ({ buffer := started.buffer ++ message } : Encoder).finishMessage sizePos

def take (e : Encoder) : Bytes × Encoder := (e.buffer, {})

end Encoder

def framed (message : Bytes) : Bytes := putInt 4 message.length ++ message

@[simp] theorem length_framed (message : Bytes) : (framed message).length = 4 + message.length := by
  simp [framed]

theorem Encoder.frame_eq (e : Encoder) (message : Bytes) :
    e.frame message =
      if message.length < 2 ^ 31 then .ok { buffer := e.buffer ++ framed message }
      else .error (.protocol .invalidLength "message size exceeds i32::MAX") := by
  have size : (e.buffer ++ putInt 4 0 ++ message).length - e.buffer.length - 4 = message.length := by
    simp only [length_append, length_putInt]
    omega
  have front : (e.buffer ++ putInt 4 0 ++ message).take e.buffer.length = e.buffer := by
    rw [append_assoc, take_left]
  have back : (e.buffer ++ putInt 4 0 ++ message).drop (e.buffer.length + 4) = message := by
    rw [drop_left' (by simp)]
  simp only [frame, startMessage, finishMessage, size, front, back, framed]
  rw [append_assoc]

theorem Encoder.frames_eq {messages : List Bytes} {e e' : Encoder}
    (accepted : messages.foldlM Encoder.frame e = .ok e') :
    (∀ m ∈ messages, m.length < 2 ^ 31) ∧ e'.buffer = e.buffer ++ messages.flatMap framed := by
  induction messages generalizing e with
  | nil =>
    obtain rfl : e = e' := Except.ok.inj accepted
    exact ⟨nofun, (append_nil _).symm⟩
  | cons message messages ih =>
    rw [foldlM_cons, Encoder.frame_eq] at accepted
    split at accepted
    · next small =>
      obtain ⟨each, buffer⟩ := ih accepted
      refine ⟨forall_mem_cons.mpr ⟨small, each⟩, ?_⟩
      rw [buffer, flatMap_cons, append_assoc]
    · cases accepted

/-! ## Reading -/

structure Decoder where
  buffer : Bytes := []
  maxSize : Nat := 100 * 1024 * 1024

def readChunk : Nat := 64 * 1024

namespace Decoder

def decode (d : Decoder) : Result (Option Bytes) × Decoder :=
  if d.buffer.length < 4 then (.ok none, d)
  else
    let size := beInt (d.buffer.take 4)
    if size < 0 then (.error (.protocol .malformed s!"negative message size: {size}"), d)
    else
      let size := size.toNat
      let maxSize := d.maxSize
      if maxSize < size then
        (.error (.protocol .invalidLength s!"message size {size} exceeds maximum {maxSize}"), d)
      else if d.buffer.length < 4 + size then (.ok none, d)
      else
        (.ok (some ((d.buffer.drop 4).take size)), { d with buffer := d.buffer.drop (4 + size) })

def declaredFrameLen (d : Decoder) : Option Nat :=
  if d.buffer.length < 4 then none
  else
    let size := beInt (d.buffer.take 4)
    if size < 0 then none
    else if size.toNat ≤ d.maxSize then some (4 + size.toNat) else none

def want (d : Decoder) : Nat :=
  match d.declaredFrameLen with
  | some frameLen => frameLen - d.buffer.length
  | none => readChunk

def ended (buffered : Nat) : Result (Option Bytes) :=
  if buffered = 0 then .ok none
  else .error (.network s!"connection closed inside a frame ({buffered} bytes buffered)")

structure Reading where
  result : Result (Option Bytes)
  decoder : Decoder
  reads : List (Result Bytes)
  reserved : List (Nat × Nat) := []

/-- A read of nothing is the end of the stream, and so is the end of the list. -/
def readFrame (d : Decoder) (reads : List (Result Bytes)) : Reading :=
  match d.decode with
  | (.error e, d) => { result := .error e, decoder := d, reads }
  | (.ok (some frame), d) => { result := .ok (some frame), decoder := d, reads }
  | (.ok none, d) =>
    match reads with
    | [] =>
      { result := ended d.buffer.length, decoder := d, reads
        reserved := [(d.buffer.length, d.want)] }
    | .error e :: reads =>
      { result := .error e, decoder := d, reads, reserved := [(d.buffer.length, d.want)] }
    | .ok chunk :: reads =>
      if chunk.isEmpty then
        { result := ended d.buffer.length, decoder := d, reads
          reserved := [(d.buffer.length, d.want)] }
      else
        let later := readFrame { d with buffer := d.buffer ++ chunk } reads
        { later with reserved := (d.buffer.length, d.want) :: later.reserved }

def readFrames : Nat → Decoder → List (Result Bytes) →
    List (Result (Option Bytes))
  | 0, _, _ => []
  | calls + 1, d, reads =>
    let reading := d.readFrame reads
    reading.result :: readFrames calls reading.decoder reading.reads

/-! What a call does -/

section Calls

variable {d : Decoder}

def Refuses (d : Decoder) (size : Int) : Prop := size < 0 ∨ (d.maxSize : Int) < size

theorem decode_of_refuses (long : 4 ≤ d.buffer.length)
    (refuses : d.Refuses (beInt (d.buffer.take 4))) :
    ∃ kind text, d.decode = (.error (.protocol kind text), d) := by
  unfold decode
  rw [if_neg (by omega)]
  dsimp only
  split
  · exact ⟨_, _, rfl⟩
  · rw [if_pos (by rcases refuses with negative | large <;> omega)]
    exact ⟨_, _, rfl⟩

theorem decode_of_short (short : d.buffer.length < 4) : d.decode = (.ok none, d) := if_pos short

theorem decode_of_size {size : Nat} (long : 4 ≤ d.buffer.length)
    (declared : beInt (d.buffer.take 4) = size) (small : size ≤ d.maxSize) :
    d.decode =
      if d.buffer.length < 4 + size then (.ok none, d)
      else
        (.ok (some ((d.buffer.drop 4).take size)),
          { d with buffer := d.buffer.drop (4 + size) }) := by
  unfold decode
  rw [if_neg (by omega)]
  simp only [declared, Int.toNat_natCast]
  rw [if_neg (by omega), if_neg (by omega)]

theorem decode_cases (d : Decoder) :
    (∃ e, d.decode = (.error e, d)) ∨
      (d.decode = (.ok none, d) ∧ (d.buffer.length < 4 ∧ d.want = readChunk ∨
        d.buffer.length + d.want ≤ d.maxSize + 4)) ∨
      ∃ front message rest, d.buffer = front ++ message ++ rest ∧ front.length = 4 ∧
        beInt front = message.length ∧ d.decode = (.ok (some message), { d with buffer := rest }) := by
  by_cases short : d.buffer.length < 4
  · refine .inr (.inl ⟨decode_of_short short, .inl ⟨short, ?_⟩⟩)
    rw [want, declaredFrameLen, if_pos short]
  by_cases refuses : d.Refuses (beInt (d.buffer.take 4))
  · obtain ⟨kind, text, decoded⟩ := decode_of_refuses (not_lt.mp short) refuses
    exact .inl ⟨_, decoded⟩
  obtain ⟨nonneg, small⟩ := not_or.mp refuses
  obtain ⟨size, declared⟩ := Int.eq_ofNat_of_zero_le (not_lt.mp nonneg)
  have fits : size ≤ d.maxSize := by omega
  have decoded := decode_of_size (not_lt.mp short) declared fits
  split at decoded
  · next partly =>
    refine .inr (.inl ⟨decoded, .inr ?_⟩)
    have known : d.declaredFrameLen = some (4 + size) := by
      simp only [declaredFrameLen, if_neg short, declared, Int.toNat_natCast]
      rw [if_neg (by omega), if_pos fits]
    rw [want, known]
    dsimp only
    omega
  · next whole =>
    refine .inr (.inr ⟨d.buffer.take 4, (d.buffer.drop 4).take size, d.buffer.drop (4 + size),
      ?_, ?_, ?_, decoded⟩)
    · rw [append_assoc, ← drop_drop, take_append_drop, take_append_drop]
    · rw [length_take]
      omega
    · rw [declared, length_take, length_drop]
      congr 1
      omega

theorem readFrame_of_error {e : KrafkaError} (decoded : d.decode = (.error e, d))
    (reads : List (Result Bytes)) :
    d.readFrame reads = { result := .error e, decoder := d, reads } := by
  rw [readFrame.eq_def, decoded]

theorem readFrame_of_message {message : Bytes} {d' : Decoder}
    (decoded : d.decode = (.ok (some message), d')) (reads : List (Result Bytes)) :
    d.readFrame reads = { result := .ok (some message), decoder := d', reads } := by
  rw [readFrame.eq_def, decoded]

theorem readFrame_nil (decoded : d.decode = (.ok none, d)) :
    d.readFrame [] =
      { result := ended d.buffer.length, decoder := d, reads := []
        reserved := [(d.buffer.length, d.want)] } := by
  rw [readFrame.eq_def, decoded]

theorem readFrame_cons (decoded : d.decode = (.ok none, d)) {chunk : Bytes} (some_ : chunk ≠ [])
    (reads : List (Result Bytes)) :
    d.readFrame (.ok chunk :: reads) =
      let later := readFrame { d with buffer := d.buffer ++ chunk } reads
      { later with reserved := (d.buffer.length, d.want) :: later.reserved } := by
  rw [readFrame.eq_def, decoded]
  dsimp only
  rw [if_neg (by simpa using some_)]

theorem reserved_readFrame (reads : List (Result Bytes)) :
    ∀ r ∈ (d.readFrame reads).reserved,
      r.1 < 4 ∧ r.2 = readChunk ∨ r.1 + r.2 ≤ d.maxSize + 4 := by
  induction reads generalizing d with
  | nil =>
    rcases decode_cases d with ⟨e, decoded⟩ | ⟨decoded, bounded⟩ | ⟨_, _, _, -, -, -, decoded⟩
    · simp [readFrame_of_error decoded]
    · simpa [readFrame_nil decoded] using bounded
    · simp [readFrame_of_message decoded]
  | cons read reads ih =>
    rcases decode_cases d with ⟨e, decoded⟩ | ⟨decoded, bounded⟩ | ⟨_, _, _, -, -, -, decoded⟩
    · simp [readFrame_of_error decoded]
    · rw [readFrame.eq_def, decoded]
      cases read with
      | error => simpa using bounded
      | ok =>
        dsimp only
        split
        · simpa using bounded
        · exact forall_mem_cons.mpr ⟨bounded, ih⟩
    · simp [readFrame_of_message decoded]

end Calls

/-! A stream in pieces -/

section Pieces

variable {d : Decoder} {chunks : List Bytes}

theorem readFrame_waits (pieces : ∀ c ∈ chunks, c ≠ []) (reads : List (Result Bytes))
    (waits : ∀ b, b <+: d.buffer ++ chunks.flatten → b.length < (d.buffer ++ chunks.flatten).length →
      ({ d with buffer := b } : Decoder).decode = (.ok none, { d with buffer := b })) :
    let reading := ({ d with buffer := d.buffer ++ chunks.flatten } : Decoder).readFrame reads
    (d.readFrame (chunks.map .ok ++ reads)).result = reading.result ∧
      (d.readFrame (chunks.map .ok ++ reads)).decoder = reading.decoder ∧
      (d.readFrame (chunks.map .ok ++ reads)).reads = reading.reads := by
  induction chunks generalizing d with
  | nil =>
    rw [flatten_nil, append_nil]
    exact ⟨rfl, rfl, rfl⟩
  | cons chunk chunks ih =>
    obtain ⟨some_, pieces⟩ := forall_mem_cons.mp pieces
    have more : 0 < chunk.length := length_pos_iff.mpr some_
    have waiting : d.decode = (.ok none, d) := waits d.buffer (prefix_append ..) (by
      simp only [flatten_cons, length_append]
      omega)
    have later := ih pieces (d := { d with buffer := d.buffer ++ chunk }) (by simpa using waits)
    rw [map_cons, cons_append, readFrame_cons waiting some_]
    simpa using later

variable {message rest : Bytes}

theorem size_of_framed (small : message.length < 2 ^ 31)
    (pre : d.buffer <+: framed message ++ rest) (long : 4 ≤ d.buffer.length) :
    beInt (d.buffer.take 4) = message.length := by
  have head : d.buffer.take 4 = putInt 4 message.length := by
    rw [prefix_iff_eq_take.mp pre, take_take, min_eq_left long, framed, append_assoc,
      take_left' (by simp)]
  rw [head]
  exact @beInt_putInt 4 _ ⟨by omega, by norm_num; exact_mod_cast small⟩ (by decide)

theorem decode_of_prefix (small : message.length < 2 ^ 31)
    (fits : message.length ≤ d.maxSize) (pre : d.buffer <+: framed message ++ rest)
    (short : d.buffer.length < 4 + message.length) : d.decode = (.ok none, d) := by
  by_cases tiny : d.buffer.length < 4
  · exact decode_of_short tiny
  · have long := not_lt.mp tiny
    rw [decode_of_size long (size_of_framed small pre long) fits, if_pos short]

theorem decode_of_framed (small : message.length < 2 ^ 31)
    (fits : message.length ≤ d.maxSize) (whole : d.buffer = framed message ++ rest) :
    d.decode = (.ok (some message), { d with buffer := rest }) := by
  have long : 4 + message.length ≤ d.buffer.length := by simp [whole]
  have pre : d.buffer <+: framed message ++ rest := ⟨[], by rw [append_nil, whole]⟩
  have declared := size_of_framed small pre (by omega)
  have middle : (d.buffer.drop 4).take message.length = message := by
    rw [whole, framed, append_assoc, drop_left' (by simp), take_left]
  have tail : d.buffer.drop (4 + message.length) = rest := by
    rw [whole, drop_left' (by simp)]
  rw [decode_of_size (by omega) declared fits, if_neg (by omega), middle, tail]

theorem readFrame_framed (pieces : ∀ c ∈ chunks, c ≠ [])
    (small : message.length < 2 ^ 31) (fits : message.length ≤ d.maxSize)
    (stream : d.buffer ++ chunks.flatten = framed message ++ rest) :
    ∃ (buffer : Bytes) (left : List Bytes),
      (d.readFrame (chunks.map .ok)).result = .ok (some message) ∧
      (d.readFrame (chunks.map .ok)).decoder = { d with buffer } ∧
      (d.readFrame (chunks.map .ok)).reads = left.map .ok ∧ (∀ c ∈ left, c ≠ []) ∧
      buffer ++ left.flatten = rest := by
  induction chunks generalizing d with
  | nil =>
    rw [flatten_nil, append_nil] at stream
    rw [readFrame_of_message (decode_of_framed small fits stream)]
    exact ⟨rest, [], rfl, rfl, rfl, pieces, append_nil _⟩
  | cons chunk chunks ih =>
    by_cases whole : 4 + message.length ≤ d.buffer.length
    · obtain ⟨tail, parts⟩ := prefix_of_prefix_length_le (prefix_append (framed message) rest)
        (stream ▸ prefix_append ..) (by simpa using whole)
      rw [← parts, append_assoc, append_cancel_left_eq] at stream
      rw [readFrame_of_message (decode_of_framed small fits parts.symm)]
      exact ⟨tail, chunk :: chunks, rfl, rfl, rfl, pieces, stream⟩
    · have waiting := decode_of_prefix small fits (stream ▸ prefix_append ..) (not_le.mp whole)
      obtain ⟨some_, pieces⟩ := forall_mem_cons.mp pieces
      rw [map_cons, readFrame_cons waiting some_]
      refine ih (d := { d with buffer := d.buffer ++ chunk }) pieces fits ?_
      rw [← stream, flatten_cons, append_assoc]

theorem readFrame_ended (pieces : ∀ c ∈ chunks, c ≠ [])
    (waits : ∀ b, b <+: d.buffer ++ chunks.flatten →
      ({ d with buffer := b } : Decoder).decode = (.ok none, { d with buffer := b })) :
    (d.readFrame (chunks.map .ok)).result = ended (d.buffer ++ chunks.flatten).length := by
  have read := (readFrame_waits pieces [] fun b pre _ => waits b pre).1
  rw [append_nil] at read
  rw [read, readFrame_nil (waits _ prefix_rfl)]

theorem readFrame_refuses (pieces : ∀ c ∈ chunks, c ≠ []) (reads : List (Result Bytes))
    (long : 4 ≤ (d.buffer ++ chunks.flatten).length)
    (refuses : d.Refuses (beInt ((d.buffer ++ chunks.flatten).take 4))) :
    ∃ kind text used left, chunks = used ++ left ∧
      (d.readFrame (chunks.map .ok ++ reads)).result = .error (.protocol kind text) ∧
      (d.readFrame (chunks.map .ok ++ reads)).decoder =
        { d with buffer := d.buffer ++ used.flatten } ∧
      (d.readFrame (chunks.map .ok ++ reads)).reads = left.map .ok ++ reads := by
  induction chunks generalizing d with
  | nil =>
    rw [flatten_nil, append_nil] at long refuses
    obtain ⟨kind, text, decoded⟩ := decode_of_refuses long refuses
    rw [readFrame_of_error decoded]
    exact ⟨kind, text, [], [], rfl, rfl, by simp, rfl⟩
  | cons chunk chunks ih =>
    by_cases there : 4 ≤ d.buffer.length
    · rw [take_append_of_le_length there] at refuses
      obtain ⟨kind, text, decoded⟩ := decode_of_refuses there refuses
      rw [readFrame_of_error decoded]
      exact ⟨kind, text, [], chunk :: chunks, rfl, rfl, by simp, rfl⟩
    · obtain ⟨some_, pieces⟩ := forall_mem_cons.mp pieces
      rw [flatten_cons, ← append_assoc] at long refuses
      obtain ⟨kind, text, used, left, rfl, result, decoder, rest⟩ :=
        ih (d := { d with buffer := d.buffer ++ chunk }) pieces long refuses
      rw [map_cons, cons_append, readFrame_cons (decode_of_short (not_le.mp there)) some_]
      exact ⟨kind, text, chunk :: used, left, rfl, result, by simpa using decoder, rest⟩

end Pieces

/-! Many frames -/

/-- Of these messages, those whose frames are within the first `bytes` bytes, and how many bytes
come after them. -/
def arrived : Nat → List Bytes → List Bytes × Nat
  | _, [] => ([], 0)
  | bytes, message :: messages =>
    if bytes < 4 + message.length then ([], bytes)
    else
      let (complete, left) := arrived (bytes - (4 + message.length)) messages
      (message :: complete, left)

theorem readFrames_arrived {messages : List Bytes} {d : Decoder}
    (sized : ∀ m ∈ messages, m.length < 2 ^ 31 ∧ m.length ≤ d.maxSize) {bytes : Nat}
    {chunks : List Bytes} (pieces : ∀ c ∈ chunks, c ≠ [])
    (stream : d.buffer ++ chunks.flatten = (messages.flatMap framed).take bytes) :
    readFrames ((arrived bytes messages).1.length + 1) d (chunks.map .ok) =
      (arrived bytes messages).1.map (.ok ∘ some) ++ [ended (arrived bytes messages).2] := by
  induction messages generalizing d chunks bytes with
  | nil =>
    rw [flatMap_nil, take_nil] at stream
    have last := readFrame_ended pieces fun b pre => decode_of_short (d := { d with buffer := b }) (by
      rw [stream, prefix_nil] at pre
      simp [pre])
    rw [stream] at last
    simpa [readFrames, arrived] using last
  | cons message messages ih =>
    obtain ⟨⟨small, fits⟩, sized⟩ := forall_mem_cons.mp sized
    rw [flatMap_cons] at stream
    unfold arrived
    split
    · next cut =>
      rw [take_append_of_le_length (by simp; omega)] at stream
      have waits (b : Bytes) (pre : b <+: d.buffer ++ chunks.flatten) :
          ({ d with buffer := b } : Decoder).decode = (.ok none, { d with buffer := b }) := by
        rw [stream] at pre
        have count := pre.length_le
        rw [length_take] at count
        have whole : b <+: framed message ++ [] := by
          rw [append_nil]
          exact pre.trans (List.take_prefix ..)
        exact decode_of_prefix (d := { d with buffer := b }) small fits whole (by show b.length < _; omega)
      have last := readFrame_ended pieces waits
      rw [stream, length_take, min_eq_left (by simp; omega)] at last
      simpa [readFrames] using last
    · next whole =>
      rw [take_append, length_framed, take_of_length_le (by simp; omega)] at stream
      obtain ⟨buffer, left, result, decoder, reads, pieces, rest⟩ :=
        readFrame_framed pieces small fits stream
      have later := ih (d := { d with buffer }) sized pieces rest
      simp only [readFrames, result, decoder, reads, map_cons, length_cons] at later ⊢
      exact congrArg _ later

end Decoder

end Krafka
