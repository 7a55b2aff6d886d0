import Krafka.Protocol.RecordWire

/-! Snappy as snappy-java frames it: a header, and blocks with their lengths in front. The raw block
codec comes from outside. -/

namespace Krafka.Snappy

open List

/-- The raw block codec. It writes into a buffer of the size it is given, and never past its end. -/
structure Raw where
  maxCompressLen : Nat → Nat
  compress : Bytes → Nat → Except String Bytes
  decompressLen : Bytes → Except String Nat
  decompress : Bytes → (size : Nat) → Except String { written : Bytes // written.length ≤ size }

def xerialMagic : Bytes := [0x82, 0x53, 0x4E, 0x41, 0x50, 0x50, 0x59, 0]
def xerialHeaderLen : Nat := 16
def xerialBlockSize : Nat := 32 * 1024

def xerialError (detail : String) : KrafkaError :=
  .protocol .malformed s!"xerial snappy stream: {detail}"

/-! ## Decompression -/

structure Output where
  bytes : Bytes := []
  peak : Nat := 0

namespace Output

def resize (out : Output) (length : Nat) : Output where
  bytes := out.bytes ++ List.replicate (length - out.bytes.length) 0
  peak := max out.peak length

def rewrite (out : Output) (start : Nat) (written : Bytes) : Output :=
  { out with
    bytes := (out.bytes.take start ++ written ++ out.bytes.drop (start + written.length)).take
      (start + written.length) }

theorem rewrite_resize (out : Output) (length : Nat) (written : Bytes) :
    ((out.resize length).rewrite out.bytes.length written).bytes = out.bytes ++ written := by
  have kept : (out.resize length).bytes.take out.bytes.length = out.bytes := take_left
  rw [rewrite, kept, take_append_of_le_length (by simp), take_of_length_le (by simp)]

end Output

variable (raw : Raw)

def appendSnappyBlock (block : Bytes) (out : Output) (max : Nat) : Result Unit × Output :=
  match raw.decompressLen block with
  | .error e => (.error (.compression e), out)
  | .ok declared =>
    let start := out.bytes.length
    if max - start < declared then
      let size := start + declared
      (.error (.compression (s!"snappy decompressed size {size} exceeds maximum {max} bytes " ++
        "(possible compression bomb)")), out)
    else
      let out := out.resize (start + declared)
      match raw.decompress block declared with
      | .error e => (.error (.compression e), out)
      | .ok written => (.ok (), out.rewrite start written.1)

def decompressBlocks (rest : Bytes) (out : Output) (max : Nat) : Result Unit × Output :=
  if rest = [] then (.ok (), out)
  else if rest.length < 4 then
    let left := rest.length
    (.error (xerialError s!"truncated chunk length ({left} bytes left)"), out)
  else
    let len := beNat (rest.take 4)
    let tail := rest.drop 4
    if len = 0 then (.error (xerialError "zero-length chunk"), out)
    else if tail.length < len then
      let left := tail.length
      (.error (xerialError s!"chunk of {len} bytes but only {left} left"), out)
    else
      match appendSnappyBlock raw (tail.take len) out max with
      | (.error e, out) => (.error e, out)
      | (.ok (), out) => decompressBlocks (tail.drop len) out max
termination_by rest.length
decreasing_by
  simp only [length_drop]
  omega

def decompressSnappy (data : Bytes) (max : Nat) : Result Bytes × Output :=
  let (done, out) :=
    if xerialHeaderLen < data.length ∧ xerialMagic <+: data then
      decompressBlocks raw (data.drop xerialHeaderLen) {} max
    else appendSnappyBlock raw data {} max
  (done.map fun () => out.bytes, out)

/-! ## Compression -/

def chunks (size : Nat) (bytes : Bytes) : List Bytes :=
  if bytes = [] ∨ size = 0 then [] else bytes.take size :: chunks size (bytes.drop size)
termination_by bytes.length
decreasing_by
  rename_i more
  have := length_pos_iff.mpr (not_or.mp more).1
  simp only [length_drop]
  omega

theorem flatten_chunks {size : Nat} (positive : 0 < size) (bytes : Bytes) :
    (chunks size bytes).flatten = bytes := by
  induction bytes using chunks.induct size with
  | case1 bytes ends =>
    rw [chunks, if_pos ends, ends.resolve_right (by omega)]
    rfl
  | case2 bytes more ih => rw [chunks, if_neg more, flatten_cons, ih, take_append_drop]

theorem length_of_mem_chunks {size : Nat} {bytes chunk : Bytes} (held : chunk ∈ chunks size bytes) :
    chunk.length ≤ min bytes.length size := by
  induction bytes using chunks.induct size with
  | case1 bytes ends =>
    rw [chunks, if_pos ends] at held
    cases held
  | case2 bytes more ih =>
    rw [chunks, if_neg more] at held
    rcases mem_cons.mp held with rfl | later
    · rw [length_take, Nat.min_comm]
    · have := ih later
      rw [length_drop] at this
      omega

def parts (payload : Bytes) : List Bytes :=
  chunks xerialBlockSize payload ++ if payload = [] then [payload] else []

theorem flatten_parts (payload : Bytes) : (parts payload).flatten = payload := by
  rw [parts, flatten_append, flatten_chunks (by decide)]
  split_ifs with empty
  · rw [empty]
    rfl
  · exact append_nil _

theorem length_of_mem_parts {payload part : Bytes} (held : part ∈ parts payload) :
    part.length ≤ min payload.length xerialBlockSize := by
  rcases mem_append.mp held with chunk | last
  · exact length_of_mem_chunks chunk
  · split_ifs at last with empty
    · rw [mem_singleton.mp last, empty]
      exact Nat.zero_le _
    · cases last

theorem parts_ne_nil (payload : Bytes) : parts payload ≠ [] := by
  intro none
  have empty := flatten_parts payload
  rw [none] at empty
  simp [parts, ← empty] at none

def putBlock (room : Nat) (chunk : Bytes) : Result Bytes :=
  match raw.compress chunk room with
  | .error e => .error (.compression e)
  | .ok block =>
    if block.length < 2 ^ 32 then .ok (putNat 4 block.length ++ block)
    else .error (.compression "snappy block too large")

def compressSnappyXerial (payload : Bytes) : Result Bytes := do
  let room := raw.maxCompressLen (min payload.length xerialBlockSize)
  let blocks ← (parts payload).mapM (putBlock raw room)
  pure (xerialMagic ++ putInt 4 1 ++ putInt 4 1 ++ blocks.flatten)

/-! ## The bound -/

structure Output.Within (out : Output) (max : Nat) : Prop where
  bytes : out.bytes.length ≤ max
  peak : out.peak ≤ max

variable {out : Output} {max : Nat}

theorem Output.Within.append (within : out.Within max) (block : Bytes) :
    (appendSnappyBlock raw block out max).2.Within max := by
  unfold appendSnappyBlock
  dsimp only
  split
  · exact within
  · rename_i declared _
    split_ifs with large
    · exact within
    · have room := within.bytes
      have peak : (out.resize (out.bytes.length + declared)).peak ≤ max :=
        Nat.max_le.mpr ⟨within.peak, by omega⟩
      split
      · refine ⟨?_, peak⟩
        rw [Output.resize, length_append, length_replicate]
        omega
      · rename_i written _
        refine ⟨?_, peak⟩
        have fits := written.2
        rw [Output.rewrite_resize, length_append]
        omega

variable {raw} in
theorem Output.Within.blocks (within : out.Within max) (rest : Bytes) :
    (decompressBlocks raw rest out max).2.Within max := by
  induction rest, out using decompressBlocks.induct raw max with
  | case1 => rwa [decompressBlocks, if_pos rfl]
  | case2 rest out more short => rwa [decompressBlocks, if_neg more, if_pos short]
  | case3 rest out more enough len zero =>
    rwa [decompressBlocks, if_neg more, if_neg enough, if_pos zero]
  | case4 rest out more enough len tail some_ short =>
    rwa [decompressBlocks, if_neg more, if_neg enough, if_neg some_, if_pos short]
  | case5 rest out more enough len tail some_ fits error out' appended =>
    have after := within.append raw (tail.take len)
    rw [appended] at after
    rw [decompressBlocks, if_neg more, if_neg enough, if_neg some_, if_neg fits, appended]
    exact after
  | case6 rest out more enough len tail some_ fits out' appended ih =>
    have after := within.append raw (tail.take len)
    rw [appended] at after
    rw [decompressBlocks, if_neg more, if_neg enough, if_neg some_, if_neg fits, appended]
    exact ih after

theorem decompressSnappy_bounded (raw : Raw) (data : Bytes) (max : Nat) :
    (decompressSnappy raw data max).2.peak ≤ max := by
  have start : ({} : Output).Within max := ⟨Nat.zero_le _, Nat.zero_le _⟩
  unfold decompressSnappy
  split_ifs
  · exact (start.blocks _).peak
  · exact (start.append raw _).peak

/-! ## The round trip -/

/-- What is taken of the raw codec: it compresses whatever is no longer than a block, given as much
room as it asks for; and what it compressed is not empty, declares its size and is restored. -/
structure Raw.Inverts (raw : Raw) : Prop where
  compresses : ∀ (chunk : Bytes) (n : Nat), chunk.length ≤ n → n ≤ xerialBlockSize →
    ∃ block, raw.compress chunk (raw.maxCompressLen n) = .ok block ∧ block.length < 2 ^ 32
  restores : ∀ chunk room block, raw.compress chunk room = .ok block →
    block ≠ [] ∧ raw.decompressLen block = .ok chunk.length ∧
      raw.decompress block chunk.length = .ok ⟨chunk, Nat.le_refl _⟩

section Restored

variable {raw} (inverts : raw.Inverts)

include inverts

variable {chunk : Bytes} {room : Nat}

theorem append_block {block : Bytes} (made : raw.compress chunk room = .ok block)
    (fits : out.bytes.length + chunk.length ≤ max) :
    ∃ peak, appendSnappyBlock raw block out max = (.ok (), ⟨out.bytes ++ chunk, peak⟩) := by
  obtain ⟨-, declares, restored⟩ := inverts.restores chunk room block made
  refine ⟨(out.resize (out.bytes.length + chunk.length)).peak, ?_⟩
  simp only [appendSnappyBlock, declares, restored]
  rw [if_neg (by omega), ← out.rewrite_resize (out.bytes.length + chunk.length) chunk]
  rfl

theorem blocks_step {block : Bytes} (wrote : putBlock raw room chunk = .ok block)
    (fits : out.bytes.length + chunk.length ≤ max) (rest : Bytes) :
    ∃ peak, decompressBlocks raw (block ++ rest) out max =
      decompressBlocks raw rest ⟨out.bytes ++ chunk, peak⟩ max := by
  unfold putBlock at wrote
  split at wrote
  · cases wrote
  rename_i packed made
  split_ifs at wrote with small
  cases wrote
  obtain ⟨filled, -, -⟩ := inverts.restores chunk room packed made
  obtain ⟨peak, appended⟩ := append_block inverts made fits
  have length : beNat (putNat 4 packed.length) = packed.length :=
    beNat_putNat_of_lt (by simpa using small)
  refine ⟨peak, ?_⟩
  rw [decompressBlocks, append_assoc, if_neg (by simp [putNat]), if_neg (by simp)]
  simp only [take_left' (length_putNat 4 _), drop_left' (length_putNat 4 _), length]
  rw [if_neg (by simpa using filled), if_neg (by simp), take_left, drop_left, appended]

theorem decompressBlocks_flatten {parts blocks : List Bytes}
    (wrote : parts.mapM (putBlock raw room) = .ok blocks)
    (fits : out.bytes.length + parts.flatten.length ≤ max) :
    ∃ peak, decompressBlocks raw blocks.flatten out max =
      (.ok (), ⟨out.bytes ++ parts.flatten, peak⟩) := by
  induction parts generalizing out blocks with
  | nil =>
    cases Except.ok.inj wrote
    exact ⟨out.peak, by simp [decompressBlocks]⟩
  | cons part parts ih =>
    rw [mapM_cons] at wrote
    obtain ⟨block, wroteBlock, wrote⟩ := bind_eq_ok wrote
    obtain ⟨rest, wroteRest, wrote⟩ := bind_eq_ok wrote
    rw [← Except.ok.inj wrote, flatten_cons]
    rw [flatten_cons, length_append] at fits
    have room : out.bytes.length + part.length ≤ max := by omega
    obtain ⟨peak, step⟩ := blocks_step inverts wroteBlock room rest.flatten
    have room' : (out.bytes ++ part).length + parts.flatten.length ≤ max := by
      rw [length_append]
      omega
    obtain ⟨peak, run⟩ := @ih ⟨out.bytes ++ part, peak⟩ _ wroteRest room'
    exact ⟨peak, by rw [step, run, flatten_cons, append_assoc]⟩

theorem putBlock_ok {n : Nat} (short : chunk.length ≤ n) (within : n ≤ xerialBlockSize) :
    ∃ block, putBlock raw (raw.maxCompressLen n) chunk = .ok block ∧ 0 < block.length := by
  obtain ⟨block, made, small⟩ := inverts.compresses chunk n short within
  refine ⟨putNat 4 block.length ++ block, by simp only [putBlock, made, if_pos small], ?_⟩
  rw [length_append, length_putNat]
  omega

theorem decompressSnappy_compressSnappyXerial {payload : Bytes} (small : payload.length ≤ max) :
    ∃ data, compressSnappyXerial raw payload = .ok data ∧
      (decompressSnappy raw data max).1 = .ok payload := by
  have each : ∀ part ∈ parts payload, ∃ block,
      putBlock raw (raw.maxCompressLen (min payload.length xerialBlockSize)) part = .ok block ∧
        0 < block.length :=
    fun part held => putBlock_ok inverts (length_of_mem_parts held) (Nat.min_le_right ..)
  choose! block wrote filled using each
  have blocks := mapM_ok wrote
  have room : ({} : Output).bytes.length + (parts payload).flatten.length ≤ max := by
    rwa [flatten_parts, length_nil, Nat.zero_add]
  obtain ⟨peak, read⟩ := decompressBlocks_flatten inverts blocks room
  have some_ : 0 < ((parts payload).map block).flatten.length := by
    obtain ⟨part, held⟩ := exists_mem_of_ne_nil _ (parts_ne_nil payload)
    exact (filled part held).trans_le
      (infix_of_mem_flatten (mem_map_of_mem held)).length_le
  have header : (xerialMagic ++ putInt 4 1 ++ putInt 4 1).length = xerialHeaderLen := rfl
  refine ⟨xerialMagic ++ putInt 4 1 ++ putInt 4 1 ++ ((parts payload).map block).flatten, ?_, ?_⟩
  · rw [compressSnappyXerial, blocks]
    rfl
  · have framed : xerialMagic <+: xerialMagic ++ putInt 4 1 ++ putInt 4 1 ++
        ((parts payload).map block).flatten := by
      rw [append_assoc, append_assoc]
      exact prefix_append _ _
    rw [decompressSnappy, if_pos ⟨by rw [length_append, header]; omega, framed⟩,
      drop_left' header, read, flatten_parts]
    rfl

end Restored

/-- Whatever is compressed is restored where there is room for it, and whatever is decompressed,
the output is never longer than allowed. -/
theorem snappy_is_exact_and_bounded (raw : Raw) (inverts : raw.Inverts) :
    (∀ payload max, payload.length ≤ max → ∃ data, compressSnappyXerial raw payload = .ok data ∧
      (decompressSnappy raw data max).1 = .ok payload) ∧
    ∀ (any : Raw) data max, (decompressSnappy any data max).2.peak ≤ max :=
  ⟨fun _ _ => decompressSnappy_compressSnappyXerial inverts, decompressSnappy_bounded⟩

/-! A codec that writes a chunk as one literal, as Snappy does where nothing repeats. -/

def literal (chunk : Bytes) : Bytes :=
  let last := chunk.length - 1
  if chunk = [] then []
  else if last < 60 then .ofNat (4 * last) :: chunk
  else if last < 256 then 240 :: .ofNat last :: chunk
  else 244 :: .ofNat last :: .ofNat (last / 256) :: chunk

def ofLiteral : Bytes → Bytes
  | [] => []
  | tag :: rest => if tag < 240 then rest else if tag = 240 then rest.drop 1 else rest.drop 2

theorem ofLiteral_literal (chunk : Bytes) : ofLiteral (literal chunk) = chunk := by
  unfold literal
  dsimp only
  split_ifs with empty short medium
  · rw [empty, ofLiteral]
  · have small : UInt8.ofNat (4 * (chunk.length - 1)) < 240 := by
      rw [UInt8.lt_iff_toNat_lt, UInt8.toNat_ofNat', Nat.mod_eq_of_lt (by omega)]
      exact (Nat.mul_lt_mul_left (by decide)).mpr short
    rw [ofLiteral, if_pos small]
  · rfl
  · rfl

theorem length_literal_le (chunk : Bytes) : (literal chunk).length ≤ chunk.length + 3 := by
  unfold literal
  dsimp only
  split_ifs <;> simp

def stored : Raw where
  maxCompressLen n := 32 + n + n / 6
  compress chunk room :=
    if 2 ^ 16 < chunk.length ∨ room < 32 + chunk.length + chunk.length / 6 then
      .error "snappy: output buffer is too small"
    else .ok (encodeUnsignedVarint chunk.length ++ literal chunk)
  decompressLen block := match decodeUnsignedVarint block with
    | .ok (size, _) => .ok size
    | .error _ => .error "snappy: corrupt input"
  decompress block size := match decodeUnsignedVarint block with
    | .ok (_, body) => .ok ⟨(ofLiteral body).take size, length_take_le ..⟩
    | .error _ => .error "snappy: corrupt input"

theorem length_encodeUnsignedVarint (n : Nat) :
    (encodeUnsignedVarint n).length = unsignedVarintSize n := Varint.length_groups ..

theorem stored_inverts : stored.Inverts where
  compresses chunk n short within := by
    have fits : ¬ (2 ^ 16 < chunk.length ∨
        32 + n + n / 6 < 32 + chunk.length + chunk.length / 6) := by
      rw [xerialBlockSize] at within
      omega
    refine ⟨_, if_neg fits, ?_⟩
    have head : (encodeUnsignedVarint chunk.length).length ≤ 5 := by
      rw [length_encodeUnsignedVarint]
      exact Varint.size_le ..
    have body := length_literal_le chunk
    rw [length_append]
    rw [xerialBlockSize] at within
    omega
  restores chunk room block made := by
    simp only [stored] at made
    split_ifs at made with large
    cases made
    have read : decodeUnsignedVarint (encodeUnsignedVarint chunk.length ++ literal chunk) =
        .ok (chunk.length, literal chunk) :=
      varint.takes_decodeUnsigned (show chunk.length < 2 ^ 32 by omega) _
    have some_ : 0 < (encodeUnsignedVarint chunk.length).length := by
      rw [length_encodeUnsignedVarint]
      exact Varint.size_pos ..
    refine ⟨fun none => ?_, ?_, ?_⟩
    · rw [(append_eq_nil_iff.mp none).1] at some_
      cases some_
    · simp only [stored, read]
    · simp only [stored, read, ofLiteral_literal, take_length]

/-- In which no four bytes come twice. -/
def samplePayload : Bytes := (range 20000).flatMap fun n => [.ofNat (n / 256), .ofNat n]

theorem length_samplePayload : samplePayload.length = 40000 := by
  rw [samplePayload, length_flatMap]
  simp only [length_cons, length_nil, map_const', sum_replicate_nat, length_range]

theorem length_parts_samplePayload : (parts samplePayload).length = 2 := by
  have whole := length_samplePayload
  have first : samplePayload ≠ [] := fun none => by simp [none] at whole
  have second : samplePayload.drop xerialBlockSize ≠ [] := fun none => by
    have left := congrArg length none
    rw [length_drop, whole] at left
    cases left
  have ends : (samplePayload.drop xerialBlockSize).drop xerialBlockSize = [] := by
    rw [drop_drop]
    exact drop_eq_nil_of_le (by rw [whole]; decide)
  rw [parts, chunks, if_neg (not_or.mpr ⟨first, by decide⟩), chunks,
    if_neg (not_or.mpr ⟨second, by decide⟩), chunks, if_pos (.inl ends), if_neg first]
  rfl

theorem stored_is_exact :
    (parts samplePayload).length = 2 ∧
      ∃ data, compressSnappyXerial stored samplePayload = .ok data ∧
        (decompressSnappy stored data 40000).1 = .ok samplePayload :=
  ⟨length_parts_samplePayload, (snappy_is_exact_and_bounded stored stored_inverts).1 samplePayload
    40000 length_samplePayload.le⟩

end Krafka.Snappy
