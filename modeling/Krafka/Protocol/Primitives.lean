import Krafka.Library.Varint
import Krafka.Record

/-! What the record format is written in: fixed-width integers in big-endian order, varints and
varlongs, and byte strings with their length in front. A reader takes its value off the front of
the buffer. -/

namespace Krafka

/-! ## Fixed width -/

def putNat : (width n : Nat) → Bytes
  | 0, _ => []
  | width + 1, n => UInt8.ofNat (n / 256 ^ width) :: putNat width n

def putInt (width : Nat) (value : Int) : Bytes := putNat width (value % 256 ^ width).toNat

def Fits (bits : Nat) (value : Int) : Prop := -2 ^ (bits - 1) ≤ value ∧ value < 2 ^ (bits - 1)

instance (bits : Nat) (value : Int) : Decidable (Fits bits value) :=
  inferInstanceAs (Decidable (_ ∧ _))

@[simp] theorem length_putNat (width n : Nat) : (putNat width n).length = width := by
  induction width with
  | zero => rfl
  | succ width ih => rw [putNat, List.length_cons, ih]

@[simp] theorem length_putInt (width : Nat) (value : Int) : (putInt width value).length = width :=
  length_putNat ..

theorem beNat_cons (byte : UInt8) (bytes : Bytes) :
    beNat (byte :: bytes) = byte.toNat * 256 ^ bytes.length + beNat bytes := by
  have fold (bytes : Bytes) (n : Nat) :
      bytes.foldl (fun n b => n * 256 + b.toNat) n = n * 256 ^ bytes.length + beNat bytes := by
    unfold beNat
    induction bytes generalizing n with
    | nil => simp
    | cons byte bytes ih =>
      simp only [List.foldl_cons, List.length_cons]
      rw [ih, ih (0 * 256 + byte.toNat)]
      ring
  exact (fold bytes _).trans (by simp)

theorem beNat_putNat (width n : Nat) : beNat (putNat width n) = n % 256 ^ width := by
  induction width with
  | zero => simp [putNat, beNat, Nat.mod_one]
  | succ width ih =>
    have byte : (UInt8.ofNat (n / 256 ^ width)).toNat = n / 256 ^ width % 256 := UInt8.toNat_ofNat'
    rw [putNat, beNat_cons, ih, length_putNat, byte, Nat.mod_pow_succ, Nat.mul_comm (256 ^ width),
      Nat.add_comm]

theorem beNat_putNat_of_lt {width n : Nat} (small : n < 256 ^ width) :
    beNat (putNat width n) = n := by
  rw [beNat_putNat, Nat.mod_eq_of_lt small]

theorem beInt_putInt {width : Nat} {value : Int} (fits : Fits (8 * width) value)
    (wide : 0 < width) : beInt (putInt width value) = value := by
  obtain ⟨low, high⟩ := fits
  obtain ⟨half, half_eq⟩ : ∃ half : Nat, half = 2 ^ (8 * width - 1) := ⟨_, rfl⟩
  have space : (256 : Nat) ^ width = 2 * half := by
    rw [half_eq, ← pow_succ', show 8 * width - 1 + 1 = 8 * width by omega, pow_mul]
    rfl
  have bound : (2 : Int) ^ (8 * width - 1) = half := by rw [half_eq]; norm_cast
  rw [bound] at low high
  have cast : (256 : Int) ^ width = 2 * half := by exact_mod_cast space
  have number : (beNat (putInt width value) : Int) = value % (2 * half) := by
    have below := Int.emod_lt_of_pos value (show (0 : Int) < 2 * half by omega)
    have above := Int.emod_nonneg value (show (2 * half : Int) ≠ 0 by omega)
    rw [putInt, cast, beNat_putNat_of_lt (by omega)]
    omega
  unfold beInt
  simp only [length_putInt, space]
  by_cases negative : value < 0
  · have wrapped : value % (2 * half) = value + 2 * half := by
      rw [← Int.add_emod_right]
      exact Int.emod_eq_of_lt (by omega) (by omega)
    rw [if_neg (by omega)]
    push_cast
    omega
  · have same : value % (2 * half) = value := Int.emod_eq_of_lt (by omega) (by omega)
    rw [if_pos (by omega)]
    omega

/-! ## Varints -/

abbrev Reader := StateT Bytes Result

structure VarFormat where
  bits : Nat
  more : Nat
  /-- What the last possible byte can hold. -/
  top : UInt8
  failures : Varint.Failures KrafkaError
  caps : top.toNat < 128
  room : 2 ^ bits = 128 ^ more * (top.toNat + 1)
  signed : 0 < bits

namespace VarFormat

variable (format : VarFormat)

def code (value : Int) : Nat := (Varint.zigzag (BitVec.ofInt format.bits value)).toNat

def encodeUnsigned (value : Nat) : Bytes := Varint.groups format.more value

def unsignedSize (value : Nat) : Nat := Varint.size format.more value

def encodeSigned (value : Int) : Bytes := format.encodeUnsigned (format.code value)

def signedSize (value : Int) : Nat := format.unsignedSize (format.code value)

def decodeUnsigned : Reader Nat := fun buf =>
  Varint.ungroup format.failures format.bits format.more format.top 0 0 buf

def decodeSigned : Reader Int := do
  let unsigned ← format.decodeUnsigned
  pure (Varint.unzigzag (BitVec.ofNat format.bits unsigned)).toInt

end VarFormat

def varint : VarFormat where
  bits := 32
  more := 4
  top := 0x0F
  failures :=
    { ended := .protocol .truncatedFrame "unexpected end of varint"
      overflows := .protocol .invalidLength "varint overflows u32"
      tooLong := .protocol .invalidLength "varint too long" }
  caps := by decide
  room := by decide
  signed := by decide

def varlong : VarFormat where
  bits := 64
  more := 9
  top := 0x01
  failures :=
    { ended := .protocol .truncatedFrame "unexpected end of varlong"
      overflows := .protocol .invalidLength "varlong overflows u64"
      tooLong := .protocol .invalidLength "varlong too long" }
  caps := by decide
  room := by decide
  signed := by decide

def encodeUnsignedVarint : Nat → Bytes := varint.encodeUnsigned
def encodeUnsignedVarlong : Nat → Bytes := varlong.encodeUnsigned
def unsignedVarintSize : Nat → Nat := varint.unsignedSize
def unsignedVarlongSize : Nat → Nat := varlong.unsignedSize
def decodeUnsignedVarint : Reader Nat := varint.decodeUnsigned
def decodeUnsignedVarlong : Reader Nat := varlong.decodeUnsigned
def encodeSignedVarint : Int → Bytes := varint.encodeSigned
def encodeSignedVarlong : Int → Bytes := varlong.encodeSigned
def signedVarintSize : Int → Nat := varint.signedSize
def signedVarlongSize : Int → Nat := varlong.signedSize
def decodeSignedVarint : Reader Int := varint.decodeSigned
def decodeSignedVarlong : Reader Int := varlong.decodeSigned

namespace Reader

variable {α β : Type}

def Takes (reader : Reader α) (bytes : Bytes) (value : α) : Prop :=
  ∀ rest, reader.run (bytes ++ rest) = .ok (value, rest)

variable {reader : Reader α} {value : α}

theorem run_bind_of_ok {next : α → Reader β} {buf rest : Bytes}
    (read : reader.run buf = .ok (value, rest)) :
    (reader >>= next).run buf = (next value).run rest := by
  rw [StateT.run_bind, read]
  rfl

theorem Takes.bind {next : α → Reader β} {first second : Bytes}
    {result : β} (read : Takes reader first value) (after : Takes (next value) second result) :
    Takes (reader >>= next) (first ++ second) result := by
  intro rest
  rw [List.append_assoc, run_bind_of_ok (read _)]
  exact after rest

theorem Takes.pure (value : α) : Takes (Pure.pure value) [] value := fun _ => rfl

theorem Takes.map {bytes : Bytes} (read : Takes reader bytes value)
    (f : α → β) : Takes (reader >>= fun value => Pure.pure (f value)) bytes (f value) := by
  have both : Takes (reader >>= fun value => Pure.pure (f value)) (bytes ++ []) (f value) :=
    read.bind (Takes.pure (f value))
  rwa [List.append_nil] at both

end Reader

namespace VarFormat

variable (format : VarFormat)

theorem takes_decodeUnsigned {value : Nat} (small : value < 2 ^ format.bits) :
    Reader.Takes format.decodeUnsigned (format.encodeUnsigned value) value :=
  Varint.ungroup_groups format.failures format.caps format.room small

theorem takes_decodeSigned {value : Int} (fits : Fits format.bits value) :
    Reader.Takes format.decodeSigned (format.encodeSigned value) value := by
  have small : format.code value < 2 ^ format.bits := BitVec.isLt _
  have read := (format.takes_decodeUnsigned small).map fun unsigned =>
    (Varint.unzigzag (BitVec.ofNat format.bits unsigned)).toInt
  rwa [code, BitVec.ofNat_toNat, BitVec.setWidth_eq, Varint.unzigzag_zigzag,
    BitVec.toInt_ofInt_eq_self format.signed fits.1 fits.2] at read

theorem length_encodeSigned (value : Int) :
    (format.encodeSigned value).length = format.signedSize value := Varint.length_groups ..

end VarFormat

/-- What is written of the value is read back, whatever follows, and is of the size foretold. -/
def WrittenAs {α : Type} (encode : α → Bytes) (size : α → Nat) (decode : Reader α) (value : α) :
    Prop := Reader.Takes decode (encode value) value ∧ size value = (encode value).length

/-- What the reader accepts is one integer, in at most `most` bytes, and its value is all of it. -/
def ReadsExactly (decode : Reader Nat) (bits most : Nat) : Prop :=
  ∀ buf value rest, decode.run buf = .ok (value, rest) →
    ∃ used, buf = used ++ rest ∧ Varint.Numeral used ∧ used.length ≤ most ∧ value < 2 ^ bits ∧
      value = Varint.value used

theorem VarFormat.readsExactly (format : VarFormat) :
    ReadsExactly format.decodeUnsigned format.bits (format.more + 1) := by
  intro buf value rest read
  obtain ⟨used, whole, numeral, few, small, sum⟩ := Varint.ungroup_eq_ok format.failures format.room
    (Nat.zero_le _) Nat.one_pos read
  exact ⟨used, whole, numeral, few, small, by simpa using sum⟩

/-- Integers of variable length come back as they were written, in as many bytes as foretold; and
a reader never takes more or fewer bytes than those of one integer, nor drops any of their bits. -/
theorem varints_are_exact :
    (∀ v : UInt32,
      WrittenAs encodeUnsignedVarint unsignedVarintSize decodeUnsignedVarint v.toNat) ∧
    (∀ v : Int32, WrittenAs encodeSignedVarint signedVarintSize decodeSignedVarint v.toInt) ∧
    (∀ v : UInt64,
      WrittenAs encodeUnsignedVarlong unsignedVarlongSize decodeUnsignedVarlong v.toNat) ∧
    (∀ v : Int64, WrittenAs encodeSignedVarlong signedVarlongSize decodeSignedVarlong v.toInt) ∧
    ReadsExactly decodeUnsignedVarint 32 5 ∧ ReadsExactly decodeUnsignedVarlong 64 10 := by
  refine ⟨fun v => ⟨varint.takes_decodeUnsigned v.toNat_lt, ?_⟩,
    fun v => ⟨varint.takes_decodeSigned ⟨v.le_toInt, v.toInt_lt⟩, ?_⟩,
    fun v => ⟨varlong.takes_decodeUnsigned v.toNat_lt, ?_⟩,
    fun v => ⟨varlong.takes_decodeSigned ⟨v.le_toInt, v.toInt_lt⟩, ?_⟩,
    varint.readsExactly, varlong.readsExactly⟩ <;> exact (Varint.length_groups ..).symm

end Krafka
