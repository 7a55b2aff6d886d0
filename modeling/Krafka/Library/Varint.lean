import Mathlib.Data.Nat.Basic
import Mathlib.Tactic.Ring
import Mathlib.Tactic.SplitIfs

/-! Integers of variable length: seven bits a byte, lowest first, with the high bit set on every
byte but the last (LEB128), and the zigzag code that gives integers of small magnitude small codes,
whatever their sign. -/

namespace Varint

/-! ## Zigzag -/

section Zigzag

variable {w : Nat}

def zigzag (value : BitVec w) : BitVec w := (value <<< 1) ^^^ value.sshiftRight (w - 1)

def unzigzag (code : BitVec w) : BitVec w := (code >>> 1) ^^^ -(code &&& 1#w)

theorem sshiftRight_sign (value : BitVec w) :
    value.sshiftRight (w - 1) = if value.msb then BitVec.allOnes w else 0#w := by
  refine BitVec.eq_of_getLsbD_eq fun i inside => ?_
  rw [BitVec.getLsbD_sshiftRight]
  have sign : (if w - 1 + i < w then value.getLsbD (w - 1 + i) else value.msb) = value.msb := by
    split_ifs with first
    · rw [BitVec.msb_eq_getLsbD_last, show w - 1 + i = w - 1 by omega]
    · rfl
  rw [sign]
  cases value.msb <;> simp [inside]

theorem neg_lsb (code : BitVec w) :
    -(code &&& 1#w) = if code.getLsbD 0 then BitVec.allOnes w else 0#w := by
  rw [BitVec.and_one_eq_setWidth_ofBool_getLsbD]
  cases code.getLsbD 0 with
  | false => simp
  | true =>
    have one : BitVec.setWidth w (BitVec.ofBool true) = 1#w := BitVec.eq_of_toNat_eq (by simp)
    rw [one, BitVec.neg_one_eq_allOnes]
    rfl

theorem pos_of_msb {value : BitVec w} (sign : value.msb) : 0 < w := by
  rw [BitVec.msb_eq_getLsbD_last] at sign
  have inside := BitVec.lt_of_getLsbD sign
  omega

theorem getLsbD_zigzag_zero (value : BitVec w) : (zigzag value).getLsbD 0 = value.msb := by
  unfold zigzag
  rw [sshiftRight_sign]
  cases sign : value.msb with
  | false => simp
  | true => simp [pos_of_msb sign]

theorem unzigzag_zigzag (value : BitVec w) : unzigzag (zigzag value) = value := by
  unfold unzigzag
  rw [neg_lsb, getLsbD_zigzag_zero]
  unfold zigzag
  rw [sshiftRight_sign]
  refine BitVec.eq_of_getLsbD_eq fun i inside => ?_
  have top : ¬ 1 + i < w → value.getLsbD i = value.msb := by
    intro last
    rw [BitVec.msb_eq_getLsbD_last, show i = w - 1 by omega]
  by_cases next : 1 + i < w
  · cases value.msb <;> simp [inside, next]
  · rw [top next]
    cases value.msb <;> simp [inside, next]

end Zigzag

/-! ## Groups of seven bits -/

def groups : (more value : Nat) → List UInt8
  | 0, value => [UInt8.ofNat value]
  | more + 1, value =>
    if value < 0x80 then [UInt8.ofNat value]
    else (UInt8.ofNat value ||| 0x80) :: groups more (value >>> 7)

def size : (more value : Nat) → Nat
  | 0, _ => 1
  | more + 1, value => if value < 0x80 then 1 else size more (value >>> 7) + 1

theorem length_groups (more value : Nat) : (groups more value).length = size more value := by
  induction more generalizing value with
  | zero => rfl
  | succ more ih =>
    unfold groups size
    split_ifs
    · rfl
    · rw [List.length_cons, ih]

theorem size_pos (more value : Nat) : 0 < size more value := by
  cases more with
  | zero => exact Nat.one_pos
  | succ =>
    unfold size
    split_ifs
    · exact Nat.one_pos
    · exact Nat.succ_pos _

theorem size_le (more value : Nat) : size more value ≤ more + 1 := by
  induction more generalizing value with
  | zero => exact Nat.le_refl 1
  | succ more ih =>
    unfold size
    split_ifs
    · exact Nat.succ_le_succ (Nat.zero_le _)
    · exact Nat.succ_le_succ (ih _)

structure Failures (ε : Type*) where
  ended : ε
  overflows : ε
  tooLong : ε

variable {ε : Type*}

/-- Read an integer of `bits` bits, in at most `more + 1` bytes, the last of them at most `top`, from
the bytes at `shift` on. What is shifted past the last bit is lost. -/
def ungroup (failures : Failures ε) (bits more : Nat) (top : UInt8) (shift result : Nat) :
    List UInt8 → Except ε (Nat × List UInt8)
  | [] => .error failures.ended
  | byte :: rest =>
    if shift = 7 * more ∧ top < byte &&& 0x7F then .error failures.overflows
    else
      let result := result ||| ((byte &&& 0x7F).toNat <<< shift) % 2 ^ bits
      if byte &&& 0x80 = 0 then .ok (result, rest)
      else if 7 * (more + 1) ≤ shift + 7 then .error failures.tooLong
      else ungroup failures bits more top (shift + 7) result rest

theorem toNat_and_low (byte : UInt8) : (byte &&& 0x7F).toNat = byte.toNat % 128 := by
  rw [UInt8.toNat_and]
  exact Nat.and_two_pow_sub_one_eq_mod byte.toNat 7

variable {byte : UInt8}

theorem and_high_of_lt (last : byte.toNat < 128) : byte &&& 0x80 = 0 := by
  have every : ∀ n : Fin 256, n.val < 128 → UInt8.ofFin n &&& 0x80 = 0 := by decide +kernel
  exact every byte.toFin last

theorem low_or_high (byte : UInt8) : (byte ||| 0x80) &&& 0x7F = byte &&& 0x7F := by
  have every : ∀ n : Fin 256, (UInt8.ofFin n ||| 0x80) &&& 0x7F = UInt8.ofFin n &&& 0x7F := by
    decide +kernel
  exact every byte.toFin

theorem high_or_high (byte : UInt8) : (byte ||| 0x80) &&& 0x80 ≠ 0 := by
  have every : ∀ n : Fin 256, (UInt8.ofFin n ||| 0x80) &&& 0x80 ≠ 0 := by decide +kernel
  exact every byte.toFin

variable {result low : Nat}

theorem add_mul_lt {unit : Nat} (below : result < unit) :
    result + low * unit < (low + 1) * unit := by
  rw [Nat.succ_mul, Nat.add_comm]
  exact Nat.add_lt_add_left below _

theorem or_shiftLeft {bits shift : Nat} (below : result < 2 ^ shift)
    (fits : (low + 1) * 2 ^ shift ≤ 2 ^ bits) :
    result ||| (low <<< shift) % 2 ^ bits = result + low * 2 ^ shift := by
  have inside : low * 2 ^ shift < 2 ^ bits :=
    (Nat.le_add_left _ result).trans_lt ((add_mul_lt below).trans_le fits)
  rw [Nat.mod_eq_of_lt (by rwa [Nat.shiftLeft_eq]), Nat.or_comm,
    ← Nat.shiftLeft_add_eq_or_of_lt below, Nat.shiftLeft_eq, Nat.add_comm]

theorem next_below {done : Nat} (below : result < 2 ^ (7 * done)) (part : low < 128) :
    result + low * 2 ^ (7 * done) < 2 ^ (7 * (done + 1)) := by
  calc result + low * 2 ^ (7 * done)
      < (low + 1) * 2 ^ (7 * done) := add_mul_lt below
    _ ≤ 128 * 2 ^ (7 * done) := Nat.mul_le_mul_right _ part
    _ = 2 ^ (7 * (done + 1)) := by ring

section Reading

variable (failures : Failures ε) {bits more done result value : Nat} {top : UInt8}

theorem byte_fits (room : 2 ^ bits = 128 ^ more * (top.toNat + 1)) (early : done ≤ more) {low : Nat}
    (part : low < 128) (caps : done = more → low ≤ top.toNat) :
    (low + 1) * 2 ^ (7 * done) ≤ 2 ^ bits := by
  rw [room, show 2 ^ (7 * done) = 128 ^ done by rw [pow_mul]; rfl]
  rcases early.eq_or_lt with rfl | early
  · rw [Nat.mul_comm (128 ^ done)]
    exact Nat.mul_le_mul_right _ (Nat.succ_le_succ (caps rfl))
  · calc (low + 1) * 128 ^ done ≤ 128 * 128 ^ done := Nat.mul_le_mul_right _ part
      _ = 128 ^ (done + 1) := by ring
      _ ≤ 128 ^ more := Nat.pow_le_pow_right (by omega) early
      _ ≤ 128 ^ more * (top.toNat + 1) := Nat.le_mul_of_pos_right _ (by omega)

theorem ungroup_last (room : 2 ^ bits = 128 ^ more * (top.toNat + 1)) (early : done ≤ more)
    (below : result < 2 ^ (7 * done)) (final : value < 128) (caps : done = more → value ≤ top.toNat)
    (rest : List UInt8) :
    ungroup failures bits more top (7 * done) result (UInt8.ofNat value :: rest) =
      .ok (result + value * 2 ^ (7 * done), rest) := by
  have byte : (UInt8.ofNat value).toNat = value := by
    rw [UInt8.toNat_ofNat']
    omega
  have low : (UInt8.ofNat value &&& 0x7F).toNat = value := by
    rw [toNat_and_low, byte, Nat.mod_eq_of_lt final]
  have inside : ¬ (7 * done = 7 * more ∧ top < UInt8.ofNat value &&& 0x7F) := by
    rintro ⟨ends, high⟩
    rw [UInt8.lt_iff_toNat_lt, low] at high
    exact absurd (caps (by omega)) (Nat.not_le.mpr high)
  rw [ungroup, if_neg inside, low, or_shiftLeft below (byte_fits room early final caps)]
  exact if_pos (and_high_of_lt (byte.trans_lt final))

theorem ungroup_next (room : 2 ^ bits = 128 ^ more * (top.toNat + 1)) (early : done < more)
    (below : result < 2 ^ (7 * done)) (rest : List UInt8) :
    ungroup failures bits more top (7 * done) result ((UInt8.ofNat value ||| 0x80) :: rest) =
      ungroup failures bits more top (7 * (done + 1)) (result + value % 128 * 2 ^ (7 * done))
        rest := by
  have low : ((UInt8.ofNat value ||| 0x80) &&& 0x7F).toNat = value % 128 := by
    rw [low_or_high, toNat_and_low, UInt8.toNat_ofNat']
    omega
  have inside : ¬ (7 * done = 7 * more ∧ top < (UInt8.ofNat value ||| 0x80) &&& 0x7F) := by omega
  have fits := byte_fits room early.le (Nat.mod_lt value (by decide : 0 < 128)) (by omega)
  rw [ungroup, if_neg inside, low, or_shiftLeft below fits]
  exact (if_neg (high_or_high _)).trans (if_neg (by omega))

theorem ungroup_groups_from (caps : top.toNat < 128) (rest : List UInt8) (more done value result : Nat)
    (room : 2 ^ bits = 128 ^ (done + more) * (top.toNat + 1))
    (small : value < 128 ^ more * (top.toNat + 1)) (below : result < 2 ^ (7 * done)) :
    ungroup failures bits (done + more) top (7 * done) result (groups more value ++ rest) =
      .ok (result + value * 2 ^ (7 * done), rest) := by
  induction more generalizing done value result with
  | zero =>
    rw [pow_zero, Nat.one_mul] at small
    exact ungroup_last failures room (by omega) below (by omega) (fun _ => Nat.le_of_lt_succ small) rest
  | succ more ih =>
    unfold groups
    split_ifs with final
    · exact ungroup_last failures room (by omega) below final (by omega) rest
    · rw [List.cons_append, ungroup_next failures room (by omega) below, Nat.shiftRight_eq_div_pow]
      have left : value / 128 < 128 ^ more * (top.toNat + 1) := by
        rw [Nat.div_lt_iff_lt_mul (by omega)]
        calc value < 128 ^ (more + 1) * (top.toNat + 1) := small
          _ = 128 ^ more * (top.toNat + 1) * 128 := by ring
      have shape : done + 1 + more = done + (more + 1) := by omega
      have read := ih (done + 1) (value / 128) _ (shape ▸ room) left
        (next_below below (Nat.mod_lt value (by omega)))
      rw [shape] at read
      refine read.trans ?_
      have whole : value % 128 + 128 * (value / 128) = value := Nat.mod_add_div value 128
      congr 2
      calc result + value % 128 * 2 ^ (7 * done) + value / 128 * 2 ^ (7 * (done + 1))
          = result + (value % 128 + 128 * (value / 128)) * 2 ^ (7 * done) := by ring
        _ = result + value * 2 ^ (7 * done) := by rw [whole]

theorem ungroup_groups (caps : top.toNat < 128) (room : 2 ^ bits = 128 ^ more * (top.toNat + 1))
    (small : value < 2 ^ bits) (rest : List UInt8) :
    ungroup failures bits more top 0 0 (groups more value ++ rest) = .ok (value, rest) := by
  have read := ungroup_groups_from failures caps rest more 0 value 0 (by simpa using room)
    (room ▸ small) (by simp)
  simpa using read

end Reading

/-! ## What is accepted -/

def value : List UInt8 → Nat
  | [] => 0
  | byte :: rest => byte.toNat % 128 + 128 * value rest

def Numeral : List UInt8 → Prop
  | [] => False
  | [last] => last.toNat < 128
  | byte :: rest => 128 ≤ byte.toNat ∧ Numeral rest

theorem and_high_iff : byte &&& 0x80 = 0 ↔ byte.toNat < 128 := by
  refine ⟨fun low => ?_, and_high_of_lt⟩
  have every : ∀ n : Fin 256, UInt8.ofFin n &&& 0x80 = 0 → n.val < 128 := by decide +kernel
  exact every byte.toFin low

theorem Numeral.cons {rest : List UInt8} (high : 128 ≤ byte.toNat)
    (numeral : Numeral rest) : Numeral (byte :: rest) := by
  match rest with
  | _ :: _ => exact ⟨high, numeral⟩

theorem ungroup_eq_ok (failures : Failures ε) {bits more done n : Nat} {top : UInt8}
    {buf rest : List UInt8} (room : 2 ^ bits = 128 ^ more * (top.toNat + 1)) (early : done ≤ more)
    (below : result < 2 ^ (7 * done))
    (read : ungroup failures bits more top (7 * done) result buf = .ok (n, rest)) :
    ∃ used, buf = used ++ rest ∧ Numeral used ∧ used.length + done ≤ more + 1 ∧ n < 2 ^ bits ∧
      n = result + value used * 2 ^ (7 * done) := by
  induction buf generalizing done result with
  | nil => cases read
  | cons byte buf ih =>
    have part : byte.toNat % 128 < 128 := Nat.mod_lt _ (by decide)
    unfold ungroup at read
    by_cases full : 7 * done = 7 * more ∧ top < byte &&& 0x7F
    · rw [if_pos full] at read
      cases read
    rw [if_neg full] at read
    have fits := byte_fits room early part fun ends => by
      rw [← toNat_and_low]
      exact Nat.not_lt.mp fun high => full ⟨by omega, UInt8.lt_iff_toNat_lt.mpr high⟩
    simp only [toNat_and_low, or_shiftLeft below fits] at read
    split_ifs at read with last long
    · cases read
      exact ⟨[byte], rfl, and_high_iff.mp last, by simp only [List.length_singleton]; omega,
        (add_mul_lt below).trans_le fits, by simp [value]⟩
    · obtain ⟨used, rfl, numeral, few, small, rfl⟩ := ih (by omega) (next_below below part) read
      have high : 128 ≤ byte.toNat := Nat.not_lt.mp (and_high_iff.not.mp last)
      refine ⟨byte :: used, rfl, numeral.cons high, by simp only [List.length_cons]; omega, small, ?_⟩
      rw [value]
      ring

end Varint
