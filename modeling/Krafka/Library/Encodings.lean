import Krafka.Library.Texts

/-! Two encodings of bytes in text, as their readers take them: Base64 (RFC 4648) and the fields of
`application/x-www-form-urlencoded`. -/

/-! ## Base64 -/

namespace Base64

def alphabet : List Char :=
  "ABCDEFGHIJKLMNOPQRSTUVWXYZabcdefghijklmnopqrstuvwxyz0123456789+/".toList

def letter (n : Nat) : Char := alphabet.getD n '='

def value? (c : Char) : Option Nat := alphabet.idxOf? c

/-- The bytes of the text; only the last four letters may be padded, and the bits that the padding
leaves unused are zero. -/
def decode? : List Char → Option (List UInt8)
  | [] => some []
  | a :: b :: c :: d :: rest => do
    let x ← value? a
    let y ← value? b
    if c = '=' ∧ d = '=' ∧ rest = [] then
      if y % 16 = 0 then some [UInt8.ofNat (x * 4 + y / 16)] else none
    else
      let z ← value? c
      if d = '=' ∧ rest = [] then
        if z % 4 = 0 then
          some [UInt8.ofNat (x * 4 + y / 16), UInt8.ofNat (y % 16 * 16 + z / 4)]
        else none
      else
        let w ← value? d
        let bytes ← decode? rest
        some (UInt8.ofNat (x * 4 + y / 16) :: UInt8.ofNat (y % 16 * 16 + z / 4) ::
          UInt8.ofNat (z % 4 * 64 + w) :: bytes)
  | _ => none

theorem letter_spec {n : Nat} (small : n < 64) : value? (letter n) = some n ∧ letter n ≠ '=' := by
  have every : ∀ k : Fin 64, value? (letter k) = some k.val ∧ letter k ≠ '=' := by decide +kernel
  exact every ⟨n, small⟩

theorem decode?_three {a b c : Nat} (ha : a < 256) (hb : b < 256) (hc : c < 256)
    (rest : List Char) :
    decode? (letter (a / 4) :: letter (a % 4 * 16 + b / 16) :: letter (b % 16 * 4 + c / 64) ::
      letter (c % 64) :: rest) =
        (decode? rest).map ([UInt8.ofNat a, UInt8.ofNat b, UInt8.ofNat c] ++ ·) := by
  have ⟨hx, _⟩ := @letter_spec (a / 4) (by omega)
  have ⟨hy, _⟩ := @letter_spec (a % 4 * 16 + b / 16) (by omega)
  have ⟨hz, plain⟩ := @letter_spec (b % 16 * 4 + c / 64) (by omega)
  have ⟨hw, plain'⟩ := @letter_spec (c % 64) (by omega)
  have first : a / 4 * 4 + (a % 4 * 16 + b / 16) / 16 = a := by omega
  have second : (a % 4 * 16 + b / 16) % 16 * 16 + (b % 16 * 4 + c / 64) / 4 = b := by omega
  have third : (b % 16 * 4 + c / 64) % 4 * 64 + c % 64 = c := by omega
  simp only [decode?, hx, hy, hz, hw, plain, plain', false_and, if_false, Option.bind_eq_bind,
    Option.bind_some, first, second, third]
  cases decode? rest <;> rfl

theorem decode?_two {a b : Nat} (ha : a < 256) (hb : b < 256) :
    decode? [letter (a / 4), letter (a % 4 * 16 + b / 16), letter (b % 16 * 4), '='] =
      some [UInt8.ofNat a, UInt8.ofNat b] := by
  have ⟨hx, _⟩ := @letter_spec (a / 4) (by omega)
  have ⟨hy, _⟩ := @letter_spec (a % 4 * 16 + b / 16) (by omega)
  have ⟨hz, plain⟩ := @letter_spec (b % 16 * 4) (by omega)
  have first : a / 4 * 4 + (a % 4 * 16 + b / 16) / 16 = a := by omega
  have second : (a % 4 * 16 + b / 16) % 16 * 16 + (b % 16 * 4) / 4 = b := by omega
  have unused : b % 16 * 4 % 4 = 0 := by omega
  simp only [decode?, hx, hy, hz, plain, false_and, if_false, Option.bind_eq_bind,
    Option.bind_some, first, second, unused, and_self, if_true]

theorem decode?_one {a : Nat} (ha : a < 256) :
    decode? [letter (a / 4), letter (a % 4 * 16), '=', '='] = some [UInt8.ofNat a] := by
  have ⟨hx, _⟩ := @letter_spec (a / 4) (by omega)
  have ⟨hy, _⟩ := @letter_spec (a % 4 * 16) (by omega)
  have first : a / 4 * 4 + a % 4 * 16 / 16 = a := by omega
  have unused : a % 4 * 16 % 16 = 0 := by omega
  simp only [decode?, hx, hy, Option.bind_eq_bind, Option.bind_some, first, unused, and_self,
    if_true]

end Base64

/-! ## Form fields -/

namespace Form

/-- The bytes of a name or a value: a plus sign is a space, and two hexadecimal digits after a
percent sign are a byte. -/
def decode? : List Char → Option (List UInt8)
  | [] => some []
  | '%' :: hi :: lo :: text => do
    let h ← Texts.digit? 16 hi
    let l ← Texts.digit? 16 lo
    (decode? text).map (UInt8.ofNat (h * 16 + l) :: ·)
  | c :: text =>
    if c = '%' then none
    else (decode? text).map ((if c = '+' then [32] else String.utf8EncodeChar c) ++ ·)

def parseField? (field : List Char) : Option (List Char × List Char) := do
  let (name, value) ← Texts.splitOnce '=' field
  let name ← decode? name >>= Texts.fromUtf8?
  let value ← decode? value >>= Texts.fromUtf8?
  some (name, value)

def parse? (text : List Char) : Option (List (List Char × List Char)) :=
  (text.splitOn '&').mapM parseField?

theorem decode?_cons {c : Char} (other : c ≠ '%') (text : List Char) : decode? (c :: text) =
    (decode? text).map ((if c = '+' then [32] else String.utf8EncodeChar c) ++ ·) := by
  rw [decode?, if_neg other]
  rintro _ _ _ rfl -
  exact other rfl

theorem parse?_intercalate {write : List Char → List Char}
    (read : ∀ v, decode? (write v) = some (Texts.utf8 v)) (plain : ∀ v, '=' ∉ write v)
    (whole : ∀ v, '&' ∉ write v) {pairs : List (List Char × List Char)} (some_pair : pairs ≠ []) :
    parse? (['&'].intercalate (pairs.map fun (key, value) => write key ++ '=' :: write value)) =
      some pairs := by
  have field (pair : List Char × List Char) :
      parseField? (write pair.1 ++ '=' :: write pair.2) = some pair := by
    simp [parseField?, Texts.splitOnce_append (plain pair.1), read, Texts.fromUtf8?_utf8]
  rw [parse?, List.splitOn_intercalate]
  · clear some_pair
    induction pairs with
    | nil => rfl
    | cons pair pairs ih =>
      rw [List.map_cons, List.mapM_cons, field, ih]
      rfl
  · intro part held split
    obtain ⟨pair, -, rfl⟩ := List.mem_map.mp held
    simp [whole] at split
  · simpa using some_pair

end Form
