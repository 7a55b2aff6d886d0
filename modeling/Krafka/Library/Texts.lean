import Mathlib.Data.List.Basic
import Mathlib.Data.Nat.Digits.Defs

/-! Texts as lists of characters: numerals, cutting at a separator, and their bytes, also where
these are no text. -/

universe u

namespace Texts

/-! ## Numerals -/

def digit? (base : Nat) (c : Char) : Option Nat :=
  let value :=
    if '0' ≤ c ∧ c ≤ '9' then c.toNat - 48
    else if 'a' ≤ c ∧ c ≤ 'z' then c.toNat - 87
    else if 'A' ≤ c ∧ c ≤ 'Z' then c.toNat - 55
    else base
  if value < base then some value else none

def value? (base : Nat) (digits : List Char) (start : Nat := 0) : Option Nat :=
  digits.foldlM (fun n c => (digit? base c).map (n * base + ·)) start

def boundedValue? (base bound : Nat) (digits : List Char) (start : Nat := 0) : Option Nat :=
  digits.foldlM (fun n c => do
    let d ← digit? base c
    if n * base + d < bound then some (n * base + d) else none) start

def parse? (base bound : Nat) : List Char → Option Nat
  | [] => none
  | ['+'] => none
  | '+' :: digits => boundedValue? base bound digits
  | digits => boundedValue? base bound digits

variable {base start n : Nat} {c : Char} {digits : List Char}

theorem value?_cons :
    value? base (c :: digits) start = some n ↔
      ∃ d, digit? base c = some d ∧ value? base digits (start * base + d) = some n := by
  simp only [value?, List.foldlM_cons, Option.bind_eq_bind, Option.bind_eq_some_iff,
    Option.map_eq_some_iff]
  constructor
  · rintro ⟨_, ⟨d, hd, rfl⟩, rest⟩
    exact ⟨d, hd, rest⟩
  · rintro ⟨d, hd, rest⟩
    exact ⟨_, ⟨d, hd, rfl⟩, rest⟩

theorem le_value? (positive : 0 < base)
    (reads : value? base digits start = some n) : start ≤ n := by
  induction digits generalizing start with
  | nil => exact (Option.some.inj reads).le
  | cons c digits ih =>
    obtain ⟨d, -, rest⟩ := value?_cons.mp reads
    calc start ≤ start * base := Nat.le_mul_of_pos_right start positive
      _ ≤ start * base + d := Nat.le_add_right _ _
      _ ≤ n := ih rest

theorem boundedValue?_eq_some {bound : Nat} (positive : 0 < base)
    (reads : value? base digits start = some n) (small : n < bound) :
    boundedValue? base bound digits start = some n := by
  induction digits generalizing start with
  | nil => exact reads
  | cons c digits ih =>
    obtain ⟨d, hd, rest⟩ := value?_cons.mp reads
    have below : start * base + d < bound := (le_value? positive rest).trans_lt small
    calc boundedValue? base bound (c :: digits) start
        = boundedValue? base bound digits (start * base + d) := by
          simp [boundedValue?, hd, below]
      _ = some n := ih rest

theorem parse?_eq_some {bound : Nat} (positive : 0 < base)
    (some_digit : digits ≠ []) (reads : value? base digits = some n) (small : n < bound) :
    parse? base bound digits = some n := by
  have bounded := boundedValue?_eq_some positive reads small
  match digits, some_digit with
  | c :: digits, _ =>
    have signless : c ≠ '+' := by
      rintro rfl
      obtain ⟨d, hd, -⟩ := value?_cons.mp reads
      simp [digit?] at hd
    unfold parse?
    split
    · contradiction
    · simp_all
    · simp_all
    · exact bounded

def hexUpper (width n : Nat) : List Char :=
  ((Nat.toDigits 16 n).map Char.toUpper).leftpad width '0'

/-! ## Cutting -/

section Cutting

variable {α : Type u} [DecidableEq α]

def splitOnce (sep : α) : List α → Option (List α × List α)
  | [] => none
  | a :: text =>
    if a = sep then some ([], text)
    else (splitOnce sep text).map fun (left, right) => (a :: left, right)

theorem splitOnce_append {sep : α} {left : List α} (absent : sep ∉ left) (right : List α) :
    splitOnce sep (left ++ sep :: right) = some (left, right) := by
  induction left with
  | nil => simp [splitOnce]
  | cons a left ih =>
    obtain ⟨here, there⟩ := not_or.mp (List.mem_cons.not.mp absent)
    simp [splitOnce, ih there, Ne.symm here]

theorem splitOnce_eq_some {sep : α} {text left right : List α}
    (cut : splitOnce sep text = some (left, right)) : text = left ++ sep :: right ∧ sep ∉ left := by
  induction text generalizing left with
  | nil => cases cut
  | cons a text ih =>
    unfold splitOnce at cut
    split at cut
    next here =>
      cases cut
      exact ⟨by rw [here]; rfl, List.not_mem_nil⟩
    next other =>
      obtain ⟨⟨left', right'⟩, found, eq⟩ := Option.map_eq_some_iff.mp cut
      cases eq
      obtain ⟨whole, absent⟩ := ih found
      exact ⟨by rw [whole]; rfl, List.not_mem_cons_of_ne_of_not_mem (Ne.symm other) absent⟩

theorem splitOn_eq_singleton_iff {sep : α} {text : List α} :
    text.splitOn sep = [text] ↔ sep ∉ text := by
  refine ⟨fun one held => ?_, List.splitOn_eq_singleton⟩
  obtain ⟨left, right, rfl⟩ := List.append_of_mem held
  have several := congrArg List.length one
  rw [List.splitOn_append_cons_self, List.length_append, List.length_singleton] at several
  have := List.length_pos_of_ne_nil (List.splitOn_ne_nil sep left)
  have := List.length_pos_of_ne_nil (List.splitOn_ne_nil sep right)
  omega

omit [DecidableEq α] in
theorem intercalate_cons (sep : α) (part : List α) (parts : List (List α)) :
    [sep].intercalate (part :: parts) = part ++ parts.flatMap (sep :: ·) := by
  induction parts generalizing part with
  | nil => simp [List.intercalate]
  | cons next parts ih =>
    rw [List.intercalate_cons_cons, ih, List.flatMap_cons, List.append_assoc]
    rfl

end Cutting

/-- The lines of a text whose lines end in a carriage return and a line feed; the last is what
follows the last of these. -/
def splitCrlf : List Char → List (List Char)
  | [] => [[]]
  | '\r' :: '\n' :: text => [] :: splitCrlf text
  | c :: text => (splitCrlf text).modifyHead (c :: ·)

theorem splitCrlf_cons (other : c ≠ '\r') (text : List Char) :
    splitCrlf (c :: text) = (splitCrlf text).modifyHead (c :: ·) := by
  rw [splitCrlf]
  rintro rest rfl
  exact absurd rfl other

theorem splitCrlf_line {line : List Char} (whole : '\r' ∉ line) (text : List Char) :
    splitCrlf (line ++ '\r' :: '\n' :: text) = line :: splitCrlf text := by
  induction line with
  | nil => rfl
  | cons c line ih =>
    obtain ⟨here, there⟩ := not_or.mp (List.mem_cons.not.mp whole)
    rw [List.cons_append, splitCrlf_cons (Ne.symm here), ih there]
    rfl

theorem splitCrlf_lines {lines : List (List Char)} (whole : ∀ line ∈ lines, '\r' ∉ line) :
    splitCrlf (lines.flatMap (· ++ ['\r', '\n'])) = lines ++ [[]] := by
  induction lines with
  | nil => rfl
  | cons line lines ih =>
    rw [List.flatMap_cons, List.append_assoc]
    exact (splitCrlf_line (whole line (by simp)) _).trans
      (congrArg (line :: ·) (ih fun l held => whole l (by simp [held])))

/-! ## Bytes -/

def utf8 (text : List Char) : List UInt8 := text.flatMap String.utf8EncodeChar

theorem utf8_append (text more : List Char) : utf8 (text ++ more) = utf8 text ++ utf8 more :=
  List.flatMap_append

def fromUtf8? (bytes : List UInt8) : Option (List Char) :=
  (String.fromUTF8? ⟨bytes.toArray⟩).map String.toList

theorem fromUtf8?_utf8 (text : List Char) : fromUtf8? (utf8 text) = some text := by
  have bytes : (⟨(utf8 text).toArray⟩ : ByteArray) = (String.ofList text).toByteArray := by
    rw [String.toByteArray_ofList]
    exact ByteArray.ext List.data_toByteArray.symm
  have read : String.fromUTF8? (String.ofList text).toByteArray = some (String.ofList text) :=
    dif_pos (String.ofList text).isValidUTF8
  rw [fromUtf8?, bytes, read, Option.map_some, String.toList_ofList]

theorem mem_utf8EncodeChar {b : UInt8} (ascii : b.toNat < 128)
    (held : b ∈ String.utf8EncodeChar c) : c.toNat = b.toNat := by
  have wide {n : Nat} (same : b = UInt8.ofNat n) : n % 256 < 128 := by
    rw [same, UInt8.toNat_ofNat'] at ascii
    simpa using ascii
  have value : c.toNat = c.val.toNat := rfl
  unfold String.utf8EncodeChar at held
  dsimp only at held
  split at held
  · rw [List.mem_singleton.mp held, UInt8.toNat_ofNat', value]
    exact (Nat.mod_eq_of_lt (by omega)).symm
  -- Every byte of a longer form is at least 128.
  split at held
  · simp only [List.mem_cons, List.not_mem_nil, or_false] at held
    rcases held with h | h <;> have := wide h <;> omega
  split at held
  · simp only [List.mem_cons, List.not_mem_nil, or_false] at held
    rcases held with h | h | h <;> have := wide h <;> omega
  · simp only [List.mem_cons, List.not_mem_nil, or_false] at held
    rcases held with h | h | h | h <;> have := wide h <;> omega

theorem notMem_utf8 (ascii : c.toNat < 128) {text : List Char} (absent : c ∉ text) :
    UInt8.ofNat c.toNat ∉ utf8 text := by
  intro held
  obtain ⟨d, there, inside⟩ := List.mem_flatMap.mp held
  have low : (UInt8.ofNat c.toNat).toNat = c.toNat := by
    rw [UInt8.toNat_ofNat']
    exact Nat.mod_eq_of_lt (by omega)
  have same := mem_utf8EncodeChar (by rw [low]; exact ascii) inside
  rw [low] at same
  exact absent (Char.toNat_inj.mp same ▸ there)

/-! ## Bytes that are no text -/

/-- How many bytes a character with this first byte has, and the bounds of the second. -/
def leadByte (b : UInt8) : Option (Nat × UInt8 × UInt8) :=
  if 0xC2 ≤ b ∧ b ≤ 0xDF then some (2, 0x80, 0xBF)
  else if b = 0xE0 then some (3, 0xA0, 0xBF)
  else if b = 0xED then some (3, 0x80, 0x9F)
  else if 0xE1 ≤ b ∧ b ≤ 0xEF then some (3, 0x80, 0xBF)
  else if b = 0xF0 then some (4, 0x90, 0xBF)
  else if b = 0xF4 then some (4, 0x80, 0x8F)
  else if 0xF1 ≤ b ∧ b ≤ 0xF3 then some (4, 0x80, 0xBF)
  else none

/-- The length of the first character, or of what stands in its place; `none` where the bytes end
within it. -/
def firstChar : List UInt8 → Except (Option Nat) Nat
  | [] => .error none
  | b :: rest =>
    if b < 0x80 then .ok 1
    else
      match leadByte b with
      | none => .error (some 1)
      | some (width, low, high) =>
        let bounds := (low, high) :: List.replicate (width - 2) (0x80, 0xBF)
        let good := (rest.zip bounds).takeWhile fun (b, low, high) => low ≤ b && b ≤ high
        if good.length = width - 1 then .ok width
        else if good.length = rest.length then .error none
        else .error (some (good.length + 1))

structure Utf8Error where
  validUpTo : Nat
  errorLen : Option Nat

def utf8Error? (bytes : List UInt8) : (fuel : Nat) → (index : Nat) → Option Utf8Error
  | 0, _ => none
  | fuel + 1, index =>
    if bytes.length ≤ index then none
    else
      match firstChar (bytes.drop index) with
      | .ok width => utf8Error? bytes fuel (index + width)
      | .error errorLen => some ⟨index, errorLen⟩

def Utf8Error.display : Utf8Error → String
  | ⟨index, some n⟩ => s!"invalid utf-8 sequence of {n} bytes from index {index}"
  | ⟨index, none⟩ => s!"incomplete utf-8 byte sequence from index {index}"

def utf8Problem (bytes : List UInt8) : String :=
  ((utf8Error? bytes bytes.length 0).map Utf8Error.display).getD ""

/-- Every sequence that is no character is read as U+FFFD. -/
def fromUtf8Lossy (bytes : List UInt8) : (fuel : Nat) → List Char
  | 0 => []
  | fuel + 1 =>
    match utf8Error? bytes bytes.length 0 with
    | none => (fromUtf8? bytes).getD []
    | some ⟨index, errorLen⟩ =>
      (fromUtf8? (bytes.take index)).getD [] ++ '\uFFFD' ::
        match errorLen with
        | none => []
        | some n => fromUtf8Lossy (bytes.drop (index + n)) fuel

/-! ## Durations -/

def fractionDigits : (width part unit : Nat) → List Char
  | 0, _, _ => []
  | width + 1, part, unit =>
    if part = 0 then []
    else Nat.digitChar (part / unit) :: fractionDigits width (part % unit) (unit / 10)

def debugDecimal (whole part width : Nat) (suffix : String) : String :=
  let digits := String.ofList (fractionDigits width part (10 ^ (width - 1)))
  if part = 0 then s!"{whole}{suffix}" else s!"{whole}.{digits}{suffix}"

/-- How a duration of so many nanoseconds is printed. -/
def debugDuration (nanos : Nat) : String :=
  if 1000000000 ≤ nanos then debugDecimal (nanos / 1000000000) (nanos % 1000000000) 9 "s"
  else if 1000000 ≤ nanos then debugDecimal (nanos / 1000000) (nanos % 1000000) 6 "ms"
  else if 1000 ≤ nanos then debugDecimal (nanos / 1000) (nanos % 1000) 3 "µs"
  else debugDecimal nanos 0 1 "ns"

end Texts
