import Krafka.Library.Texts

/-! JSON texts after RFC 8259: values without arrays, a parser of their grammar, and the objects of
strings a writer that quotes its strings makes. -/

namespace Json

inductive Value where
  | null
  | bool (value : Bool)
  | number (text : List Char)
  | string (chars : List Char)
  | object (members : List (List Char × Value))

def isWs (c : Char) : Bool := c = ' ' || c = '\t' || c = '\n' || c = '\r'

def skipWs (text : List Char) : List Char := text.dropWhile isWs

/-! ## Strings -/

def escape? : Char → Option Char
  | '"' => some '"'
  | '\\' => some '\\'
  | '/' => some '/'
  | 'b' => some '\x08'
  | 'f' => some '\x0C'
  | 'n' => some '\n'
  | 'r' => some '\r'
  | 't' => some '\t'
  | _ => none

def hex4? : List Char → Option (Nat × List Char)
  | a :: b :: c :: d :: rest => (Texts.value? 16 [a, b, c, d]).map (·, rest)
  | _ => none

def parseEscape : List Char → Option (Char × List Char)
  | 'u' :: text => do
    let (unit, text) ← hex4? text
    if 0xD800 ≤ unit ∧ unit < 0xDC00 then
      match text with
      | '\\' :: 'u' :: text => do
        let (low, text) ← hex4? text
        if 0xDC00 ≤ low ∧ low < 0xE000 then
          some (Char.ofNat (0x10000 + (unit - 0xD800) * 0x400 + (low - 0xDC00)), text)
        else none
      | _ => none
    else if 0xDC00 ≤ unit ∧ unit < 0xE000 then none
    else some (Char.ofNat unit, text)
  | c :: text => (escape? c).map (·, text)
  | [] => none

def parseChars : Nat → List Char → Option (List Char × List Char)
  | 0, _ => none
  | _ + 1, [] => none
  | fuel + 1, c :: text =>
    if c = '"' then some ([], text)
    else if c = '\\' then do
      let (c, text) ← parseEscape text
      let (chars, text) ← parseChars fuel text
      some (c :: chars, text)
    else if c.toNat < 0x20 then none
    else do
      let (chars, text) ← parseChars fuel text
      some (c :: chars, text)

def parseString (text : List Char) : Option (List Char × List Char) :=
  parseChars (text.length + 1) text

/-! ## Values -/

def digits? (text : List Char) : Option (List Char × List Char) :=
  match text.span Char.isDigit with
  | ([], _) => none
  | taken => some taken

def fraction? : List Char → Option (List Char × List Char)
  | '.' :: text => (digits? text).map fun (taken, text) => ('.' :: taken, text)
  | text => some ([], text)

def exponent? : List Char → Option (List Char × List Char)
  | c :: text =>
    if c = 'e' ∨ c = 'E' then
      match text with
      | '+' :: text => (digits? text).map fun (taken, text) => (c :: '+' :: taken, text)
      | '-' :: text => (digits? text).map fun (taken, text) => (c :: '-' :: taken, text)
      | text => (digits? text).map fun (taken, text) => (c :: taken, text)
    else some ([], c :: text)
  | [] => some ([], [])

def unsigned? (text : List Char) : Option (List Char × List Char) := do
  let (whole, text) ← match text with
    | '0' :: text => some (['0'], text)
    | text => digits? text
  let (fraction, text) ← fraction? text
  let (exponent, text) ← exponent? text
  some (whole ++ fraction ++ exponent, text)

def number? : List Char → Option (List Char × List Char)
  | '-' :: text => (unsigned? text).map fun (taken, text) => ('-' :: taken, text)
  | text => unsigned? text

def scalar? : List Char → Option (Value × List Char)
  | 't' :: 'r' :: 'u' :: 'e' :: text => some (.bool true, text)
  | 'f' :: 'a' :: 'l' :: 's' :: 'e' :: text => some (.bool false, text)
  | 'n' :: 'u' :: 'l' :: 'l' :: text => some (.null, text)
  | text => (number? text).map fun (taken, text) => (.number taken, text)

mutual

def parseValue : Nat → List Char → Option (Value × List Char)
  | 0, _ => none
  | fuel + 1, text =>
    match skipWs text with
    | '"' :: text => (parseString text).map fun (chars, text) => (.string chars, text)
    | '{' :: text =>
      match skipWs text with
      | '}' :: text => some (.object [], text)
      | text => (parseMembers fuel text).map fun (members, text) => (.object members, text)
    | text => scalar? text

def parseMembers : Nat → List Char → Option (List (List Char × Value) × List Char)
  | 0, _ => none
  | fuel + 1, text =>
    match skipWs text with
    | '"' :: text => do
      let (name, text) ← parseString text
      match skipWs text with
      | ':' :: text => do
        let (value, text) ← parseValue fuel text
        match skipWs text with
        | '}' :: text => some ([(name, value)], text)
        | ',' :: text => do
          let (members, text) ← parseMembers fuel text
          some ((name, value) :: members, text)
        | _ => none
      | _ => none
    | _ => none

end

def parse (text : List Char) : Option Value := do
  let (value, rest) ← parseValue (text.length + 1) text
  if skipWs rest = [] then some value else none

/-! ## Objects of quoted strings -/

def Quotes (quote : List Char → List Char) : Prop :=
  ∀ chars rest, parseString (quote chars ++ '"' :: rest) = some (chars, rest)

section Objects

variable (quote : List Char → List Char)

def member (m : List Char × List Char) : List Char :=
  '"' :: quote m.1 ++ '"' :: ':' :: '"' :: quote m.2 ++ ['"']

def members : List (List Char × List Char) → List Char
  | [] => []
  | [m] => member quote m
  | m :: ms => member quote m ++ ',' :: members ms

def object (ms : List (List Char × List Char)) : List Char := '{' :: members quote ms ++ ['}']

variable {quote}

theorem members_cons_cons (m m' : List Char × List Char) (ms : List (List Char × List Char)) :
    members quote (m :: m' :: ms) = member quote m ++ ',' :: members quote (m' :: ms) := rfl

theorem parseMembers_members (quotes : Quotes quote) {ms : List (List Char × List Char)}
    (some_member : ms ≠ []) {fuel : Nat} (enough : ms.length + 1 ≤ fuel) (rest : List Char) :
    parseMembers fuel (members quote ms ++ '}' :: rest) =
      some (ms.map fun m => (m.1, .string m.2), rest) := by
  induction ms generalizing fuel with
  | nil => contradiction
  | cons m ms ih =>
    obtain ⟨fuel, rfl⟩ : ∃ f, fuel = f + 2 := ⟨fuel - 2, by simp at enough; omega⟩
    have value (after : List Char) :
        parseValue (fuel + 1) ('"' :: quote m.2 ++ '"' :: after) = some (.string m.2, after) := by
      change (parseString (quote m.2 ++ '"' :: after)).map _ = _
      rw [quotes, Option.map_some]
    have first (after : List Char) :
        parseMembers (fuel + 2) (member quote m ++ after) =
          (match skipWs after with
            | '}' :: text => some ([(m.1, .string m.2)], text)
            | ',' :: text => do
              let (members, text) ← parseMembers (fuel + 1) text
              some ((m.1, .string m.2) :: members, text)
            | _ => none) := by
      have name := quotes m.1 (':' :: '"' :: quote m.2 ++ '"' :: after)
      have text : member quote m ++ after =
          '"' :: (quote m.1 ++ '"' :: (':' :: '"' :: quote m.2 ++ '"' :: after)) := by
        simp [member]
      rw [text]
      change (parseString _ >>= fun r => _) = _
      rw [name]
      change (parseValue (fuel + 1) ('"' :: quote m.2 ++ '"' :: after) >>= fun r => _) = _
      rw [value]
      rfl
    cases ms with
    | nil => exact first ('}' :: rest)
    | cons m' ms =>
      have later := ih (by simp) (show _ ≤ fuel + 1 by simpa using enough)
      rw [members_cons_cons, List.append_assoc, first]
      change (parseMembers (fuel + 1) (members quote (m' :: ms) ++ '}' :: rest) >>= fun r => _) = _
      rw [later]
      rfl

theorem length_members (ms : List (List Char × List Char)) :
    ms.length ≤ (members quote ms).length := by
  induction ms with
  | nil => simp
  | cons m ms ih =>
    cases ms with
    | nil => simp [members, member]
    | cons =>
      rw [members_cons_cons]
      simp only [List.length_append, List.length_cons] at ih ⊢
      omega

theorem parse_object (quotes : Quotes quote) {ms : List (List Char × List Char)}
    (some_member : ms ≠ []) :
    parse (object quote ms) = some (.object (ms.map fun m => (m.1, .string m.2))) := by
  have enough : ms.length + 1 ≤ (object quote ms).length := by
    have := @length_members quote ms
    simp only [object, List.length_cons, List.length_append, List.length_nil]
    omega
  have start : ∃ inner, members quote ms ++ ['}'] = '"' :: inner := by
    match ms, some_member with
    | [m], _ => exact ⟨_, rfl⟩
    | m :: m' :: ms, _ => exact ⟨_, rfl⟩
  obtain ⟨inner, text⟩ := start
  have read := parseMembers_members quotes some_member enough []
  have value : parseValue ((object quote ms).length + 1) (object quote ms) =
      some (.object (ms.map fun m => (m.1, .string m.2)), []) := by
    have opened : parseValue ((object quote ms).length + 1) ('{' :: '"' :: inner) =
        (parseMembers (object quote ms).length ('"' :: inner)).map
          fun (members, text) => (.object members, text) := rfl
    rw [← text, read] at opened
    exact opened
  rw [parse, value]
  rfl

end Objects

end Json
