import Krafka.Http.Request
import Krafka.Library.Streams
import Krafka.Record

/-! Reading a response: its status line, its headers, and the body in one of three framings, from
a peer that may send anything, in any pieces. A session keeps count of the lines read and of the
largest buffer made for a body. -/

namespace Krafka.Http

def maxLineBytes : Nat := 8 * 1024
def maxHeaders : Nat := 100
def maxTrailers : Nat := 32
def usizeSpace : Nat := 2 ^ 64

structure HttpResponse where
  status : Nat
  body : Bytes
  deriving DecidableEq

structure Session where
  pieces : List Bytes
  failure : Option String := none
  lines : Nat := 0
  allocated : Nat := 0
  /-- The library's text for bytes that are not UTF-8. -/
  notUtf8 : String

abbrev Reading := ExceptT KrafkaError (StateM Session)

def newline (b : UInt8) : Bool := b == 10

def lineOf (what : String) (failure : Option String) (notUtf8 : String) (taken : Bytes) :
    Result (Nat × Text) :=
  let failure := if Streams.complete newline (maxLineBytes + 1) taken then none else failure
  match failure, Texts.fromUtf8? taken with
  | some e, _ => .error (.auth s!"reading {what} failed: {e}")
  | none, none => .error (.auth s!"reading {what} failed: {notUtf8}")
  | none, some line =>
    if maxLineBytes < taken.length then
      .error (.auth s!"{what} exceeds the {maxLineBytes}-byte line limit")
    else .ok (taken.length, line)

def readLineBounded (what : String) : Reading (Nat × Text) := fun s =>
  let read := Streams.readUntil newline (maxLineBytes + 1) s.pieces
  (lineOf what s.failure s.notUtf8 read.1, { s with pieces := read.2, lines := s.lines + 1 })

def readExact (what : String) (n : Nat) : Reading Bytes := fun s =>
  match Streams.readExact n s.pieces with
  | some (taken, pieces) => (.ok taken, { s with pieces })
  | none =>
    let e := s.failure.getD "early eof"
    (.error (.auth s!"reading {what} failed: {e}"), { s with pieces := [] })

def lift {α : Type} (r : Result α) : Reading α := fun s => (r, s)

/-! ## Status line and headers -/

def isWhitespace (c : Char) : Bool :=
  (9 ≤ c.toNat && c.toNat ≤ 13) || (0x2000 ≤ c.toNat && c.toNat ≤ 0x200A) ||
    [0x20, 0x85, 0xA0, 0x1680, 0x2028, 0x2029, 0x202F, 0x205F, 0x3000].contains c.toNat

def trimEnd (text : Text) : Text := (text.reverse.dropWhile isWhitespace).reverse

def trim (text : Text) : Text := trimEnd (text.dropWhile isWhitespace)

def parseStatusLine (line : Text) : Result Nat :=
  let code := match Texts.splitOnce ' ' line with
    | none => []
    | some (_, rest) => ((Texts.splitOnce ' ' rest).map (·.1)).getD rest
  match Texts.parse? 10 (2 ^ 16) code with
  | some status => .ok status
  | none =>
    let quoted := (String.ofList (trimEnd line)).quote
    .error (.auth s!"malformed HTTP status line: {quoted}")

structure Framing where
  contentLength : Option Nat := none
  isChunked : Bool := false

def Framing.header (f : Framing) (line : Text) : Framing :=
  let lower := line.map Char.toLower
  match "content-length:".toList.isPrefixOf? lower with
  | some rest => { f with contentLength := Texts.parse? 10 usizeSpace (trim rest) }
  | none =>
    if "transfer-encoding:".toList <+: lower ∧ "chunked".toList <:+: lower then
      { f with isChunked := true }
    else f

def endsBlock (n : Nat) (line : Text) : Bool := n == 0 || line == crlf || line == ['\n']

def readHeaders : Nat → Framing → Reading Framing
  | left, f => do
    let (n, line) ← readLineBounded "HTTP header line"
    if endsBlock n line then pure f
    else
      match left with
      | 0 => throw (.auth s!"response contains more than {maxHeaders} headers")
      | left + 1 => readHeaders left (f.header line)

/-! ## Bodies -/

structure Buffer where
  bytes : Bytes
  capacity : Nat
  fits : bytes.length ≤ capacity

namespace Buffer

def empty : Buffer := ⟨[], 0, by simp⟩

def grownCapacity (buf : Buffer) (additional limit : Nat) : Nat :=
  let len := buf.bytes.length + additional
  if buf.capacity < len then max len (min (min (buf.capacity * 2) (usizeSpace - 1)) limit)
  else buf.capacity

theorem le_grownCapacity (buf : Buffer) (additional limit : Nat) :
    buf.bytes.length + additional ≤ buf.grownCapacity additional limit := by
  unfold grownCapacity
  dsimp only
  split
  · exact le_max_left _ _
  · omega

theorem grownCapacity_le {buf : Buffer} {additional limit : Nat} (held : buf.capacity ≤ limit)
    (wanted : buf.bytes.length + additional ≤ limit) :
    buf.grownCapacity additional limit ≤ limit := by
  unfold grownCapacity
  dsimp only
  split
  · exact max_le wanted (min_le_right _ _)
  · exact held

def append (buf : Buffer) (data : Bytes) (limit : Nat) : Buffer where
  bytes := buf.bytes ++ data
  capacity := buf.grownCapacity data.length limit
  fits := by simpa using buf.le_grownCapacity data.length limit

end Buffer

def allocate (capacity : Nat) : Reading Unit := fun s =>
  (.ok (), { s with allocated := max s.allocated capacity })

/-- A length past `usize` is a panic. -/
def growZeroizing (buf : Buffer) (additional limit : Nat) : Reading Unit :=
  if usizeSpace ≤ buf.bytes.length + additional then
    throw (.illegalState "attempt to add with overflow")
  else allocate (buf.grownCapacity additional limit)

def chunkSize (limit : Nat) (body : Buffer) (line : Text) : Result Nat :=
  let hex := trim (line.takeWhile (· ≠ ';'))
  match Texts.parse? 16 usizeSpace hex with
  | none =>
    let quoted := (String.ofList hex).quote
    .error (.auth s!"invalid chunk size: {quoted}")
  | some 0 => .ok 0
  | some size =>
    if limit < min (body.bytes.length + size) (usizeSpace - 1) then
      .error (.auth s!"chunked response body exceeds {limit}-byte limit")
    else .ok size

def readChunk (limit : Nat) (body : Buffer) : Reading (Option Buffer) := do
  let (_, line) ← readLineBounded "chunk size line"
  let size ← lift (chunkSize limit body line)
  if size = 0 then pure none
  else do
    growZeroizing body size limit
    let data ← readExact "chunk data" size
    let _ ← readExact "chunk CRLF" 2
    pure (some (body.append data limit))

theorem bind_apply {α β : Type} (m : Reading α) (f : α → Reading β) (s : Session) :
    (m >>= f) s = match m s with
      | (.ok a, s') => f a s'
      | (.error e, s') => (.error e, s') := by
  change (match m s with
      | (a, s') => (ExceptT.bindCont f a : StateM Session _) s') = _
  rcases m s with ⟨a | a, s'⟩ <;> rfl

variable {s s' : Session}

theorem bind_eq_ok {α β : Type} {m : Reading α} {f : α → Reading β} {b : β}
    (ok : (m >>= f) s = (.ok b, s')) :
    ∃ a between, m s = (.ok a, between) ∧ f a between = (.ok b, s') := by
  rw [bind_apply] at ok
  split at ok
  next a between eq => exact ⟨a, between, eq, ok⟩
  · cases ok

theorem readExact_eq_ok {what : String} {n : Nat} {taken : Bytes}
    (read : readExact what n s = (.ok taken, s')) : taken.length = n := by
  unfold readExact at read
  split at read
  next found =>
    cases read
    exact Streams.length_of_readExact found
  · cases read

variable {limit : Nat} {body : Buffer}

theorem chunkSize_room {line : Text} {size : Nat}
    (given : chunkSize limit body line = .ok size) (more : size ≠ 0)
    (fits : body.bytes.length + size < usizeSpace) : body.bytes.length + size ≤ limit := by
  unfold chunkSize at given
  dsimp only at given
  split at given
  · cases given
  · exact absurd (Except.ok.inj given).symm more
  · split at given
    · cases given
    next room =>
      cases given
      omega

theorem growZeroizing_eq_ok {buf : Buffer} {additional : Nat} {u : Unit}
    (grown : growZeroizing buf additional limit s = (.ok u, s')) :
    buf.bytes.length + additional < usizeSpace := by
  unfold growZeroizing at grown
  split at grown
  · cases grown
  next fits => exact Nat.lt_of_not_le fits

theorem readChunk_grows {body' : Buffer} (read : readChunk limit body s = (.ok (some body'), s')) :
    body.bytes.length < body'.bytes.length ∧ body'.bytes.length ≤ limit := by
  obtain ⟨⟨n, line⟩, s₁, -, read⟩ := bind_eq_ok read
  obtain ⟨size, s₂, given, read⟩ := bind_eq_ok read
  split at read
  · cases read
  next more =>
    obtain ⟨_, s₃, grown, read⟩ := bind_eq_ok read
    obtain ⟨data, s₄, taken, read⟩ := bind_eq_ok read
    obtain ⟨_, s₅, -, read⟩ := bind_eq_ok read
    cases read
    have length := readExact_eq_ok taken
    have room := chunkSize_room (Prod.mk.inj given).1 more (growZeroizing_eq_ok grown)
    simp only [Buffer.append, List.length_append]
    omega

def readChunks (limit : Nat) (body : Buffer) (s : Session) : Result Buffer × Session :=
  match _read : readChunk limit body s with
  | (.error e, s') => (.error e, s')
  | (.ok none, s') => (.ok body, s')
  | (.ok (some body'), s') => readChunks limit body' s'
termination_by limit - body.bytes.length
decreasing_by
  have := readChunk_grows _read
  omega

def readTrailers : Nat → Session → Session
  | 0, s => s
  | left + 1, s =>
    match readLineBounded "chunked trailer line" s with
    | (.error _, s') => s'
    | (.ok (n, line), s') => if endsBlock n line then s' else readTrailers left s'

def readChunkedBody (limit : Nat) : Reading Bytes := do
  let body ← readChunks limit .empty
  fun s => (.ok body.bytes, readTrailers maxTrailers s)

def readCounted (limit n : Nat) : Reading Bytes :=
  if limit < n then throw (.auth s!"response Content-Length {n} exceeds {limit}-byte limit")
  else do
    allocate n
    readExact "response body" n

def readToEnd (limit : Nat) : List Bytes → Buffer → Reading Bytes
  | [], body => fun s =>
    match s.failure with
    | some e => (.error (.auth s!"reading response body failed: {e}"), s)
    | none => (.ok body.bytes, s)
  | block :: blocks, body =>
    if block = [] then readToEnd limit blocks body
    else if limit < body.bytes.length + block.length then
      throw (.auth s!"response body exceeds {limit}-byte limit")
    else do
      growZeroizing body block.length limit
      readToEnd limit blocks (body.append block limit)

def readBody (limit : Nat) (f : Framing) : Reading Bytes :=
  if f.isChunked then readChunkedBody limit
  else
    match f.contentLength with
    | some n => readCounted limit n
    | none => fun s => readToEnd limit s.pieces .empty s

def readResponse (limit : Nat) : Reading HttpResponse := do
  let (_, line) ← readLineBounded "HTTP status line"
  let status ← lift (parseStatusLine line)
  let f ← readHeaders maxHeaders {}
  let body ← readBody limit f
  pure { status, body }

/-! ## Bounds, whatever the peer sends -/

def Bounded {α : Type} (limit lines : Nat) (post : α → Prop) (m : Reading α) : Prop :=
  ∀ s, (m s).2.lines ≤ s.lines + lines ∧ (m s).2.allocated ≤ max s.allocated limit ∧
    ∀ a, (m s).1 = .ok a → post a

section Bounded

variable {α β : Type} {limit lines more : Nat} {post : α → Prop} {post' : β → Prop}

theorem Bounded.bind {m : Reading α} {f : α → Reading β} (first : Bounded limit lines post m)
    (next : ∀ a, post a → Bounded limit more post' (f a)) :
    Bounded limit (lines + more) post' (m >>= f) := by
  intro s
  obtain ⟨few, small, result⟩ := first s
  rw [bind_apply]
  rcases eq : m s with ⟨e | a, s'⟩ <;> rw [eq] at few small result
  · exact ⟨by dsimp only at few ⊢; omega, small, nofun⟩
  · obtain ⟨few', small', result'⟩ := next a (result a rfl) s'
    dsimp only at few small ⊢
    exact ⟨by omega, small'.trans (max_le small (le_max_right _ _)), result'⟩

theorem Bounded.andThen {m : Reading α} {f : α → Reading β} (first : Bounded limit lines post m)
    (next : ∀ a, post a → Bounded limit 0 post' (f a)) : Bounded limit lines post' (m >>= f) :=
  first.bind next

theorem Bounded.mono {m : Reading α} (bounded : Bounded limit lines post m) (le : lines ≤ more)
    {post' : α → Prop} (weaker : ∀ a, post a → post' a) : Bounded limit more post' m := fun s =>
  ⟨(bounded s).1.trans (Nat.add_le_add_left le _), (bounded s).2.1,
    fun a ok => weaker a ((bounded s).2.2 a ok)⟩

theorem bounded_lift {r : Result α} (holds : ∀ a, r = .ok a → post a) :
    Bounded limit 0 post (lift r) := fun _ => ⟨le_rfl, le_max_left _ _, holds⟩

theorem bounded_pure {a : α} (holds : post a) : Bounded limit 0 post (pure a : Reading α) :=
  fun _ => ⟨le_rfl, le_max_left _ _, by rintro _ ⟨⟩; exact holds⟩

theorem bounded_throw (e : KrafkaError) : Bounded limit 0 post (throw e : Reading α) :=
  fun _ => ⟨le_rfl, le_max_left _ _, nofun⟩

theorem bounded_line (what : String) : Bounded limit 1 (fun _ => True) (readLineBounded what) :=
  fun _ => ⟨le_rfl, le_max_left _ _, fun _ _ => trivial⟩

theorem bounded_readExact (what : String) (n : Nat) :
    Bounded limit 0 (fun taken => taken.length = n) (readExact what n) := by
  intro s
  refine ⟨?_, ?_, fun taken ok => ?_⟩
  case refine_3 => exact readExact_eq_ok (Prod.ext ok rfl : readExact what n s = (.ok taken, _))
  all_goals unfold readExact; split <;> simp

theorem bounded_allocate {capacity : Nat} (small : capacity ≤ limit) :
    Bounded limit 0 (fun _ => True) (allocate capacity) :=
  fun _ => ⟨le_rfl, max_le_max le_rfl small, fun _ _ => trivial⟩

theorem bounded_grow {buf : Buffer} {additional : Nat} (held : buf.capacity ≤ limit)
    (wanted : buf.bytes.length + additional < usizeSpace →
      buf.bytes.length + additional ≤ limit) :
    Bounded limit 0 (fun _ => buf.bytes.length + additional ≤ limit)
      (growZeroizing buf additional limit) := by
  unfold growZeroizing
  split
  · exact bounded_throw _
  next fits =>
    have room := wanted (Nat.lt_of_not_le fits)
    exact (bounded_allocate (Buffer.grownCapacity_le held room)).mono le_rfl fun _ _ => room

end Bounded

theorem bounded_readHeaders (limit left : Nat) (f : Framing) :
    Bounded limit (left + 1) (fun _ => True) (readHeaders left f) := by
  induction left generalizing f with
  | zero =>
    rw [readHeaders]
    refine (bounded_line _).andThen fun ⟨n, line⟩ _ => ?_
    dsimp only
    split
    · exact bounded_pure trivial
    · exact bounded_throw _
  | succ left ih =>
    rw [readHeaders]
    rw [Nat.add_comm (left + 1) 1]
    refine (bounded_line _).bind fun ⟨n, line⟩ _ => ?_
    dsimp only
    split
    · exact (bounded_pure trivial).mono (Nat.zero_le _) fun _ => id
    · exact ih _

def Holds (limit : Nat) (body : Buffer) : Prop :=
  body.bytes.length ≤ limit ∧ body.capacity ≤ limit

theorem holds_append (held : Holds limit body) {data : Bytes}
    (room : body.bytes.length + data.length ≤ limit) : Holds limit (body.append data limit) :=
  ⟨by simpa [Buffer.append] using room, Buffer.grownCapacity_le held.2 room⟩

theorem bounded_readChunk (held : Holds limit body) :
    Bounded limit 1 (fun next => ∀ body', next = some body' → Holds limit body')
      (readChunk limit body) := by
  unfold readChunk
  refine (bounded_line _).andThen fun line _ => ?_
  refine (bounded_lift fun _ => chunkSize_room).andThen fun size room => ?_
  split
  · exact bounded_pure nofun
  next some_bytes =>
    refine (bounded_grow held.2 (room some_bytes)).andThen fun _ room => ?_
    refine (bounded_readExact _ _).andThen fun data length => ?_
    refine (bounded_readExact _ _).andThen fun _ _ => bounded_pure ?_
    rintro _ ⟨⟩
    exact holds_append held (length ▸ room)

theorem bounded_readChunks (body : Buffer) (held : Holds limit body) :
    Bounded limit (limit - body.bytes.length + 1) (Holds limit) (readChunks limit body) := by
  intro s
  fun_induction readChunks limit body s with
  | case1 body s e s' read =>
    have bounded := bounded_readChunk held s
    rw [read] at bounded
    exact ⟨bounded.1.trans (by omega), bounded.2.1, nofun⟩
  | case2 body s s' read =>
    have bounded := bounded_readChunk held s
    rw [read] at bounded
    exact ⟨bounded.1.trans (by omega), bounded.2.1, by rintro _ ⟨⟩; exact held⟩
  | case3 body s body' s' read ih =>
    have bounded := bounded_readChunk held s
    rw [read] at bounded
    have grows := readChunk_grows read
    obtain ⟨few, small, result⟩ := ih (bounded.2.2 _ rfl _ rfl)
    have := bounded.1
    dsimp only at this
    exact ⟨by omega, small.trans (max_le bounded.2.1 (le_max_right _ _)), result⟩

theorem readTrailers_lines (left : Nat) (s : Session) :
    (readTrailers left s).lines ≤ s.lines + left ∧
      (readTrailers left s).allocated = s.allocated := by
  induction left generalizing s with
  | zero => exact ⟨le_rfl, rfl⟩
  | succ left ih =>
    rw [readTrailers]
    have one : (readLineBounded "chunked trailer line" s).2.lines = s.lines + 1 ∧
        (readLineBounded "chunked trailer line" s).2.allocated = s.allocated := ⟨rfl, rfl⟩
    rcases eq : readLineBounded "chunked trailer line" s with ⟨e | ⟨n, line⟩, s'⟩ <;>
      rw [eq] at one
    · exact ⟨by dsimp only at one ⊢; omega, one.2⟩
    · dsimp only at one ⊢
      split
      · exact ⟨by omega, one.2⟩
      · exact ⟨(ih s').1.trans (by omega), (ih s').2.trans one.2⟩

theorem bounded_readChunkedBody (limit : Nat) :
    Bounded limit (limit + 1 + maxTrailers) (fun body => body.length ≤ limit)
      (readChunkedBody limit) := by
  refine ((bounded_readChunks .empty ⟨Nat.zero_le _, Nat.zero_le _⟩).bind fun body held s => ?_)
  obtain ⟨few, same⟩ := readTrailers_lines maxTrailers s
  exact ⟨few, same.trans_le (le_max_left _ _), by rintro _ ⟨⟩; exact held.1⟩

theorem bounded_readCounted (limit n : Nat) :
    Bounded limit 0 (fun body => body.length ≤ limit) (readCounted limit n) := by
  unfold readCounted
  split
  · exact bounded_throw _
  next small =>
    refine (bounded_allocate (Nat.le_of_not_lt small)).andThen fun _ _ => ?_
    exact (bounded_readExact _ n).mono le_rfl fun taken length => length.le.trans (by omega)

theorem bounded_readToEnd (blocks : List Bytes) (held : Holds limit body) :
    Bounded limit 0 (fun body => body.length ≤ limit) (readToEnd limit blocks body) := by
  induction blocks generalizing body with
  | nil =>
    intro s
    rw [readToEnd]
    dsimp only
    split
    · exact ⟨le_rfl, le_max_left _ _, nofun⟩
    · exact ⟨le_rfl, le_max_left _ _, by rintro _ ⟨⟩; exact held.1⟩
  | cons block blocks ih =>
    rw [readToEnd]
    split
    · exact ih held
    split
    · exact bounded_throw _
    next small =>
      refine (bounded_grow held.2 fun _ => Nat.le_of_not_lt small).andThen fun _ room => ?_
      exact ih (holds_append held room)

theorem bounded_readBody (limit : Nat) (f : Framing) :
    Bounded limit (limit + 1 + maxTrailers) (fun body => body.length ≤ limit)
      (readBody limit f) := by
  unfold readBody
  split
  · exact bounded_readChunkedBody limit
  split
  · exact (bounded_readCounted limit _).mono (Nat.zero_le _) fun _ => id
  · intro s
    exact (bounded_readToEnd s.pieces ⟨Nat.zero_le _, Nat.zero_le _⟩).mono (Nat.zero_le _)
      (fun _ => id) s

theorem bounded_readResponse (limit : Nat) :
    Bounded limit (1 + (maxHeaders + 1 + (limit + 1 + maxTrailers)))
      (fun response => response.body.length ≤ limit) (readResponse limit) := by
  refine (bounded_line _).bind fun line _ => ?_
  rw [← Nat.zero_add (maxHeaders + 1 + _)]
  refine (bounded_lift fun _ _ => trivial).bind fun status _ => ?_
  refine (bounded_readHeaders limit maxHeaders {}).bind fun f _ => ?_
  exact (bounded_readBody limit f).andThen fun body small => bounded_pure small

end Krafka.Http
