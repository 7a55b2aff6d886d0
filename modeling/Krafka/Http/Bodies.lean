import Krafka.Http.Response

/-! Responses as a server writes them, and that each is read back as its status and its body,
however the bytes are cut. -/

namespace Krafka.Http

open List Texts

/-! ## Readings of what is written -/

def Gives {α : Type} (m : Reading α) (bytes : Bytes) (a : α) : Prop :=
  ∀ (s : Session) (rest : Bytes), s.pieces.flatten = bytes ++ rest →
    ∃ s', m s = (.ok a, s') ∧ s'.pieces.flatten = rest ∧ s'.failure = s.failure

section Gives

variable {α β : Type} {m : Reading α} {f : α → Reading β} {bytes bytes' : Bytes} {a : α} {b : β}

theorem Gives.bind (first : Gives m bytes a) (next : Gives (f a) bytes' b) :
    Gives (m >>= f) (bytes ++ bytes') b := by
  intro s rest whole
  rw [append_assoc] at whole
  obtain ⟨s₁, read, left, failure⟩ := first s _ whole
  obtain ⟨s₂, read', left', failure'⟩ := next s₁ rest left
  refine ⟨s₂, ?_, left', failure'.trans failure⟩
  rw [bind_apply, read]
  exact read'

theorem Gives.pass (first : Gives m [] a) (next : Gives (f a) bytes b) : Gives (m >>= f) bytes b :=
  first.bind next

theorem gives_lift {r : Result α} (ok : r = .ok a) : Gives (lift r) [] a :=
  fun s _ whole => ⟨s, by rw [lift, ok], whole, rfl⟩

theorem gives_pure : Gives (pure a : Reading α) [] a := fun s _ whole => ⟨s, rfl, whole, rfl⟩

theorem gives_allocate (capacity : Nat) : Gives (allocate capacity) [] () :=
  fun _ _ whole => ⟨_, rfl, whole, rfl⟩

theorem gives_readExact (what : String) (bytes : Bytes) :
    Gives (readExact what bytes.length) bytes bytes := by
  intro s rest whole
  obtain ⟨left, found, eq⟩ := Streams.readExact_append whole
  exact ⟨{ s with pieces := left }, by simp only [readExact, found], eq, rfl⟩

end Gives

def wire (line : Text) : Bytes := utf8 (line ++ crlf)

theorem length_wire_ne_zero (line : Text) : (wire line).length ≠ 0 := by
  have ending : (utf8 crlf).length = 2 := by decide
  rw [wire, utf8, flatMap_append, length_append]
  change _ + (utf8 crlf).length ≠ 0
  omega

structure Fair (line : Text) : Prop where
  single : '\n' ∉ line
  short : (wire line).length ≤ maxLineBytes

theorem gives_line {line : Text} (fair : Fair line) (what : String) :
    Gives (readLineBounded what) (wire line) ((wire line).length, line ++ crlf) := by
  have ends : wire line = utf8 (line ++ ['\r']) ++ [10] := by
    simp [wire, crlf, utf8, flatMap_append]
    decide
  have goes : ∀ b ∈ utf8 (line ++ ['\r']), newline b = false := by
    intro b held
    have apart : UInt8.ofNat '\n'.toNat ∉ utf8 (line ++ ['\r']) :=
      notMem_utf8 (by decide) (by simpa using fair.single)
    simp only [newline, beq_eq_false_iff_ne]
    rintro rfl
    exact apart held
  intro s rest whole
  have short := fair.short
  rw [ends, append_assoc] at whole
  rw [ends, length_append] at short
  obtain ⟨taken, left⟩ := Streams.readUntil_line whole goes rfl
    (Nat.lt_succ_of_le (Nat.le_of_succ_le short))
  rw [← ends] at taken
  refine ⟨{ s with
    pieces := (Streams.readUntil newline (maxLineBytes + 1) s.pieces).2, lines := s.lines + 1 },
    ?_, left, rfl⟩
  have done : Streams.complete newline (maxLineBytes + 1) (wire line) := by
    simp [Streams.complete, ends, newline]
  have text : fromUtf8? (wire line) = some (line ++ crlf) := fromUtf8?_utf8 _
  simp only [readLineBounded, taken, lineOf, done, if_true, text, Nat.not_lt.mpr fair.short,
    if_false]

/-! ## Numerals -/

structure Numeral (base n : Nat) where
  text : Text
  some_digit : text ≠ []
  reads : value? base text = some n

variable {base n : Nat}

theorem digit_of_value {digits : Text} {start : Nat}
    (reads : value? base digits start = some n) :
    ∀ c ∈ digits, (digit? base c).isSome := by
  induction digits generalizing start with
  | nil => simp
  | cons c digits ih =>
    obtain ⟨d, here, rest⟩ := value?_cons.mp reads
    simp only [mem_cons, forall_eq_or_imp]
    exact ⟨by simp [here], ih rest⟩

variable {c : Char}

theorem Numeral.notMem (numeral : Numeral base n)
    (other : digit? base c = none) : c ∉ numeral.text := by
  intro held
  simpa [other] using digit_of_value numeral.reads c held

theorem Numeral.parse {bound : Nat} (numeral : Numeral base n) (positive : 0 < base)
    (small : n < bound) : parse? base bound numeral.text = some n :=
  parse?_eq_some positive numeral.some_digit numeral.reads small

theorem not_whitespace (digit : (digit? base c).isSome) : isWhitespace c = false := by
  have range : 48 ≤ c.toNat ∧ c.toNat ≤ 122 := by
    have val {a b : Char} (le : a ≤ b) : a.toNat ≤ b.toNat := le
    simp only [digit?, Option.isSome_ite] at digit
    split at digit
    next h => exact ⟨val h.1, (val h.2).trans (by decide)⟩
    split at digit
    next h => exact ⟨le_trans (by decide) (val h.1), (val h.2).trans (by decide)⟩
    split at digit
    next h => exact ⟨le_trans (by decide) (val h.1), (val h.2).trans (by decide)⟩
    · exact absurd digit (lt_irrefl _)
  simp [isWhitespace]
  omega

theorem trim_eq {left mid right : Text} (before : ∀ c ∈ left, isWhitespace c)
    (ink : ∀ c ∈ mid, isWhitespace c = false) (after : ∀ c ∈ right, isWhitespace c) :
    trim (left ++ mid ++ right) = mid := by
  have keeps {l : Text} (ink : ∀ c ∈ l, isWhitespace c = false) : l.dropWhile isWhitespace = l := by
    cases l with
    | nil => rfl
    | cons c => simp [ink c (by simp)]
  unfold trim trimEnd
  rw [append_assoc, dropWhile_append_of_pos before]
  cases mid with
  | nil =>
    have gone : (right ++ []).dropWhile isWhitespace = [] := dropWhile_append_of_pos after
    rw [append_nil] at gone
    simp [gone]
  | cons c =>
    rw [cons_append, dropWhile_cons_of_neg (by simp [ink c (by simp)]),
      ← cons_append, reverse_append, dropWhile_append_of_pos (by simpa using after),
      keeps fun d held => ink d (mem_reverse.mp held), reverse_reverse]

/-! ## Status line and headers -/

structure StatusLine where
  version : Text
  status : Nat
  code : Numeral 10 status
  reason : Text
  word : ' ' ∉ version
  small : status < 2 ^ 16
  fair : Fair (version ++ ' ' :: code.text ++ ' ' :: reason)

namespace StatusLine

def line (l : StatusLine) : Text := l.version ++ ' ' :: l.code.text ++ ' ' :: l.reason

theorem parse (l : StatusLine) : parseStatusLine (l.line ++ crlf) = .ok l.status := by
  have first : splitOnce ' ' (l.line ++ crlf) =
      some (l.version, l.code.text ++ ' ' :: (l.reason ++ crlf)) := by
    simpa [line] using
      splitOnce_append l.word (l.code.text ++ ' ' :: (l.reason ++ crlf))
  have second := splitOnce_append (l.code.notMem (c := ' ') (by decide)) (l.reason ++ crlf)
  simp only [parseStatusLine, first, second, Option.map_some, Option.getD_some,
    l.code.parse (by decide) l.small]

end StatusLine

structure Header where
  name : Text
  value : Text
  plain : ':' ∉ name
  fair : Fair (name ++ ':' :: value)

namespace Header

def line (h : Header) : Text := h.name ++ ':' :: h.value

def key (h : Header) : Text := h.name.map Char.toLower

def isFraming (h : Header) : Bool :=
  h.key == "content-length".toList || h.key == "transfer-encoding".toList

theorem notEnd (h : Header) (n : Nat) (some_bytes : n ≠ 0) : endsBlock n (h.line ++ crlf) = false := by
  have colon : ':' ∈ h.line ++ crlf := by simp [line]
  have first : h.line ++ crlf ≠ crlf := fun same => absurd (same ▸ colon) (by decide)
  have second : h.line ++ crlf ≠ ['\n'] := fun same => absurd (same ▸ colon) (by decide)
  simp [endsBlock, some_bytes, first, second]

theorem toLower_eq_colon {c : Char} (lower : c.toLower = ':') : c = ':' := by
  unfold Char.toLower at lower
  split at lower
  next upper =>
    have value : c.val + ('a'.val - 'A'.val) = ':'.val := congrArg Char.val lower
    grind
  · exact lower

theorem lower_line (h : Header) :
    (h.line ++ crlf).map Char.toLower = h.key ++ ':' :: (h.value.map Char.toLower ++ crlf) := by
  have colon : ':'.toLower = ':' := by decide
  have ending : crlf.map Char.toLower = crlf := by decide
  simp [line, key, colon, ending]

theorem prefix_iff (h : Header) {name rest : Text} (plain : ':' ∉ name) :
    name ++ [':'] ++ rest = (h.line ++ crlf).map Char.toLower ↔
      h.key = name ∧ rest = h.value.map Char.toLower ++ crlf := by
  have plain' : ':' ∉ h.key := by
    intro held
    obtain ⟨c, there, lower⟩ := mem_map.mp held
    exact h.plain (toLower_eq_colon lower ▸ there)
  rw [lower_line, append_assoc]
  constructor
  · intro same
    have cut := congrArg (splitOnce ':') same
    rw [singleton_append, splitOnce_append plain, splitOnce_append plain',
      Option.some.injEq, Prod.mk.injEq] at cut
    exact ⟨cut.1.symm, cut.2⟩
  · rintro ⟨rfl, rfl⟩
    rfl

end Header

def Framing.read (f : Framing) (h : Header) : Framing := f.header (h.line ++ crlf)

theorem Framing.read_eq (f : Framing) (h : Header) :
    f.read h =
      if h.key = "content-length".toList then
        { f with contentLength :=
            parse? 10 usizeSpace (trim (h.value.map Char.toLower ++ crlf)) }
      else if h.key = "transfer-encoding".toList ∧
          "chunked".toList <:+: (h.line ++ crlf).map Char.toLower then
        { f with isChunked := true }
      else f := by
  have length : "content-length:".toList = "content-length".toList ++ [':'] := by decide
  have encoding : "transfer-encoding:".toList = "transfer-encoding".toList ++ [':'] := by decide
  unfold Framing.read Framing.header
  dsimp only
  rw [length, encoding]
  split
  next rest cut =>
    obtain ⟨key, rfl⟩ :=
      (h.prefix_iff (by decide)).mp (List.isPrefixOf?_eq_some_iff_append_eq.mp cut)
    rw [if_pos key]
  next none_found =>
    have other : h.key ≠ "content-length".toList := fun key => by
      have found := List.isPrefixOf?_eq_some_iff_append_eq.mpr
        ((h.prefix_iff (by decide)).mpr ⟨key, rfl⟩)
      exact absurd (none_found.symm.trans found) (Option.some_ne_none _).symm
    have same : "transfer-encoding".toList ++ [':'] <+: (h.line ++ crlf).map Char.toLower ↔
        h.key = "transfer-encoding".toList :=
      ⟨fun ⟨rest, eq⟩ => ((h.prefix_iff (by decide)).mp eq).1,
        fun key => ⟨_, (h.prefix_iff (by decide)).mpr ⟨key, rfl⟩⟩⟩
    rw [if_neg other]
    simp only [same]

theorem foldl_read_filter (headers : List Header) (f : Framing) :
    headers.foldl Framing.read f = (headers.filter Header.isFraming).foldl Framing.read f := by
  induction headers generalizing f with
  | nil => rfl
  | cons h headers ih =>
    rw [foldl_cons, ih, filter_cons]
    split
    · rfl
    next other =>
      simp only [Header.isFraming, Bool.or_eq_true, beq_iff_eq, not_or] at other
      rw [Framing.read_eq, if_neg other.1, if_neg fun both => other.2 both.1]

theorem gives_readHeaders {headers : List Header} {left : Nat} (few : headers.length ≤ left)
    (f : Framing) :
    Gives (readHeaders left f) (headers.flatMap (fun h => wire h.line) ++ wire [])
      (headers.foldl Framing.read f) := by
  induction headers generalizing left f with
  | nil =>
    have fair : Fair [] := ⟨by simp, by decide⟩
    rw [readHeaders, flatMap_nil, nil_append, ← append_nil (wire [])]
    refine (gives_line fair _).bind ?_
    exact gives_pure
  | cons h headers ih =>
    cases left with
    | zero => simp at few
    | succ =>
      rw [readHeaders, flatMap_cons, append_assoc]
      refine (gives_line h.fair _).bind ?_
      have goes := h.notEnd _ (length_wire_ne_zero h.line)
      change Gives (if endsBlock (wire h.line).length (h.line ++ crlf) = true then _ else _) _ _
      rw [if_neg (by simp [goes])]
      exact ih (Nat.le_of_succ_le_succ few) _

/-! ## Chunks -/

structure SizeLine (n : Nat) where
  size : Numeral 16 n
  space : Text
  extension : Text
  blank : ∀ c ∈ space, c = ' ' ∨ c = '\t'
  started : extension = [] ∨ ∃ rest, extension = ';' :: rest
  fair : Fair (size.text ++ space ++ extension)

def SizeLine.line {n : Nat} (l : SizeLine n) : Text := l.size.text ++ l.space ++ l.extension

theorem whitespace_crlf : ∀ c ∈ crlf, isWhitespace c = true := all_eq_true.mp (by decide)

theorem whitespace_of_blank (blank : c = ' ' ∨ c = '\t') : isWhitespace c := by
  rcases blank with rfl | rfl <;> decide

theorem SizeLine.hex (l : SizeLine n) :
    trim ((l.line ++ crlf).takeWhile (· ≠ ';')) = l.size.text := by
  have plain : ∀ c ∈ l.size.text ++ l.space, decide (c ≠ ';') = true := by
    intro c held
    rcases mem_append.mp held with held | held
    · refine decide_eq_true ?_
      rintro rfl
      exact l.size.notMem (by decide) held
    · rcases l.blank c held with rfl | rfl <;> decide
  obtain ⟨tail, white, cut⟩ : ∃ tail : Text, (∀ c ∈ tail, isWhitespace c = true) ∧
      (l.line ++ crlf).takeWhile (· ≠ ';') = l.size.text ++ l.space ++ tail := by
    unfold line
    rcases l.started with empty | ⟨rest, eq⟩
    · refine ⟨crlf, whitespace_crlf, ?_⟩
      rw [empty, append_nil, takeWhile_append_of_pos plain]
      rfl
    · refine ⟨[], by simp, ?_⟩
      rw [eq, append_assoc, takeWhile_append_of_pos plain]
      rfl
  have ink : ∀ c ∈ l.size.text, isWhitespace c = false :=
    fun c held => not_whitespace (digit_of_value l.size.reads c held)
  have after : ∀ c ∈ l.space ++ tail, isWhitespace c := by
    intro c held
    exact (mem_append.mp held).elim (fun h => whitespace_of_blank (l.blank c h)) (white c)
  rw [cut, append_assoc]
  exact @trim_eq [] _ _ (by simp) ink after

variable {limit : Nat} {body : Buffer}

theorem SizeLine.chunkSize (l : SizeLine n)
    (room : body.bytes.length + n ≤ limit) (usize : limit < usizeSpace) :
    Http.chunkSize limit body (l.line ++ crlf) = .ok n := by
  unfold Http.chunkSize
  dsimp only
  rw [l.hex, l.size.parse (by decide) (by omega)]
  cases n with
  | zero => rfl
  | succ => exact if_neg (by omega)

structure Chunk where
  data : Bytes
  sizeLine : SizeLine data.length
  some_bytes : data ≠ []

def Chunk.wire (c : Chunk) : Bytes := Http.wire c.sizeLine.line ++ c.data ++ utf8 crlf

theorem gives_grow {buf : Buffer} {additional : Nat}
    (fits : buf.bytes.length + additional < usizeSpace) :
    Gives (growZeroizing buf additional limit) [] () := by
  rw [growZeroizing, if_neg (Nat.not_le.mpr fits)]
  exact gives_allocate _

theorem gives_readChunk (c : Chunk)
    (room : body.bytes.length + c.data.length ≤ limit) (usize : limit < usizeSpace) :
    Gives (readChunk limit body) c.wire (some (body.append c.data limit)) := by
  rw [Chunk.wire, append_assoc]
  refine (gives_line c.sizeLine.fair _).bind ((gives_lift (c.sizeLine.chunkSize room usize)).pass ?_)
  rw [if_neg (by simpa using c.some_bytes)]
  refine (gives_grow (by omega)).pass ((gives_readExact _ c.data).bind ?_)
  rw [← append_nil (utf8 crlf)]
  exact (gives_readExact "chunk CRLF" (utf8 crlf)).bind gives_pure

theorem gives_lastChunk (last : SizeLine 0)
    (room : body.bytes.length ≤ limit) (usize : limit < usizeSpace) :
    Gives (readChunk limit body) (wire last.line) none := by
  rw [← append_nil (wire last.line)]
  exact (gives_line last.fair _).bind ((gives_lift (last.chunkSize room usize)).pass gives_pure)

theorem readChunks_eq (limit : Nat) (body : Buffer) (s : Session) :
    readChunks limit body s = match readChunk limit body s with
      | (.error e, s') => (.error e, s')
      | (.ok none, s') => (.ok body, s')
      | (.ok (some body'), s') => readChunks limit body' s' := by
  rw [readChunks]
  split <;> simp_all

theorem gives_readChunks (chunks : List Chunk) (last : SizeLine 0)
    (room : body.bytes.length + (chunks.flatMap Chunk.data).length ≤ limit)
    (usize : limit < usizeSpace) :
    ∃ body', body'.bytes = body.bytes ++ chunks.flatMap Chunk.data ∧
      Gives (readChunks limit body) (chunks.flatMap Chunk.wire ++ wire last.line) body' := by
  induction chunks generalizing body with
  | nil =>
    refine ⟨body, by simp, fun s rest whole => ?_⟩
    obtain ⟨s', read, after⟩ := gives_lastChunk last (by simpa using room) usize s rest whole
    exact ⟨s', by rw [readChunks_eq, read], after⟩
  | cons c chunks ih =>
    rw [flatMap_cons, length_append] at room
    have longer : (body.append c.data limit).bytes = body.bytes ++ c.data := rfl
    obtain ⟨body', bytes, gives⟩ := @ih (body.append c.data limit) (by
      rw [longer, length_append]
      omega)
    refine ⟨body', by rw [bytes, longer, flatMap_cons, append_assoc], ?_⟩
    intro s rest whole
    rw [flatMap_cons, append_assoc, append_assoc] at whole
    have chunk : Gives (readChunk limit body) c.wire (some (body.append c.data limit)) :=
      gives_readChunk c (by omega) usize
    obtain ⟨s₁, read, left, failure⟩ := chunk s _ whole
    rw [← append_assoc] at left
    obtain ⟨s₂, read', left', failure'⟩ := gives s₁ rest left
    exact ⟨s₂, by rw [readChunks_eq, read]; exact read', left', failure'.trans failure⟩

/-! ## Responses -/

/-- The body behind the headers: counted, in chunks, or up to the end of the stream. Behind a
counted body and behind the last chunk anything may follow, trailers too. -/
inductive Carried (headers : List Header) (body : Bytes) (failure : Option String) : Bytes → Prop
  | counted {h : Header} {before after : Text} (number : Numeral 10 body.length) (rest : Bytes)
      (only : headers.filter Header.isFraming = [h]) (key : h.key = "content-length".toList)
      (value : h.value = before ++ number.text ++ after)
      (blank : ∀ c ∈ before ++ after, c = ' ' ∨ c = '\t') :
      Carried headers body failure (body ++ rest)
  | chunked {h : Header} (chunks : List Chunk) (last : SizeLine 0) (rest : Bytes)
      (only : headers.filter Header.isFraming = [h]) (key : h.key = "transfer-encoding".toList)
      (coding : "chunked".toList <:+: h.value.map Char.toLower)
      (whole : chunks.flatMap Chunk.data = body) :
      Carried headers body failure (chunks.flatMap Chunk.wire ++ wire last.line ++ rest)
  | untilEnd (only : headers.filter Header.isFraming = []) (ended : failure = none) :
      Carried headers body failure body

theorem toLower_of_digit (digit : (digit? 10 c).isSome) : c.toLower = c := by
  have val {a b : Char} (le : a ≤ b) : a.toNat ≤ b.toNat := le
  have low : c.toNat < 65 := by
    simp only [digit?, Option.isSome_ite] at digit
    split at digit
    next h => exact (val h.2).trans_lt (by decide)
    split at digit
    next h =>
      have letter : 97 ≤ c.toNat := val h.1
      omega
    split at digit
    next h =>
      have letter : 65 ≤ c.toNat := val h.1
      omega
    · omega
  exact dif_neg fun upper => absurd (val upper.1) (Nat.not_le.mpr low)

theorem map_toLower {text : Text} (same : ∀ c ∈ text, c.toLower = c) :
    text.map Char.toLower = text := by
  simpa using map_congr_left same

theorem read_counted {h : Header} {before after : Text} (number : Numeral 10 n)
    (key : h.key = "content-length".toList) (value : h.value = before ++ number.text ++ after)
    (blank : ∀ c ∈ before ++ after, c = ' ' ∨ c = '\t') (usize : n < usizeSpace) (f : Framing) :
    f.read h = { f with contentLength := some n } := by
  have lower : h.value.map Char.toLower = h.value := by
    refine map_toLower fun c held => ?_
    rw [value, append_assoc] at held
    simp only [mem_append] at held blank
    rcases held with held | held | held
    · rcases blank c (.inl held) with rfl | rfl <;> decide
    · exact toLower_of_digit (digit_of_value number.reads c held)
    · rcases blank c (.inr held) with rfl | rfl <;> decide
  have white : ∀ c ∈ after ++ crlf, isWhitespace c := by
    intro c held
    rcases mem_append.mp held with held | held
    · exact whitespace_of_blank (blank c (mem_append_right _ held))
    · exact whitespace_crlf c held
  have text : trim (h.value ++ crlf) = number.text := by
    rw [value, append_assoc]
    exact trim_eq (fun c held => whitespace_of_blank (blank c (mem_append_left _ held)))
      (fun c held => not_whitespace (digit_of_value number.reads c held)) white
  rw [Framing.read_eq, if_pos key, lower, text, number.parse (by decide) usize]

theorem read_chunked {h : Header} (key : h.key = "transfer-encoding".toList)
    (coding : "chunked".toList <:+: h.value.map Char.toLower) (f : Framing) :
    f.read h = { f with isChunked := true } := by
  have inside : "chunked".toList <:+: (h.line ++ crlf).map Char.toLower := by
    rw [Header.lower_line]
    exact coding.trans ((prefix_append _ crlf).isInfix.trans
      ((suffix_cons _ _).isInfix.trans (suffix_append _ _).isInfix))
  rw [Framing.read_eq, if_neg (by rw [key]; decide), if_pos ⟨key, inside⟩]

theorem readToEnd_exact (blocks : List Bytes) {s : Session}
    (ended : s.failure = none) (room : body.bytes.length + blocks.flatten.length ≤ limit)
    (usize : limit < usizeSpace) :
    (readToEnd limit blocks body s).1 = .ok (body.bytes ++ blocks.flatten) := by
  induction blocks generalizing body s with
  | nil => simp [readToEnd, ended]
  | cons block blocks ih =>
    rw [flatten_cons, length_append] at room
    rw [readToEnd]
    split
    next empty => simpa [empty] using @ih body s ended (by omega)
    · rw [if_neg (by omega), bind_apply, growZeroizing, if_neg (by omega)]
      have rest := @ih (body.append block limit)
        { s with allocated := max s.allocated (body.grownCapacity block.length limit) } ended (by
          simp only [Buffer.append, length_append]
          omega)
      rw [flatten_cons, ← append_assoc]
      exact rest

theorem readBody_exact {headers : List Header} {body bytes : Bytes} {s : Session}
    (carried : Carried headers body s.failure bytes) (small : body.length ≤ limit)
    (usize : limit < usizeSpace) (whole : s.pieces.flatten = bytes) :
    (readBody limit (headers.foldl Framing.read {}) s).1 = .ok body := by
  rw [foldl_read_filter]
  cases carried with
  | counted number rest only key value blank =>
    rw [only, foldl_cons, foldl_nil, read_counted number key value blank (by omega)]
    have read : Gives (readCounted limit body.length) body body := by
      rw [readCounted, if_neg (by omega)]
      exact (gives_allocate _).pass (gives_readExact _ body)
    obtain ⟨s', ok, -⟩ := read s rest whole
    exact congrArg Prod.fst ok
  | chunked chunks last rest only key coding eq =>
    rw [only, foldl_cons, foldl_nil, read_chunked key coding]
    obtain ⟨body', data, read⟩ := @gives_readChunks limit .empty chunks last
      (by simpa [Buffer.empty, eq] using small) usize
    obtain ⟨s', ok, -⟩ := read s rest whole
    change (readChunkedBody limit s).1 = _
    rw [readChunkedBody, bind_apply, ok]
    simpa [Buffer.empty, eq] using data
  | untilEnd only ended =>
    rw [only]
    have read := @readToEnd_exact limit .empty s.pieces s ended
      (by simpa [Buffer.empty, whole] using small) usize
    rw [whole] at read
    simpa [readBody, Buffer.empty] using read

/-- A response is read as its status and body, however it is cut into reads; and of any stream
whatever, no body above the limit is made or returned and no more lines are read than headers,
chunks and trailers are allowed. -/
theorem bodies_are_exact_and_bounded (limit : Nat) :
    (∀ (status : StatusLine) (headers : List Header) (body bytes : Bytes) (s : Session),
      headers.length ≤ maxHeaders → Carried headers body s.failure bytes →
      body.length ≤ limit → limit < usizeSpace →
      s.pieces.flatten =
        wire status.line ++ (headers.flatMap (fun h => wire h.line) ++ wire []) ++ bytes →
      (readResponse limit s).1 = .ok ⟨status.status, body⟩) ∧
    ∀ s : Session,
      (readResponse limit s).2.allocated ≤ max s.allocated limit ∧
      (readResponse limit s).2.lines ≤
        s.lines + (1 + (maxHeaders + 1 + (limit + 1 + maxTrailers))) ∧
      ∀ response, (readResponse limit s).1 = .ok response → response.body.length ≤ limit := by
  refine ⟨fun status headers body bytes s few carried small usize whole => ?_, fun s => ?_⟩
  · rw [append_assoc] at whole
    obtain ⟨s₁, line, left, failure⟩ := gives_line status.fair "HTTP status line" s _ whole
    obtain ⟨s₂, block, left', failure'⟩ := gives_readHeaders few {} s₁ _ left
    have read := @readBody_exact limit headers body bytes s₂
      (by rw [failure', failure]; exact carried) small usize left'
    have parsed : lift (parseStatusLine (status.line ++ crlf)) s₁ = (.ok status.status, s₁) := by
      rw [lift, status.parse]
    change readLineBounded _ s = (.ok (_, status.line ++ crlf), s₁) at line
    rw [readResponse, bind_apply, line]
    dsimp only
    rw [bind_apply, parsed]
    dsimp only
    rw [bind_apply, block]
    dsimp only
    rw [bind_apply]
    rcases eq : readBody limit (headers.foldl Framing.read {}) s₂ with ⟨e | got, s₃⟩ <;>
      rw [eq] at read
    · cases read
    · cases read
      rfl
  · obtain ⟨few, made, result⟩ := bounded_readResponse limit s
    exact ⟨made, few, result⟩

def sampleStatus : StatusLine where
  version := "HTTP/1.1".toList
  status := 200
  code := ⟨"200".toList, by decide, by decide⟩
  reason := "OK".toList
  word := by decide
  small := by decide
  fair := ⟨by decide, by decide⟩

def sampleHeader : Header where
  name := "Transfer-Encoding".toList
  value := " Chunked".toList
  plain := by decide
  fair := ⟨by decide, by decide⟩

def sampleChunk : Chunk where
  data := [104, 105]
  sizeLine :=
    { size := ⟨"002".toList, by decide, by decide⟩
      space := [' ']
      extension := ";a=b".toList
      blank := by simp
      started := .inr ⟨"a=b".toList, by decide⟩
      fair := ⟨by decide, by decide⟩ }
  some_bytes := by decide

def sampleLast : SizeLine 0 where
  size := ⟨"0".toList, by decide, by decide⟩
  space := []
  extension := []
  blank := by simp
  started := .inl rfl
  fair := ⟨by decide, by decide⟩

def sampleWire : Bytes :=
  wire sampleStatus.line ++ ([sampleHeader].flatMap (fun h => wire h.line) ++ wire []) ++
    ([sampleChunk].flatMap Chunk.wire ++ wire sampleLast.line ++
      (wire "Expires: 0".toList ++ wire []))

theorem sampleWire_is_exact :
    (readResponse 2 ⟨[sampleWire.take 50, sampleWire.drop 50], none, 0, 0, ""⟩).1 =
      .ok ⟨200, [104, 105]⟩ :=
  (bodies_are_exact_and_bounded 2).1 sampleStatus [sampleHeader] [104, 105] _
    ⟨[sampleWire.take 50, sampleWire.drop 50], none, 0, 0, ""⟩ (by decide)
    (.chunked (h := sampleHeader) [sampleChunk] sampleLast (wire "Expires: 0".toList ++ wire []) rfl
      (by decide) ⟨[' '], [], by decide⟩ (by decide))
    (by decide) (by norm_num [usizeSpace]) (by simp [sampleWire])

/-- A header value with a byte outside ASCII, which HTTP allows, is refused unless the bytes
around it make it UTF-8. -/
theorem header_byte_outside_utf8_is_refused :
    ¬ (readResponse 100 ⟨[utf8 "HTTP/1.1 200 OK\r\nContent-Length: 0\r\nX: ".toList ++ [0xE9] ++
      utf8 "\r\n\r\n".toList], none, 0, 0, "not UTF-8"⟩).1.isOk := by
  decide +kernel

end Krafka.Http
