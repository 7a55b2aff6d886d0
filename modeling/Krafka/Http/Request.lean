import Krafka.Error
import Krafka.Library.Texts
import Mathlib.Data.Char
import Mathlib.Data.List.Infix

/-! The token request of the HTTP client: the URL it is sent to, and the head it is written
with. -/

namespace Krafka.Http

open List

abbrev Text := List Char

structure ParsedUrl where
  isHttps : Bool
  host : Text
  port : Nat
  pathAndQuery : Text

def defaultPort (isHttps : Bool) : Nat := if isHttps then 443 else 80

def parsePort (text : Text) : Option Nat := Texts.parse? 10 (2 ^ 16) text

namespace ParsedUrl

def hostHeader (url : ParsedUrl) : Text :=
  let bracketed := url.host.contains ':'
  let port := Nat.toDigits 10 url.port
  match bracketed, decide (url.port = defaultPort url.isHttps) with
  | true, true => '[' :: url.host ++ [']']
  | true, false => '[' :: url.host ++ ']' :: ':' :: port
  | false, true => url.host
  | false, false => url.host ++ ':' :: port

def parseAuthority (url authority : Text) (isHttps : Bool) : Result (Text × Nat) :=
  let invalidPort : KrafkaError := .config s!"invalid port in URL: {String.ofList url}"
  match authority with
  | '[' :: literal =>
    match Texts.splitOnce ']' literal with
    | none => .error (.config s!"unclosed '[' in URL: {String.ofList url}")
    | some (host, ':' :: port) =>
      match parsePort port with
      | some port => .ok (host, port)
      | none => .error invalidPort
    | some (host, _) => .ok (host, defaultPort isHttps)
  | authority =>
    -- `rfind`: the last colon is the first of the reversed text
    match Texts.splitOnce ':' authority.reverse with
    | some (port, host) =>
      if port.reverse.all (fun c => '0' ≤ c ∧ c ≤ '9') ∧ port ≠ [] then
        match parsePort port.reverse with
        | some port => .ok (host.reverse, port)
        | none => .error invalidPort
      else .ok (authority, defaultPort isHttps)
    | none => .ok (authority, defaultPort isHttps)

def parseRest (url rest : Text) (isHttps : Bool) : Result ParsedUrl := do
  let path := rest.dropWhile (· ≠ '/')
  let (host, port) ← parseAuthority url (rest.takeWhile (· ≠ '/')) isHttps
  .ok { isHttps, host, port, pathAndQuery := if path = [] then ['/'] else path }

def parse (url : Text) : Result ParsedUrl :=
  match "https://".toList.isPrefixOf? url with
  | some rest => parseRest url rest true
  | none =>
    match "http://".toList.isPrefixOf? url with
    | some rest => parseRest url rest false
    | none =>
      .error (.config s!"URL must start with http:// or https://, got: {String.ofList url}")

end ParsedUrl

/-! ## The request head -/

def validateHeaderValue (name : String) (value : Text) : Result Unit :=
  match (Texts.utf8 value).find?
      fun b => b ≠ 9 && !(0x20 ≤ b && b ≤ 0x7E) with
  | some bad =>
    let hex := String.ofList (Texts.hexUpper 2 bad.toNat)
    .error (.config (s!"HTTP header '{name}' contains an invalid byte 0x{hex}; " ++
      "header values must be printable ASCII (0x20-0x7E) or tab"))
  | none => .ok ()

def crlf : Text := ['\r', '\n']

def requestHead (url : ParsedUrl) (body : List UInt8) (authHeader : Option Text) : Text :=
  let contentLength := Nat.toDigits 10 body.length
  "POST ".toList ++ url.pathAndQuery ++ " HTTP/1.1".toList ++ crlf ++
    "Host: ".toList ++ url.hostHeader ++ crlf ++ "Connection: close".toList ++ crlf ++
    (match authHeader with
      | some auth => "Authorization: ".toList ++ auth ++ crlf
      | none => []) ++
    "Content-Type: application/x-www-form-urlencoded".toList ++ crlf ++
    "Accept: application/json".toList ++ crlf ++
    "Content-Length: ".toList ++ contentLength ++ crlf ++ crlf

/-- The dial, and what rustls makes of the host and of the handshake; an error is its text. -/
structure Endpoint where
  dialHttp (host : Text) (port : Nat) : Except String Unit
  serverName (host : Text) : Except String Unit
  handshake (host : Text) : Except String Unit

def Endpoint.connect (peer : Endpoint) (url : ParsedUrl) : Result Unit := do
  let host := String.ofList url.host
  (peer.dialHttp url.host url.port).mapError fun e =>
    .auth s!"connect to {host}:{url.port} failed: {e}"
  if url.isHttps then
    (peer.serverName url.host).mapError fun e => .config s!"invalid server name '{host}': {e}"
    (peer.handshake url.host).mapError fun e => .auth s!"TLS handshake with {host} failed: {e}"

/-- The head that is written once the connection stands. -/
def postForm (peer : Endpoint) (url : Text) (form : List UInt8) (authHeader : Option Text) :
    Result Text := do
  if let some auth := authHeader then validateHeaderValue "Authorization" auth
  let parsed ← ParsedUrl.parse url
  peer.connect parsed
  .ok (requestHead parsed form authHeader)

def headLines (url : ParsedUrl) (body : List UInt8) (authHeader : Option Text) : List Text :=
  ["POST ".toList ++ url.pathAndQuery ++ " HTTP/1.1".toList, "Host: ".toList ++ url.hostHeader,
    "Connection: close".toList] ++
  (authHeader.map ("Authorization: ".toList ++ ·)).toList ++
  ["Content-Type: application/x-www-form-urlencoded".toList, "Accept: application/json".toList,
    "Content-Length: ".toList ++ Nat.toDigits 10 body.length, []]

theorem requestHead_eq (url : ParsedUrl) (body : List UInt8) (authHeader : Option Text) :
    requestHead url body authHeader =
      (headLines url body authHeader).flatMap (· ++ crlf) := by
  unfold requestHead headLines
  cases authHeader <;>
    simp only [Option.map_none, Option.map_some, Option.toList_none, Option.toList_some,
      flatMap_append, flatMap_cons, flatMap_nil, append_assoc,
      append_nil, nil_append]

/-! ## Where its characters come from -/

variable {url : Text}

theorem ParsedUrl.parseAuthority_subset {authority : Text} {isHttps : Bool} {host : Text}
    {port : Nat} (parsed : parseAuthority url authority isHttps = .ok (host, port)) :
    host ⊆ authority := by
  unfold parseAuthority at parsed
  split at parsed
  next literal =>
    have inner {left right : Text} (cut : Texts.splitOnce ']' literal = some (left, right)) :
        left ⊆ '[' :: literal := by
      rw [(Texts.splitOnce_eq_some cut).1]
      intro c held
      simp [held]
    split at parsed
    · cases parsed
    next cut =>
      split at parsed
      · cases parsed
        exact inner cut
      · cases parsed
    next other cut =>
      cases parsed
      exact inner cut
  · split at parsed
    next cut =>
      split at parsed
      · split at parsed
        · cases parsed
          intro c held
          rw [← mem_reverse, (Texts.splitOnce_eq_some cut).1]
          simp [mem_reverse.mp held]
        · cases parsed
      · cases parsed
        exact List.Subset.refl _
    · cases parsed
      exact List.Subset.refl _

variable {parsed : ParsedUrl}

theorem ParsedUrl.parseRest_subset {rest : Text} {isHttps : Bool}
    (ok : parseRest url rest isHttps = .ok parsed) :
    parsed.host ⊆ rest ∧ parsed.pathAndQuery ⊆ '/' :: rest := by
  simp only [parseRest, bind, Except.bind] at ok
  split at ok
  · cases ok
  next found authority =>
    cases ok
    refine ⟨List.Subset.trans (parseAuthority_subset authority) (takeWhile_subset _), ?_⟩
    dsimp only
    split
    · simp
    · exact List.Subset.trans (dropWhile_sublist _).subset (subset_cons_self _ _)

theorem ParsedUrl.parse_subset (ok : parse url = .ok parsed) :
    parsed.host ⊆ url ∧ parsed.pathAndQuery ⊆ '/' :: url := by
  have widen {lead rest : Text} (split : lead ++ rest = url)
      (sub : parsed.host ⊆ rest ∧ parsed.pathAndQuery ⊆ '/' :: rest) :
      parsed.host ⊆ url ∧ parsed.pathAndQuery ⊆ '/' :: url := by
    have tail : rest ⊆ url := split ▸ subset_append_right lead rest
    exact ⟨List.Subset.trans sub.1 tail, List.Subset.trans sub.2 (cons_subset_cons _ tail)⟩
  unfold parse at ok
  split at ok
  next cut => exact widen (List.isPrefixOf?_eq_some_iff_append_eq.mp cut) (parseRest_subset ok)
  split at ok
  next cut => exact widen (List.isPrefixOf?_eq_some_iff_append_eq.mp cut) (parseRest_subset ok)
  · cases ok

variable {c : Char}

theorem notMem_toDigits (other : c.isDigit = false) (n : Nat) : c ∉ Nat.toDigits 10 n := by
  intro held
  simp [Nat.isDigit_of_mem_toDigits (by decide) (by decide) held] at other

theorem ParsedUrl.notMem_hostHeader {url : ParsedUrl} (absent : c ∉ url.host)
    (plain : c ≠ '[' ∧ c ≠ ']' ∧ c ≠ ':') (other : c.isDigit = false) : c ∉ url.hostHeader := by
  have digits := notMem_toDigits other url.port
  unfold hostHeader
  dsimp only
  split <;> simp [absent, digits, plain]

theorem ParsedUrl.subset_hostHeader (url : ParsedUrl) : url.host ⊆ url.hostHeader := by
  intro c held
  unfold hostHeader
  dsimp only
  split <;> simp [held]

theorem notMem_of_validateHeaderValue {name : String} {value : Text}
    (valid : validateHeaderValue name value = .ok ()) : '\r' ∉ value ∧ '\n' ∉ value := by
  have clean : ∀ b ∈ Texts.utf8 value,
      ¬ (b ≠ 9 && !(0x20 ≤ b && b ≤ 0x7E)) := by
    unfold validateHeaderValue at valid
    split at valid
    · cases valid
    next none_found => exact List.find?_eq_none.mp none_found
  constructor
  · intro held
    exact clean 13 (mem_flatMap.mpr ⟨'\r', held, by decide⟩) (by decide)
  · intro held
    exact clean 10 (mem_flatMap.mpr ⟨'\n', held, by decide⟩) (by decide)

theorem notMem_printable (control : c < ' ') {text : Text}
    (printable : text.all (' ' ≤ ·)) : c ∉ text := by
  intro held
  have above : ' ' ≤ c := of_decide_eq_true (all_eq_true.mp printable c held)
  exact absurd control (not_lt.mpr above)

variable {body : List UInt8} {authHeader : Option Text}

theorem notMem_headLines {url : ParsedUrl}
    (control : c < ' ') (target : c ∉ url.pathAndQuery) (host : c ∉ url.host)
    (credential : ∀ auth, authHeader = some auth → c ∉ auth) :
    ∀ line ∈ headLines url body authHeader, c ∉ line := by
  have other : c.isDigit = false := by
    by_contra digit
    simp only [Char.isDigit, Bool.not_eq_false, Bool.and_eq_true, decide_eq_true_eq] at digit
    have low : '0' ≤ c := digit.1
    exact absurd control (not_lt.mpr (le_trans (by decide) low))
  have header : c ∉ url.hostHeader := by
    refine ParsedUrl.notMem_hostHeader host ⟨?_, ?_, ?_⟩ other <;>
      exact (control.trans (by decide)).ne
  have digits := notMem_toDigits other body.length
  intro line held
  simp only [headLines, mem_append, mem_cons, not_mem_nil, or_false,
    Option.mem_toList, Option.map_eq_some_iff] at held
  have join {left right : Text} (l : c ∉ left) (r : c ∉ right) : c ∉ left ++ right :=
    fun held => (mem_append.mp held).elim l r
  rcases held with ((rfl | rfl | rfl) | ⟨auth, given, rfl⟩) | rfl | rfl | rfl | rfl
  · exact join (join (notMem_printable control (by decide +kernel)) target)
      (notMem_printable control (by decide +kernel))
  · exact join (notMem_printable control (by decide +kernel)) header
  · exact notMem_printable control (by decide +kernel)
  · exact join (notMem_printable control (by decide +kernel)) (credential auth given)
  · exact notMem_printable control (by decide +kernel)
  · exact notMem_printable control (by decide +kernel)
  · exact join (notMem_printable control (by decide +kernel)) digits
  · simp

theorem postForm_eq_ok {peer : Endpoint} {form : List UInt8} {head : Text}
    (accepted : postForm peer url form authHeader = .ok head) :
    ∃ parsed, ParsedUrl.parse url = .ok parsed ∧ head = requestHead parsed form authHeader ∧
      ∀ auth, authHeader = some auth → '\r' ∉ auth ∧ '\n' ∉ auth := by
  have parsing {authHeader : Option Text} (rest : (do
      let parsed ← ParsedUrl.parse url
      peer.connect parsed
      .ok (requestHead parsed form authHeader)) = Except.ok head) :
      ∃ parsed, ParsedUrl.parse url = .ok parsed ∧ head = requestHead parsed form authHeader := by
    obtain ⟨parsed, ok, rest⟩ := bind_eq_ok rest
    obtain ⟨_, _, made⟩ := bind_eq_ok rest
    exact ⟨parsed, ok, (Except.ok.inj made).symm⟩
  cases authHeader with
  | none =>
    obtain ⟨parsed, ok, eq⟩ := parsing accepted
    exact ⟨parsed, ok, eq, nofun⟩
  | some auth =>
    obtain ⟨_, valid, rest⟩ := bind_eq_ok accepted
    obtain ⟨parsed, ok, eq⟩ := parsing rest
    refine ⟨parsed, ok, eq, fun given same => ?_⟩
    cases same
    exact notMem_of_validateHeaderValue valid

/-- No line end in what the lines are made of, and no second word in the target. -/
def ParsedUrl.OneWord (url : ParsedUrl) : Prop :=
  ('\r' ∉ url.host ∧ '\n' ∉ url.host) ∧
    '\r' ∉ url.pathAndQuery ∧ '\n' ∉ url.pathAndQuery ∧ ' ' ∉ url.pathAndQuery

theorem ParsedUrl.oneWord_of_parse (ok : parse url = .ok parsed)
    (word : '\r' ∉ url ∧ '\n' ∉ url ∧ ' ' ∉ url) : parsed.OneWord := by
  obtain ⟨host, target⟩ := parse_subset ok
  have target_free {c : Char} (apart : c ≠ '/') (absent : c ∉ url) : c ∉ parsed.pathAndQuery :=
    fun held => (mem_cons.mp (target held)).elim apart absent
  refine ⟨⟨fun held => word.1 (host held), fun held => word.2.1 (host held)⟩, ?_, ?_, ?_⟩
  · exact target_free (by decide) word.1
  · exact target_free (by decide) word.2.1
  · exact target_free (by decide) word.2.2

/-- A head that is the lines meant and no others, with one target in its request line. -/
structure ExactHead (url : ParsedUrl) (body : List UInt8) (authHeader : Option Text)
    (head : Text) : Prop where
  lines : Texts.splitCrlf head = headLines url body authHeader ++ [[]]
  whole : ∀ line ∈ Texts.splitCrlf head, '\r' ∉ line ∧ '\n' ∉ line
  words : ("POST ".toList ++ url.pathAndQuery ++ " HTTP/1.1".toList).splitOn ' ' =
    ["POST".toList, url.pathAndQuery, "HTTP/1.1".toList]

theorem requestLine_words (target : Text) :
    ("POST ".toList ++ target ++ " HTTP/1.1".toList).splitOn ' ' =
      ["POST".toList, target, "HTTP/1.1".toList] ↔ ' ' ∉ target := by
  have line : "POST ".toList ++ target ++ " HTTP/1.1".toList =
      "POST".toList ++ ' ' :: (target ++ ' ' :: "HTTP/1.1".toList) := by simp
  have first : "POST".toList.splitOn ' ' = ["POST".toList] := by decide
  have last : "HTTP/1.1".toList.splitOn ' ' = ["HTTP/1.1".toList] := by decide
  rw [line, splitOn_append_cons_self, splitOn_append_cons_self, first, last,
    ← Texts.splitOn_eq_singleton_iff]
  constructor
  · intro words
    exact append_cancel_right (append_cancel_left words)
  · intro words
    rw [words]
    rfl

theorem ExactHead.oneWord {url : ParsedUrl}
    {head : Text} (exact : ExactHead url body authHeader head) : url.OneWord := by
  have whole {line : Text} (held : line ∈ headLines url body authHeader) :
      '\r' ∉ line ∧ '\n' ∉ line :=
    exact.whole line (exact.lines ▸ mem_append_left _ held)
  have request := @whole ("POST ".toList ++ url.pathAndQuery ++ " HTTP/1.1".toList)
    (by simp [headLines])
  have header := @whole ("Host: ".toList ++ url.hostHeader) (by simp [headLines])
  have target {c : Char} (held : c ∈ url.pathAndQuery) :
      c ∈ "POST ".toList ++ url.pathAndQuery ++ " HTTP/1.1".toList :=
    mem_append_left _ (mem_append_right _ held)
  have host {c : Char} (held : c ∈ url.host) : c ∈ "Host: ".toList ++ url.hostHeader :=
    mem_append_right _ (url.subset_hostHeader held)
  exact ⟨⟨fun held => header.1 (host held), fun held => header.2 (host held)⟩,
    fun held => request.1 (target held), fun held => request.2 (target held),
    (requestLine_words _).mp exact.words⟩

theorem exactHead_requestHead {url : ParsedUrl}
    (word : url.OneWord) (credential : ∀ auth, authHeader = some auth → '\r' ∉ auth ∧ '\n' ∉ auth) :
    ExactHead url body authHeader (requestHead url body authHeader) := by
  obtain ⟨host, cr, lf, sp⟩ := word
  have no_cr : ∀ line ∈ headLines url body authHeader, '\r' ∉ line :=
    notMem_headLines (by decide) cr host.1 fun auth given => (credential auth given).1
  have no_lf : ∀ line ∈ headLines url body authHeader, '\n' ∉ line :=
    notMem_headLines (by decide) lf host.2 fun auth given => (credential auth given).2
  have lines := Texts.splitCrlf_lines no_cr
  change Texts.splitCrlf ((headLines url body authHeader).flatMap (· ++ crlf)) = _ at lines
  rw [← requestHead_eq] at lines
  refine ⟨lines, ?_, (requestLine_words _).mpr sp⟩
  rw [lines]
  intro line held
  rcases mem_append.mp held with held | held
  · exact ⟨no_cr line held, no_lf line held⟩
  · simp [mem_singleton.mp held]

/-- The head of an accepted request has its own lines and no others, and one target, just when
host and target of the URL bring no line end and the target no space. -/
theorem request_head_is_exact {peer : Endpoint} {url : Text} {form : List UInt8}
    {authHeader : Option Text} {head : Text}
    (accepted : postForm peer url form authHeader = .ok head) :
    ∃ parsed, ParsedUrl.parse url = .ok parsed ∧
      (ExactHead parsed form authHeader head ↔ parsed.OneWord) ∧
      ('\r' ∉ url ∧ '\n' ∉ url ∧ ' ' ∉ url → parsed.OneWord) := by
  obtain ⟨parsed, ok, made, credential⟩ := postForm_eq_ok accepted
  refine ⟨parsed, ok, ⟨ExactHead.oneWord, fun word => ?_⟩, ParsedUrl.oneWord_of_parse ok⟩
  rw [made]
  exact exactHead_requestHead word credential

def sampleUrl : ParsedUrl :=
  { isHttps := true, host := "::1".toList, port := 8443, pathAndQuery := "/token?a=b".toList }

/-- Every host is reached; those of the samples are server names. -/
def sampleEndpoint : Endpoint where
  dialHttp _ _ := .ok ()
  serverName host := if host ∈ ["::1".toList, "idp".toList] then .ok () else .error "invalid"
  handshake _ := .ok ()

def sampleHead : Text := requestHead sampleUrl [1, 2] (some "Basic dTpw".toList)

theorem sampleHead_is_exact :
    ∃ parsed, ParsedUrl.parse "https://[::1]:8443/token?a=b".toList = .ok parsed ∧
      ExactHead parsed [1, 2] (some "Basic dTpw".toList) sampleHead := by
  obtain ⟨parsed, ok, exact, plain⟩ :=
    @request_head_is_exact sampleEndpoint "https://[::1]:8443/token?a=b".toList [1, 2]
      (some "Basic dTpw".toList) sampleHead (by decide +kernel)
  exact ⟨parsed, ok, exact.mpr (plain (by decide))⟩

/-- Nothing looks at the characters of the path: a line end in it ends the request line, and
what follows it is a header. -/
theorem url_injects_header :
    (postForm sampleEndpoint "https://idp/token HTTP/1.1\r\nX-Injected: 1".toList [] none).map
        Texts.splitCrlf =
      .ok ["POST /token HTTP/1.1".toList, "X-Injected: 1 HTTP/1.1".toList, "Host: idp".toList,
        "Connection: close".toList, "Content-Type: application/x-www-form-urlencoded".toList,
        "Accept: application/json".toList, "Content-Length: 0".toList, [], []] := by
  decide +kernel

end Krafka.Http
