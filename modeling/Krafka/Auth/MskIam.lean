import Krafka.Auth.Timestamps
import Krafka.Library.Json
import Krafka.Record
import Mathlib.Tactic.IntervalCases

/-! The payload of AWS MSK IAM authentication: what is signed, the JSON object that carries the
signature, and that nothing a credential or host name holds can change that object. -/

namespace Krafka.Auth

abbrev Text := List Char

/-! ## Escaping -/

def jsonEscapeChar (c : Char) : Text :=
  if c = '"' then ['\\', '"']
  else if c = '\\' then ['\\', '\\']
  else if c = '\x08' then ['\\', 'b']
  else if c = '\x09' then ['\\', 't']
  else if c = '\x0A' then ['\\', 'n']
  else if c = '\x0C' then ['\\', 'f']
  else if c = '\x0D' then ['\\', 'r']
  else if c.toNat < 0x20 then '\\' :: 'u' :: Texts.hexUpper 4 c.toNat
  else [c]

def jsonEscapeString (s : Text) : Text := s.flatMap jsonEscapeChar

theorem jsonEscapeString_append (s t : Text) :
    jsonEscapeString (s ++ t) = jsonEscapeString s ++ jsonEscapeString t := List.flatMap_append

def Plain (c : Char) : Prop := c ≠ '"' ∧ c ≠ '\\' ∧ 0x20 ≤ c.toNat

instance (c : Char) : Decidable (Plain c) := inferInstanceAs (Decidable (_ ∧ _))

theorem jsonEscapeChar_plain {c : Char} (plain : Plain c) : jsonEscapeChar c = [c] := by
  obtain ⟨quote, backslash, high⟩ := plain
  have apart {d : Char} (low : d.toNat < 0x20) : c ≠ d := by
    rintro rfl
    omega
  simp only [jsonEscapeChar, if_neg quote, if_neg backslash, if_neg (apart (d := '\x08') (by decide)),
    if_neg (apart (d := '\x09') (by decide)), if_neg (apart (d := '\x0A') (by decide)),
    if_neg (apart (d := '\x0C') (by decide)), if_neg (apart (d := '\x0D') (by decide)),
    if_neg (Nat.not_lt.mpr high)]

theorem jsonEscapeString_plain {s : Text} (plain : ∀ c ∈ s, Plain c) : jsonEscapeString s = s := by
  induction s with
  | nil => rfl
  | cons c s ih =>
    simp only [List.mem_cons, forall_eq_or_imp] at plain
    change jsonEscapeChar c ++ jsonEscapeString s = _
    rw [jsonEscapeChar_plain plain.1, ih plain.2]
    rfl

theorem parseEscape_control : ∀ n < 0x20, ∀ rest : Text,
    ∃ escape, jsonEscapeChar (Char.ofNat n) = '\\' :: escape ∧
      Json.parseEscape (escape ++ rest) = some (Char.ofNat n, rest) := by
  intro n low rest
  interval_cases n <;> exact ⟨_, rfl, rfl⟩

theorem parseChars_escape (c : Char) (rest : Text) (fuel : Nat) :
    Json.parseChars (fuel + 1) (jsonEscapeChar c ++ rest) =
      (Json.parseChars fuel rest).map fun (chars, text) => (c :: chars, text) := by
  have escaped {escape : Text} (writes : jsonEscapeChar c = '\\' :: escape)
      (reads : Json.parseEscape (escape ++ rest) = some (c, rest)) :
      Json.parseChars (fuel + 1) (jsonEscapeChar c ++ rest) =
        (Json.parseChars fuel rest).map fun (chars, text) => (c :: chars, text) := by
    rw [writes, List.cons_append, Json.parseChars, if_neg (by decide), if_pos rfl, reads]
    change (Json.parseChars fuel rest >>= fun _ => _) = _
    cases Json.parseChars fuel rest <;> rfl
  by_cases control : c.toNat < 0x20
  · have is : Char.ofNat c.toNat = c := Char.ofNat_toNat c
    obtain ⟨escape, writes, reads⟩ := parseEscape_control c.toNat control rest
    rw [is] at writes reads
    exact escaped writes reads
  by_cases quote : c = '"'
  · subst quote
    exact escaped rfl rfl
  by_cases backslash : c = '\\'
  · subst backslash
    exact escaped rfl rfl
  rw [jsonEscapeChar_plain ⟨quote, backslash, Nat.le_of_not_lt control⟩, List.singleton_append,
    Json.parseChars, if_neg quote, if_neg backslash, if_neg control]
  cases Json.parseChars fuel rest <;> rfl

theorem quotes_jsonEscapeString : Json.Quotes jsonEscapeString := by
  intro chars rest
  have enough (chars : Text) : chars.length ≤ (jsonEscapeString chars).length := by
    induction chars with
    | nil => simp
    | cons c chars ih =>
      have one : 1 ≤ (jsonEscapeChar c).length := by
        unfold jsonEscapeChar
        repeat' split
        all_goals simp
      simp only [jsonEscapeString, List.flatMap_cons, List.length_append, List.length_cons] at ih ⊢
      omega
  have read (fuel : Nat) (room : chars.length < fuel) :
      Json.parseChars fuel (jsonEscapeString chars ++ '"' :: rest) = some (chars, rest) := by
    clear enough
    induction chars generalizing fuel with
    | nil =>
      obtain ⟨fuel, rfl⟩ : ∃ f, fuel = f + 1 := ⟨fuel - 1, by simp at room; omega⟩
      rfl
    | cons c chars ih =>
      obtain ⟨fuel, rfl⟩ : ∃ f, fuel = f + 1 := ⟨fuel - 1, by simp at room; omega⟩
      rw [jsonEscapeString, List.flatMap_cons, List.append_assoc, parseChars_escape,
        ← jsonEscapeString, ih fuel (by simpa using room)]
      rfl
  refine read _ ?_
  have := enough chars
  simp only [List.length_append, List.length_cons]
  omega

/-! ## What is signed -/

def serviceName : Text := "kafka-cluster".toList
def algorithm : Text := "AWS4-HMAC-SHA256".toList
def action : Text := "kafka-cluster:Connect".toList
def userAgent : Text := "krafka-rust-client/0.28.2".toList
def expiresSeconds : Text := "900".toList
def signedHeaders : Text := "host".toList

/-- SHA-256 and HMAC over it, as arbitrary functions. -/
structure Digests where
  sha256 : Bytes → Bytes
  hmacSha256 (key data : Bytes) : Bytes

structure MskIamAuthenticator where
  accessKeyId : Text
  secretAccessKey : Text
  sessionToken : Option Text := none
  region : Text
  host : Text

def hexEncode (bytes : Bytes) : Text :=
  bytes.flatMap fun b => (Nat.toDigits 16 b.toNat).leftpad 2 '0'

def unreserved (b : UInt8) : Bool :=
  (65 ≤ b && b ≤ 90) || (97 ≤ b && b ≤ 122) || (48 ≤ b && b ≤ 57) || [45, 95, 46, 126].contains b

def urlEncode (s : Text) : Text :=
  (Texts.utf8 s).flatMap fun b =>
    if unreserved b then [Char.ofNat b.toNat] else '%' :: Texts.hexUpper 2 b.toNat

namespace MskIamAuthenticator

variable (d : Digests) (auth : MskIamAuthenticator)

def queryParameters (amzDate credentialScope : Text) : List (Text × Text) :=
  [("Action".toList, action), ("X-Amz-Algorithm".toList, algorithm),
    ("X-Amz-Credential".toList, auth.accessKeyId ++ '/' :: credentialScope),
    ("X-Amz-Date".toList, amzDate), ("X-Amz-Expires".toList, expiresSeconds)] ++
  auth.sessionToken.toList.map (("X-Amz-Security-Token".toList, ·)) ++
  [("X-Amz-SignedHeaders".toList, signedHeaders)]

def buildCanonicalRequest (amzDate credentialScope : Text) : Text :=
  let query := ['&'].intercalate ((auth.queryParameters amzDate credentialScope).map
    fun (k, v) => urlEncode k ++ '=' :: urlEncode v)
  let headers := "host:".toList ++ auth.host ++ ['\n']
  ['\n'].intercalate
    ["GET".toList, ['/'], query, headers, signedHeaders, hexEncode (d.sha256 [])]

def buildStringToSign (amzDate credentialScope canonicalRequest : Text) : Text :=
  ['\n'].intercalate
    [algorithm, amzDate, credentialScope, hexEncode (d.sha256 (Texts.utf8 canonicalRequest))]

def deriveSigningKey (dateStamp region service : Text) : Bytes :=
  let secret := Texts.utf8 ("AWS4".toList ++ auth.secretAccessKey)
  let date := d.hmacSha256 secret (Texts.utf8 dateStamp)
  let region := d.hmacSha256 date (Texts.utf8 region)
  let service := d.hmacSha256 region (Texts.utf8 service)
  d.hmacSha256 service (Texts.utf8 "aws4_request".toList)

def calculateSignature (dateStamp region service stringToSign : Text) : Text :=
  let key := auth.deriveSigningKey d dateStamp region service
  hexEncode (d.hmacSha256 key (Texts.utf8 stringToSign))

/-! ## The payload -/

def credentialScope (dateStamp : Text) : Text :=
  dateStamp ++ '/' :: auth.region ++ '/' :: serviceName ++ '/' :: "aws4_request".toList

def signature (secs : Nat) : Text :=
  let (dateStamp, amzDate) := formatTimestamp secs
  let scope := auth.credentialScope dateStamp
  let request := auth.buildCanonicalRequest d amzDate scope
  auth.calculateSignature d dateStamp auth.region serviceName
    (buildStringToSign d amzDate scope request)

def field (name : String) (value : Text) : Text :=
  '"' :: name.toList ++ '"' :: ':' :: '"' :: value ++ ['"']

def createAuthPayloadAt (secs : Nat) : Bytes :=
  let (dateStamp, amzDate) := formatTimestamp secs
  let hostEsc := jsonEscapeString auth.host
  let akidEsc := jsonEscapeString auth.accessKeyId
  let scopeEsc := jsonEscapeString (auth.credentialScope dateStamp)
  let payload := '{' :: field "version" "2020_10_22".toList ++
    ',' :: field "host" hostEsc ++
    ',' :: field "user-agent" userAgent ++
    ',' :: field "action" action ++
    ',' :: field "x-amz-algorithm" algorithm ++
    ',' :: field "x-amz-credential" (akidEsc ++ '/' :: scopeEsc) ++
    ',' :: field "x-amz-date" amzDate ++
    ',' :: field "x-amz-expires" expiresSeconds ++
    ',' :: field "x-amz-signedheaders" signedHeaders ++
    ',' :: field "x-amz-signature" (auth.signature d secs)
  let token := match auth.sessionToken with
    | some token => ',' :: field "x-amz-security-token" (jsonEscapeString token)
    | none => []
  Texts.utf8 (payload ++ token ++ ['}'])

def payloadMembers (secs : Nat) : List (Text × Text) :=
  [("version".toList, "2020_10_22".toList), ("host".toList, auth.host),
    ("user-agent".toList, userAgent), ("action".toList, action),
    ("x-amz-algorithm".toList, algorithm),
    ("x-amz-credential".toList,
      auth.accessKeyId ++ '/' :: auth.credentialScope (formatTimestamp secs).1),
    ("x-amz-date".toList, (formatTimestamp secs).2), ("x-amz-expires".toList, expiresSeconds),
    ("x-amz-signedheaders".toList, signedHeaders),
    ("x-amz-signature".toList, auth.signature d secs)] ++
  auth.sessionToken.toList.map (("x-amz-security-token".toList, ·))

variable {d auth}

/-! ## The payload as an object -/

theorem plain_padded (width : Nat) (n : Int) : ∀ c ∈ padded width n, Plain c := by
  have digits (n : Nat) : ∀ c ∈ Nat.toDigits 10 n, Plain c := by
    intro c held
    have digit := Nat.isDigit_of_mem_toDigits (by decide) (by decide) held
    simp only [Char.isDigit, Bool.and_eq_true, decide_eq_true_eq] at digit
    have low : 48 ≤ c.toNat := digit.1
    have high : c.toNat ≤ 57 := digit.2
    refine ⟨?_, ?_, by omega⟩ <;>
    · rintro rfl
      revert low high
      decide
  have zeros {w : Nat} {l : Text} (plain : ∀ c ∈ l, Plain c) : ∀ c ∈ l.leftpad w '0', Plain c := by
    intro c held
    rcases List.mem_append.mp held with zero | held
    · rw [(List.mem_replicate.mp zero).2]
      decide
    · exact plain c held
  cases n with
  | ofNat n => exact zeros (digits n)
  | negSucc =>
    intro c held
    rcases List.mem_cons.mp held with rfl | held
    · decide
    · exact zeros (digits _) c held

theorem plain_append {s t : Text} (left : ∀ c ∈ s, Plain c) (right : ∀ c ∈ t, Plain c) :
    ∀ c ∈ s ++ t, Plain c :=
  fun c held => (List.mem_append.mp held).elim (left c) (right c)

theorem plain_of_all {s : Text} (plain : s.all (Plain ·)) : ∀ c ∈ s, Plain c :=
  fun c held => of_decide_eq_true (List.all_eq_true.mp plain c held)

theorem plain_amzDate (secs : Nat) : ∀ c ∈ (formatTimestamp secs).2, Plain c := by
  refine plain_append (plain_append ?_ ?_) (plain_of_all (by decide))
  · exact plain_append (plain_append (plain_padded _ _) (plain_padded _ _)) (plain_padded _ _)
  · intro c held
    rcases List.mem_cons.mp held with rfl | held
    · decide
    · exact plain_append (plain_append (plain_padded _ _) (plain_padded _ _)) (plain_padded _ _)
        c held

theorem plain_hexEncode (bytes : Bytes) : ∀ c ∈ hexEncode bytes, Plain c := by
  have byte : ∀ k < 256, ((Nat.toDigits 16 k).leftpad 2 '0').all (Plain ·) := by
    decide +kernel
  intro c held
  obtain ⟨b, -, inside⟩ := List.mem_flatMap.mp held
  exact plain_of_all (byte b.toNat b.toNat_lt) c inside

theorem plain_signature (d : Digests) (auth : MskIamAuthenticator) (secs : Nat) :
    ∀ c ∈ auth.signature d secs, Plain c := plain_hexEncode _

theorem field_eq {name : String} {value v : Text} (plain : name.toList.all (Plain ·))
    (escaped : value = jsonEscapeString v) :
    field name value = Json.member jsonEscapeString (name.toList, v) := by
  rw [field, Json.member, jsonEscapeString_plain (plain_of_all plain), escaped]

theorem field_plain {name : String} {value : Text} (plain : name.toList.all (Plain ·))
    (plain_value : ∀ c ∈ value, Plain c) :
    field name value = Json.member jsonEscapeString (name.toList, value) :=
  field_eq plain (jsonEscapeString_plain plain_value).symm

theorem createAuthPayloadAt_eq (secs : Nat) :
    auth.createAuthPayloadAt d secs =
      Texts.utf8 (Json.object jsonEscapeString (auth.payloadMembers d secs)) := by
  have credential (scope : Text) :
      jsonEscapeString auth.accessKeyId ++ '/' :: jsonEscapeString scope =
        jsonEscapeString (auth.accessKeyId ++ '/' :: scope) := by
    rw [jsonEscapeString_append]
    rfl
  unfold createAuthPayloadAt payloadMembers
  dsimp only
  rw [credential, @field_plain "version" _ (by decide +kernel) (plain_of_all (by decide +kernel)),
    @field_eq "host" _ auth.host (by decide +kernel) rfl,
    @field_plain "user-agent" _ (by decide +kernel) (plain_of_all (by decide +kernel)),
    @field_plain "action" _ (by decide +kernel) (plain_of_all (by decide +kernel)),
    @field_plain "x-amz-algorithm" _ (by decide +kernel) (plain_of_all (by decide +kernel)),
    @field_eq "x-amz-credential" _ _ (by decide +kernel) rfl,
    @field_plain "x-amz-date" _ (by decide +kernel) (plain_amzDate secs),
    @field_plain "x-amz-expires" _ (by decide +kernel) (plain_of_all (by decide +kernel)),
    @field_plain "x-amz-signedheaders" _ (by decide +kernel) (plain_of_all (by decide +kernel)),
    @field_plain "x-amz-signature" _ (by decide +kernel) (plain_signature d auth secs)]
  cases auth.sessionToken with
  | none =>
    simp only [Json.object, Option.toList_none, List.map_nil, List.append_nil,
      Json.members, List.append_assoc, List.cons_append]
  | some token =>
    simp only [@field_eq "x-amz-security-token" _ token (by decide +kernel) rfl, Json.object,
      Option.toList_some, List.map_cons, List.map_nil, List.nil_append, Json.members,
      List.append_assoc, List.cons_append]

theorem payloadMembers_names (secs : Nat) : ((auth.payloadMembers d secs).map (·.1)).Nodup := by
  unfold payloadMembers
  cases auth.sessionToken with
  | none =>
    simp only [List.map_append, List.map_cons, List.map_nil, Option.toList_none]
    decide +kernel
  | some =>
    simp only [List.map_append, List.map_cons, List.map_nil, Option.toList_some]
    decide +kernel

end MskIamAuthenticator

end Krafka.Auth
