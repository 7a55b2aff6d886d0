import Krafka.Http.Request
import Krafka.Library.Encodings
import Krafka.Record

/-! The request for a token: its form, the header with the client's credentials, and what the
endpoint reads of both. -/

namespace Krafka.Http

def alpha : Text :=
  "ABCDEFGHIJKLMNOPQRSTUVWXYZabcdefghijklmnopqrstuvwxyz0123456789+/".toList

def base64Chunk (b0 : UInt8) (b1 b2 : Option UInt8) : Text :=
  let n := (b0.toNat <<< 16) ||| ((b1.getD 0).toNat <<< 8) ||| (b2.getD 0).toNat
  [alpha.getD ((n >>> 18) &&& 63) '=', alpha.getD ((n >>> 12) &&& 63) '=',
    if b1.isSome then alpha.getD ((n >>> 6) &&& 63) '=' else '=',
    if b2.isSome then alpha.getD (n &&& 63) '=' else '=']

def base64Encode : Bytes → Text
  | [] => []
  | [b0] => base64Chunk b0 none none
  | [b0, b1] => base64Chunk b0 b1 none
  | b0 :: b1 :: b2 :: input => base64Chunk b0 b1 b2 ++ base64Encode input

theorem packed_eq {a b c : Nat} (hb : b < 256) (hc : c < 256) :
    (a <<< 16) ||| (b <<< 8) ||| c = a * 65536 + b * 256 + c := by
  have high : b <<< 8 < 2 ^ 16 := by
    rw [Nat.shiftLeft_eq]
    omega
  have low : (a <<< 16) + (b <<< 8) = (a * 256 + b) <<< 8 := by
    simp only [Nat.shiftLeft_eq]
    omega
  rw [← Nat.shiftLeft_add_eq_or_of_lt high, low, ← Nat.shiftLeft_add_eq_or_of_lt hc,
    Nat.shiftLeft_eq]
  omega

theorem base64Chunk_eq (b0 : UInt8) (b1 b2 : Option UInt8) :
    base64Chunk b0 b1 b2 =
      [Base64.letter (b0.toNat / 4), Base64.letter (b0.toNat % 4 * 16 + (b1.getD 0).toNat / 16),
        if b1.isSome then Base64.letter ((b1.getD 0).toNat % 16 * 4 + (b2.getD 0).toNat / 64)
          else '=',
        if b2.isSome then Base64.letter ((b2.getD 0).toNat % 64) else '='] := by
  have h0 := b0.toNat_lt
  have h1 := (b1.getD 0).toNat_lt
  have h2 := (b2.getD 0).toNat_lt
  have six (n : Nat) : n &&& 63 = n % 64 := Nat.and_two_pow_sub_one_eq_mod n 6
  unfold base64Chunk
  rw [packed_eq h1 h2]
  generalize b0.toNat = a at *
  generalize (b1.getD 0).toNat = b at *
  generalize (b2.getD 0).toNat = c at *
  simp only [six, Nat.shiftRight_eq_div_pow]
  have first : (a * 65536 + b * 256 + c) / 2 ^ 18 % 64 = a / 4 := by omega
  have second : (a * 65536 + b * 256 + c) / 2 ^ 12 % 64 = a % 4 * 16 + b / 16 := by omega
  have third : (a * 65536 + b * 256 + c) / 2 ^ 6 % 64 = b % 16 * 4 + c / 64 := by omega
  have fourth : (a * 65536 + b * 256 + c) % 64 = c % 64 := by omega
  rw [first, second, third, fourth]
  rfl

theorem decode?_base64Encode (input : Bytes) :
    Base64.decode? (base64Encode input) = some input := by
  fun_induction base64Encode input with
  | case1 => rfl
  | case2 b0 =>
    rw [base64Chunk_eq]
    exact (Base64.decode?_one b0.toNat_lt).trans (by simp)
  | case3 b0 b1 =>
    rw [base64Chunk_eq]
    exact (Base64.decode?_two b0.toNat_lt b1.toNat_lt).trans (by simp)
  | case4 b0 b1 b2 input ih =>
    rw [base64Chunk_eq]
    have read := Base64.decode?_three b0.toNat_lt b1.toNat_lt b2.toNat_lt (base64Encode input)
    rw [ih] at read
    refine read.trans ?_
    simp

end Krafka.Http

namespace Krafka.Auth

open Http (base64Encode decode?_base64Encode)

/-! ## Form encoding -/

def isUnreserved (byte : UInt8) : Bool :=
  (65 ≤ byte && byte ≤ 90) || (97 ≤ byte && byte ≤ 122) || (48 ≤ byte && byte ≤ 57) ||
    byte == 45 || byte == 46 || byte == 95 || byte == 126

def formUrlencodedLen (value : Http.Text) : Nat :=
  ((Texts.utf8 value).map fun b => if isUnreserved b || b == 32 then 1 else 3).sum

def hexDigits : Http.Text := "0123456789ABCDEF".toList

def formUrlencodeByte (byte : UInt8) : Http.Text :=
  if isUnreserved byte then [Char.ofNat byte.toNat]
  else if byte == 32 then ['+']
  else ['%', hexDigits.getD (byte >>> 4).toNat '0', hexDigits.getD (byte &&& 0x0F).toNat '0']

def formUrlencodeInto (out value : Http.Text) : Http.Text :=
  (Texts.utf8 value).foldl (fun out byte => out ++ formUrlencodeByte byte) out

def formCapacity (pairs : List (Http.Text × Http.Text)) : Nat :=
  (pairs.map fun (k, v) => formUrlencodedLen k + 1 + formUrlencodedLen v).sum + (pairs.length - 1)

def encodeForm (pairs : List (Http.Text × Http.Text)) : Http.Text :=
  pairs.zipIdx.foldl (fun form ((key, value), i) =>
    let form := if 0 < i then form ++ ['&'] else form
    let form := formUrlencodeInto form key ++ ['=']
    formUrlencodeInto form value) []

def formUrlencode (value : Http.Text) : Http.Text := formUrlencodeInto [] value

theorem formUrlencode_eq (value : Http.Text) :
    formUrlencode value = (Texts.utf8 value).flatMap formUrlencodeByte :=
  List.flatMap_eq_foldl.symm

theorem formUrlencodeInto_eq (out value : Http.Text) :
    formUrlencodeInto out value = out ++ formUrlencode value := by
  rw [formUrlencode_eq, formUrlencodeInto, List.foldl_append_eq_append, List.flatMap_def]

theorem encodeForm_eq (pairs : List (Http.Text × Http.Text)) : encodeForm pairs =
    ['&'].intercalate
      (pairs.map fun (key, value) => formUrlencode key ++ '=' :: formUrlencode value) := by
  -- from the second pair on there is an ampersand in front
  have later (pairs : List (Http.Text × Http.Text)) (i : Nat) (form : Http.Text) :
      (pairs.zipIdx (i + 1)).foldl (fun form ((key, value), i) =>
        let form := if 0 < i then form ++ ['&'] else form
        let form := formUrlencodeInto form key ++ ['=']
        formUrlencodeInto form value) form =
      form ++ (pairs.map fun (key, value) =>
        formUrlencode key ++ '=' :: formUrlencode value).flatMap ('&' :: ·) := by
    induction pairs generalizing i form with
    | nil => simp
    | cons pair pairs ih =>
      rw [List.zipIdx_cons, List.foldl_cons, ih]
      simp [formUrlencodeInto_eq]
  cases pairs with
  | nil => rfl
  | cons =>
    rw [encodeForm, List.zipIdx_cons, List.foldl_cons, later, List.map_cons,
      Texts.intercalate_cons]
    simp [formUrlencodeInto_eq]

/-! ## What is read of it -/

theorem formUrlencodeByte_spec (byte : UInt8) :
    (formUrlencodeByte byte).all (fun c => c ≠ '&' ∧ c ≠ '=' ∧ c ≠ ':') ∧
      (Texts.utf8 (formUrlencodeByte byte)).length =
        if isUnreserved byte || byte == 32 then 1 else 3 := by
  have every : ∀ b : Fin 256,
      (formUrlencodeByte (.ofFin b)).all (fun c => c ≠ '&' ∧ c ≠ '=' ∧ c ≠ ':') ∧
        (Texts.utf8 (formUrlencodeByte (.ofFin b))).length =
          if isUnreserved (.ofFin b) || UInt8.ofFin b == 32 then 1 else 3 := by decide +kernel
  exact every byte.toFin

theorem unreserved_spec {byte : UInt8} (plain : isUnreserved byte) :
    Char.ofNat byte.toNat ≠ '%' ∧ Char.ofNat byte.toNat ≠ '+' ∧
      String.utf8EncodeChar (Char.ofNat byte.toNat) = [byte] := by
  have every : ∀ b : Fin 256, isUnreserved (.ofFin b) → Char.ofNat b ≠ '%' ∧ Char.ofNat b ≠ '+' ∧
      String.utf8EncodeChar (Char.ofNat b) = [UInt8.ofFin b] := by decide +kernel
  exact every byte.toFin plain

theorem hexDigits_spec (byte : UInt8) :
    Texts.digit? 16 (hexDigits.getD (byte >>> 4).toNat '0') = some (byte.toNat / 16) ∧
      Texts.digit? 16 (hexDigits.getD (byte &&& 0x0F).toNat '0') = some (byte.toNat % 16) := by
  have every : ∀ b : Fin 256,
      Texts.digit? 16 (hexDigits.getD (UInt8.ofFin b >>> 4).toNat '0') = some (b / 16 : Nat) ∧
        Texts.digit? 16 (hexDigits.getD (UInt8.ofFin b &&& 0x0F).toNat '0') =
          some (b % 16 : Nat) := by decide +kernel
  exact every byte.toFin

theorem decode?_formUrlencodeByte (byte : UInt8) (rest : Http.Text) :
    Form.decode? (formUrlencodeByte byte ++ rest) = (Form.decode? rest).map (byte :: ·) := by
  unfold formUrlencodeByte
  split_ifs with plain space
  · obtain ⟨other, other', same⟩ := unreserved_spec plain
    refine (Form.decode?_cons other rest).trans ?_
    rw [if_neg other', same]
    rfl
  · obtain rfl := eq_of_beq space
    exact Form.decode?_cons (by decide) rest
  · obtain ⟨high, low⟩ := hexDigits_spec byte
    simp only [List.cons_append, List.nil_append, Form.decode?, high, low, Option.bind_eq_bind,
      Option.bind_some, Nat.div_add_mod', UInt8.ofNat_toNat]

theorem decode?_formUrlencode (value : Http.Text) :
    Form.decode? (formUrlencode value) = some (Texts.utf8 value) := by
  rw [formUrlencode_eq]
  induction Texts.utf8 value with
  | nil => rfl
  | cons byte bytes ih => rw [List.flatMap_cons, decode?_formUrlencodeByte, ih, Option.map_some]

theorem notMem_formUrlencode {c : Char} (separates : c = '&' ∨ c = '=' ∨ c = ':')
    (value : Http.Text) : c ∉ formUrlencode value := by
  intro held
  rw [formUrlencode_eq] at held
  obtain ⟨byte, -, held⟩ := List.mem_flatMap.mp held
  have plain := of_decide_eq_true (List.all_eq_true.mp (formUrlencodeByte_spec byte).1 c held)
  tauto

theorem length_formUrlencode (value : Http.Text) :
    (Texts.utf8 (formUrlencode value)).length = formUrlencodedLen value := by
  rw [formUrlencode_eq, formUrlencodedLen]
  induction Texts.utf8 value with
  | nil => rfl
  | cons byte bytes ih =>
    rw [List.flatMap_cons, Texts.utf8_append, List.length_append, ih,
      (formUrlencodeByte_spec byte).2, List.map_cons, List.sum_cons]

theorem length_encodeForm (pairs : List (Http.Text × Http.Text)) :
    (Texts.utf8 (encodeForm pairs)).length = formCapacity pairs := by
  have one {c : Char} (ascii : (String.utf8EncodeChar c).length = 1) (text : Http.Text) :
      (Texts.utf8 (c :: text)).length = 1 + (Texts.utf8 text).length := by
    rw [Texts.utf8, List.flatMap_cons, List.length_append, ascii]
    rfl
  have field (pair : Http.Text × Http.Text) :
      (Texts.utf8 (formUrlencode pair.1 ++ '=' :: formUrlencode pair.2)).length =
        formUrlencodedLen pair.1 + 1 + formUrlencodedLen pair.2 := by
    rw [Texts.utf8_append, List.length_append, one rfl, length_formUrlencode,
      length_formUrlencode, Nat.add_assoc]
  have later (pairs : List (Http.Text × Http.Text)) :
      (Texts.utf8 ((pairs.map fun (key, value) =>
        formUrlencode key ++ '=' :: formUrlencode value).flatMap ('&' :: ·))).length =
      (pairs.map fun (k, v) => formUrlencodedLen k + 1 + formUrlencodedLen v).sum +
        pairs.length := by
    induction pairs with
    | nil => rfl
    | cons pair pairs ih =>
      rw [List.map_cons, List.flatMap_cons, Texts.utf8_append, List.length_append, ih, one rfl,
        field, List.map_cons, List.sum_cons, List.length_cons]
      dsimp only
      omega
  rw [encodeForm_eq]
  cases pairs with
  | nil => rfl
  | cons =>
    rw [List.map_cons, Texts.intercalate_cons, Texts.utf8_append, List.length_append, field, later,
      formCapacity, List.map_cons, List.sum_cons, List.length_cons]
    dsimp only
    omega

/-! ## The request -/

inductive ClientCredentials where
  | secret (clientId clientSecret : Http.Text)
  | assertion (source : Result Http.Text)

structure OidcTokenProvider where
  credentials : ClientCredentials
  clientId : Option Http.Text := none
  scope : Option Http.Text := none
  formParameters : List (Http.Text × Http.Text) := []

def jwtBearerAssertionType : String := "urn:ietf:params:oauth:client-assertion-type:jwt-bearer"

def basicHeader (clientId clientSecret : Http.Text) : Http.Text :=
  let raw := formUrlencodeInto [] clientId
  let raw := raw ++ [':']
  let raw := formUrlencodeInto raw clientSecret
  "Basic ".toList ++ base64Encode (Texts.utf8 raw)

def OidcTokenProvider.buildRequest (provider : OidcTokenProvider) :
    Result (Http.Text × Option Http.Text) := do
  let pairs := [("grant_type".toList, "client_credentials".toList)]
  let (pairs, authHeader) ← match provider.credentials with
    | .secret clientId clientSecret => .ok (pairs, some (basicHeader clientId clientSecret))
    | .assertion source => do
      let jwt ← source
      .ok (pairs ++ [("client_assertion_type".toList, jwtBearerAssertionType.toList),
        ("client_assertion".toList, jwt)], none)
  let pairs := pairs ++ provider.clientId.toList.map (("client_id".toList, ·)) ++
    provider.scope.toList.map (("scope".toList, ·)) ++ provider.formParameters
  .ok (encodeForm pairs, authHeader)

theorem utf8_injective : Function.Injective Texts.utf8 := fun text text' same =>
  Option.some.inj <| (Texts.fromUtf8?_utf8 text).symm.trans
    ((congrArg Texts.fromUtf8? same).trans (Texts.fromUtf8?_utf8 text'))

theorem formUrlencode_injective : Function.Injective formUrlencode := by
  intro value value' same
  have read := congrArg Form.decode? same
  rw [decode?_formUrlencode, decode?_formUrlencode] at read
  exact utf8_injective (Option.some.inj read)

theorem basicHeader_injective {clientId clientId' clientSecret clientSecret' : Http.Text}
    (same : basicHeader clientId clientSecret = basicHeader clientId' clientSecret') :
    clientId = clientId' ∧ clientSecret = clientSecret' := by
  have encoded := congrArg Base64.decode? (List.append_cancel_left same)
  rw [decode?_base64Encode, decode?_base64Encode] at encoded
  have raw := congrArg (Texts.splitOnce ':') (utf8_injective (Option.some.inj encoded))
  have plain (value : Http.Text) : ':' ∉ formUrlencode value :=
    notMem_formUrlencode (.inr (.inr rfl)) value
  simp only [formUrlencodeInto_eq, List.nil_append, List.append_assoc, List.singleton_append,
    Texts.splitOnce_append (plain _), Option.some.injEq, Prod.mk.injEq] at raw
  exact ⟨formUrlencode_injective raw.1, formUrlencode_injective raw.2⟩

/-- The form is read as the pairs it was made of and fills its buffer, Base64 is read as what was
encoded, and a request's header is no other client's. -/
theorem token_requests_are_exact :
    (∀ pairs : List (Http.Text × Http.Text), pairs ≠ [] →
      Form.parse? (encodeForm pairs) = some pairs ∧
        (Texts.utf8 (encodeForm pairs)).length = formCapacity pairs) ∧
    (∀ input : Bytes, Base64.decode? (base64Encode input) = some input) ∧
    ∀ (provider provider' : OidcTokenProvider)
      (clientId clientSecret clientId' clientSecret' : Http.Text),
      provider.credentials = .secret clientId clientSecret →
      provider'.credentials = .secret clientId' clientSecret' →
      provider.buildRequest.map (·.2) = provider'.buildRequest.map (·.2) →
      clientId = clientId' ∧ clientSecret = clientSecret' := by
  refine ⟨fun pairs some_pair => ⟨?_, length_encodeForm pairs⟩, decode?_base64Encode, ?_⟩
  · rw [encodeForm_eq]
    exact Form.parse?_intercalate decode?_formUrlencode
      (notMem_formUrlencode (.inr (.inl rfl))) (notMem_formUrlencode (.inl rfl)) some_pair
  · rintro ⟨_, _, _, _⟩ ⟨_, _, _, _⟩ clientId clientSecret clientId' clientSecret' rfl rfl same
    exact basicHeader_injective (Option.some.inj (Except.ok.inj same))

end Krafka.Auth
