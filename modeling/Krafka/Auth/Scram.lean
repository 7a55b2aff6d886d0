import Krafka.Library.Runs
import Krafka.Record

/-! The SCRAM client: what it says to a server, what it reads from it, and the states it
passes through. Texts are the bytes of their UTF-8 form, on which `split`, `strip_prefix` and
`starts_with` act alike. -/

namespace Krafka.Auth

def utf8 (s : String) : Bytes := s.toUTF8.data.toList

def fromUtf8 (bytes : Bytes) : Option String := String.fromUTF8? ⟨bytes.toArray⟩

def stripPrefix : Bytes → Bytes → Option Bytes
  | [], text => some text
  | _ :: _, [] => none
  | a :: lead, b :: text => if a = b then stripPrefix lead text else none

theorem stripPrefix_eq_some {lead text rest : Bytes} :
    stripPrefix lead text = some rest ↔ text = lead ++ rest := by
  induction lead generalizing text with
  | nil => simp [stripPrefix]
  | cons a lead ih =>
    cases text with
    | nil => simp [stripPrefix]
    | cons b => by_cases same : a = b <;> simp [stripPrefix, same, ih, eq_comm]

def comma : UInt8 := 44

def parseU32 (text : Bytes) : Option Nat :=
  let digits := match text with
    | 43 :: rest => rest
    | _ => text
  if digits.isEmpty then none
  else digits.foldlM (fun n d =>
    if 48 ≤ d ∧ d ≤ 57 then
      let next := n * 10 + (d - 48).toNat
      if next < 2 ^ 32 then some next else none
    else none) 0

inductive ScramMechanism where
  | sha256 | sha512
  deriving DecidableEq

def ScramMechanism.hashLength : ScramMechanism → Nat
  | .sha256 => 32
  | .sha512 => 64

/-- HMAC, whose outputs have the mechanism's length, the hash, PBKDF2 and Base64. -/
structure Primitives where
  hmac (mechanism : ScramMechanism) (key data : Bytes) : Bytes
  hash (mechanism : ScramMechanism) (data : Bytes) : Bytes
  pbkdf2 (mechanism : ScramMechanism) (password salt : Bytes) (iterations : Nat) : Bytes
  encode (data : Bytes) : Bytes
  decode (text : Bytes) : Option Bytes
  length_hmac (mechanism : ScramMechanism) (key data : Bytes) :
    (hmac mechanism key data).length = mechanism.hashLength

def minPbkdf2Iterations : Nat := 4096

def maxPbkdf2Iterations : Nat := 1000000

def gs2Header : Bytes := utf8 "n,,"

inductive ScramState where
  | initial | waitingServerFirst | waitingServerFinal | complete | failed
  deriving DecidableEq

structure ScramClient where
  username : Bytes
  password : Bytes
  mechanism : ScramMechanism
  clientNonce : Bytes
  state : ScramState
  clientFirstBare : Bytes
  serverSignature : Option Bytes

def escapeUsername (username : Bytes) : Bytes :=
  (username.flatMap fun b => if b = 61 then utf8 "=3D" else [b]).flatMap
    fun b => if b = comma then utf8 "=2C" else [b]

def xorBytes (a b : Bytes) : Bytes := List.zipWith (· ^^^ ·) a b

theorem xorBytes_xorBytes {a b : Bytes} (same : a.length = b.length) :
    xorBytes (xorBytes a b) b = a := by
  induction a generalizing b with
  | nil => simp [xorBytes]
  | cons x a ih =>
    cases b with
    | nil => simp at same
    | cons =>
      have rest := ih (Nat.succ.inj same)
      simp only [xorBytes] at rest
      simp only [xorBytes, List.zipWith_cons_cons, rest, UInt8.xor_assoc, UInt8.xor_self,
        UInt8.xor_zero]

def constantTimeCompare (a b : Bytes) : Bool :=
  if a.length ≠ b.length then false else a == b

theorem constantTimeCompare_iff {a b : Bytes} : constantTimeCompare a b = true ↔ a = b := by
  unfold constantTimeCompare
  split
  case isTrue differ =>
    exact ⟨nofun, fun same => absurd (congrArg List.length same) differ⟩
  case isFalse => simp

structure Attributes where
  serverNonce : Option Bytes := none
  salt : Option Bytes := none
  iterationCount : Option Nat := none

def Attributes.read (p : Primitives) (found : Attributes) (part : Bytes) :
    Result Attributes :=
  match stripPrefix (utf8 "r=") part with
  | some value => .ok { found with serverNonce := some value }
  | none =>
    match stripPrefix (utf8 "s=") part with
    | some value =>
      match p.decode value with
      | none => .error (.auth "Invalid base64 salt in server-first")
      | some decoded => .ok { found with salt := some decoded }
    | none =>
      match stripPrefix (utf8 "i=") part with
      | some value =>
        match parseU32 value with
        | none => .error (.auth "Invalid iteration count in server-first")
        | some parsed => .ok { found with iterationCount := some parsed }
      | none => .ok found

structure Terms where
  serverNonce : Bytes
  salt : Bytes
  iterationCount : Nat

def serverError (message : Bytes) : Option Bytes :=
  (stripPrefix (utf8 "e=") message).or
    ((message.splitOn comma).findSome? (stripPrefix (utf8 "e=")))

def serverErrorText (error : Bytes) : KrafkaError :=
  .auth s!"SCRAM server error: {(fromUtf8 error).getD default}"

def Terms.check (clientNonce : Bytes) (found : Attributes) : Result Terms :=
  match found.serverNonce with
  | none => .error (.auth "Missing nonce in server-first")
  | some serverNonce =>
    match found.salt with
    | none => .error (.auth "Missing salt in server-first")
    | some salt =>
      match found.iterationCount with
      | none => .error (.auth "Missing iteration count in server-first")
      | some n =>
        if n < minPbkdf2Iterations then
          .error (.auth s!"PBKDF2 iteration count {n} is below minimum {minPbkdf2Iterations}")
        else if maxPbkdf2Iterations < n then
          .error (.auth s!"PBKDF2 iteration count {n} exceeds maximum {maxPbkdf2Iterations}")
        else if ¬ clientNonce.isPrefixOf serverNonce then
          .error (.auth "Server nonce doesn't contain client nonce")
        else if serverNonce.length ≤ clientNonce.length then
          .error (.auth ("Server nonce adds no server entropy: RFC 5802 §5.1 requires " ++
            "the server to append its own nonce to the client nonce"))
        else .ok ⟨serverNonce, salt, n⟩

/-- The part of `process_server_first` that reads the message: every error of it leaves the
exchange failed. -/
def readServerFirst (p : Primitives) (clientNonce serverFirst : Bytes) :
    Result Terms :=
  match fromUtf8 serverFirst with
  | none => .error (.auth "Invalid UTF-8 in server-first message")
  | some _ =>
    match serverError serverFirst with
    | some error => .error (serverErrorText error)
    | none =>
      match (serverFirst.splitOn comma).foldlM (Attributes.read p) {} with
      | .error e => .error e
      | .ok found => Terms.check clientNonce found

/-- How the wait for the blocking PBKDF2 task ends: the call may be dropped in it. -/
inductive Blocking where
  | finished
  | failed (reason : String)
  | dropped
  deriving DecidableEq

namespace ScramClient

def new (username password : Bytes) (mechanism : ScramMechanism) (clientNonce : Bytes) :
    ScramClient where
  username := username
  password := password
  mechanism := mechanism
  clientNonce := clientNonce
  state := .initial
  clientFirstBare := []
  serverSignature := none

variable (p : Primitives) (c : ScramClient)

def fail : ScramClient := { c with state := .failed }

def clientFirstMessage : Bytes × ScramClient :=
  let bare := utf8 "n=" ++ escapeUsername c.username ++ utf8 ",r=" ++ c.clientNonce
  (gs2Header ++ bare, { c with clientFirstBare := bare, state := .waitingServerFirst })

def saltedPassword (terms : Terms) : Bytes :=
  p.pbkdf2 c.mechanism c.password terms.salt terms.iterationCount

def computeClientKey (terms : Terms) : Bytes :=
  p.hmac c.mechanism (c.saltedPassword p terms) (utf8 "Client Key")

def computeServerKey (terms : Terms) : Bytes :=
  p.hmac c.mechanism (c.saltedPassword p terms) (utf8 "Server Key")

def storedKey (terms : Terms) : Bytes := p.hash c.mechanism (c.computeClientKey p terms)

def clientFinalWithoutProof (terms : Terms) : Bytes :=
  utf8 "c=" ++ p.encode gs2Header ++ utf8 ",r=" ++ terms.serverNonce

def authMessage (bare serverFirst : Bytes) (terms : Terms) : Bytes :=
  bare ++ utf8 "," ++ serverFirst ++ utf8 "," ++ clientFinalWithoutProof p terms

def clientProof (bare serverFirst : Bytes) (terms : Terms) : Bytes :=
  xorBytes (c.computeClientKey p terms)
    (p.hmac c.mechanism (c.storedKey p terms) (authMessage p bare serverFirst terms))

/-- `none`: the call was dropped before it returned. -/
def processServerFirst (serverFirst : Bytes) (task : Blocking) :
    Option (Result Bytes) × ScramClient :=
  if c.state ≠ .waitingServerFirst then
    (some (.error (.auth "Invalid SCRAM state: expected WaitingServerFirst")), c.fail)
  else
    match readServerFirst p c.clientNonce serverFirst with
    | .error e => (some (.error e), c.fail)
    | .ok terms =>
      match task with
      | .dropped => (none, c)
      | .failed reason => (some (.error (.auth s!"PBKDF2 computation failed: {reason}")), c.fail)
      | .finished =>
        let auth := authMessage p c.clientFirstBare serverFirst terms
        let proof := c.clientProof p c.clientFirstBare serverFirst terms
        (some (.ok (clientFinalWithoutProof p terms ++ utf8 ",p=" ++ p.encode proof)),
          { c with
            serverSignature := some (p.hmac c.mechanism (c.computeServerKey p terms) auth)
            state := .waitingServerFinal })

/-- The four errors that `?` returns leave the state as it is. -/
def verifyServerFinal (serverFinal : Bytes) : Result Unit × ScramClient :=
  if c.state ≠ .waitingServerFinal then
    (.error (.auth "Invalid SCRAM state: expected WaitingServerFinal"), c.fail)
  else
    match fromUtf8 serverFinal with
    | none => (.error (.auth "Invalid UTF-8 in server-final message"), c)
    | some _ =>
      match stripPrefix (utf8 "e=") serverFinal with
      | some error => (.error (serverErrorText error), c.fail)
      | none =>
        match stripPrefix (utf8 "v=") serverFinal with
        | none => (.error (.auth "Missing verifier in server-final"), c)
        | some verifier =>
          match p.decode verifier with
          | none => (.error (.auth "Invalid base64 in server-final verifier"), c)
          | some signature =>
            match c.serverSignature with
            | none => (.error (.auth "Server signature not computed"), c)
            | some expected =>
              if ¬ constantTimeCompare signature expected then
                (.error (.auth "Server signature verification failed"), c.fail)
              else (.ok (), { c with state := .complete })

end ScramClient

inductive Call where
  | clientFirst
  | serverFirst (message : Bytes) (task : Blocking)
  | serverFinal (message : Bytes)
  deriving DecidableEq

inductive Answer where
  | sent (clientFirst : Bytes)
  | replied (clientFinal : Bytes)
  | verified
  | error (e : KrafkaError)
  | dropped
  deriving DecidableEq

namespace Answer

def ofServerFirst : Option (Result Bytes) → Answer
  | none => .dropped
  | some (.error e) => .error e
  | some (.ok clientFinal) => .replied clientFinal

def ofServerFinal : Result Unit → Answer
  | .error e => .error e
  | .ok () => .verified

def IsErr : Answer → Prop
  | .error _ => True
  | _ => False

def IsOk : Answer → Prop
  | .replied _ | .verified => True
  | _ => False

end Answer

namespace ScramClient

variable (p : Primitives)

def respond (c : ScramClient) : Call → Answer × ScramClient
  | .clientFirst => (.sent c.clientFirstMessage.1, c.clientFirstMessage.2)
  | .serverFirst message task =>
    (.ofServerFirst (c.processServerFirst p message task).1,
      (c.processServerFirst p message task).2)
  | .serverFinal message =>
    (.ofServerFinal (c.verifyServerFinal p message).1, (c.verifyServerFinal p message).2)

def step (c : ScramClient) (call : Call) : ScramClient := (c.respond p call).2

def run (c : ScramClient) (calls : List Call) : ScramClient := calls.foldl (step p) c

def trace (c : ScramClient) : List Call → List (Call × Answer)
  | [] => []
  | call :: calls => (call, (c.respond p call).1) :: (c.step p call).trace calls

theorem trace_append (c : ScramClient) (calls more : List Call) :
    c.trace p (calls ++ more) = c.trace p calls ++ (c.run p calls).trace p more := by
  induction calls generalizing c with
  | nil => rfl
  | cons call calls ih => exact congrArg (_ :: ·) (ih (c.step p call))

theorem run_concat (c : ScramClient) (calls : List Call) (call : Call) :
    c.run p (calls ++ [call]) = (c.run p calls).step p call := by
  simp [run]

theorem trace_concat (c : ScramClient) (calls : List Call) (call : Call) :
    c.trace p (calls ++ [call]) =
      c.trace p calls ++ [(call, ((c.run p calls).respond p call).1)] := by
  rw [trace_append]
  rfl

end ScramClient

end Krafka.Auth
