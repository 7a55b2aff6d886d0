import Krafka.Auth.Scram
import Krafka.Auth.TokenRequest
import Mathlib.Data.UInt

/-! Whole exchanges of the SCRAM client with a server that may send anything: what it takes
to complete one, and what becomes of one that failed. -/

namespace Krafka.Auth

/-- What RFC 5802 has a server check that holds the stored key of the account. -/
def Primitives.Accepts (p : Primitives) (mechanism : ScramMechanism)
    (storedKey authMessage proof : Bytes) : Prop :=
  p.hash mechanism (xorBytes proof (p.hmac mechanism storedKey authMessage)) = storedKey

section Reading

variable {p : Primitives}

structure Attributes.From (p : Primitives) (parts : List Bytes) (found : Attributes) : Prop where
  serverNonce : ∀ value ∈ found.serverNonce, utf8 "r=" ++ value ∈ parts
  salt : ∀ salt ∈ found.salt, ∃ value, utf8 "s=" ++ value ∈ parts ∧ p.decode value = some salt
  iterationCount : ∀ n ∈ found.iterationCount,
    ∃ value, utf8 "i=" ++ value ∈ parts ∧ parseU32 value = some n

theorem Attributes.From.read {parts : List Bytes} {part : Bytes} {found next : Attributes}
    (h : found.From p parts) (member : part ∈ parts) (read : found.read p part = .ok next) :
    next.From p parts := by
  unfold Attributes.read at read
  split at read
  case h_1 value named =>
    cases read
    rw [stripPrefix_eq_some] at named
    exact { h with serverNonce := fun _ same => by cases same; exact named ▸ member }
  case h_2 =>
    split at read
    case h_1 value named =>
      rw [stripPrefix_eq_some] at named
      split at read
      case h_1 => cases read
      case h_2 decoded is =>
        cases read
        exact { h with salt := fun _ same => by cases same; exact ⟨value, named ▸ member, is⟩ }
    case h_2 =>
      split at read
      case h_1 value named =>
        rw [stripPrefix_eq_some] at named
        split at read
        case h_1 => cases read
        case h_2 parsed is =>
          cases read
          exact { h with
            iterationCount := fun _ same => by cases same; exact ⟨value, named ▸ member, is⟩ }
      case h_2 =>
        cases read
        exact h

theorem Attributes.From.foldlM {parts rest : List Bytes} {found last : Attributes}
    (h : found.From p parts) (members : rest ⊆ parts)
    (read : rest.foldlM (Attributes.read p) found = .ok last) : last.From p parts := by
  induction rest generalizing found with
  | nil =>
    cases read
    exact h
  | cons part rest ih =>
    rw [List.foldlM_cons] at read
    cases one : found.read p part with
    | error =>
      rw [one] at read
      cases read
    | ok =>
      rw [one] at read
      rw [List.cons_subset] at members
      exact ih (h.read members.1 one) members.2 read

structure Terms.Offered (p : Primitives) (clientNonce serverFirst : Bytes) (terms : Terms) :
    Prop where
  serverNonce : utf8 "r=" ++ terms.serverNonce ∈ serverFirst.splitOn comma
  extends_client : clientNonce <+: terms.serverNonce
  longer : clientNonce.length < terms.serverNonce.length
  salt : ∃ value, utf8 "s=" ++ value ∈ serverFirst.splitOn comma ∧
    p.decode value = some terms.salt
  iterationCount : ∃ value, utf8 "i=" ++ value ∈ serverFirst.splitOn comma ∧
    parseU32 value = some terms.iterationCount
  enough : minPbkdf2Iterations ≤ terms.iterationCount
  bounded : terms.iterationCount ≤ maxPbkdf2Iterations

theorem Terms.offered_of_check {clientNonce serverFirst : Bytes} {found : Attributes}
    {terms : Terms} (h : found.From p (serverFirst.splitOn comma))
    (checked : Terms.check clientNonce found = .ok terms) :
    terms.Offered p clientNonce serverFirst := by
  unfold Terms.check at checked
  split at checked
  case h_1 => cases checked
  case h_2 nonce hasNonce =>
    split at checked
    case h_1 => cases checked
    case h_2 salt hasSalt =>
      split at checked
      case h_1 => cases checked
      case h_2 n hasCount =>
        split at checked
        case isTrue => cases checked
        case isFalse enough =>
        split at checked
        case isTrue => cases checked
        case isFalse bounded =>
        split at checked
        case isTrue => cases checked
        case isFalse extended =>
        split at checked
        case isTrue => cases checked
        case isFalse longer =>
          cases checked
          exact
            { serverNonce := h.serverNonce nonce hasNonce
              extends_client := List.isPrefixOf_iff_prefix.mp (not_not.mp extended)
              longer := Nat.lt_of_not_le longer
              salt := h.salt salt hasSalt
              iterationCount := h.iterationCount n hasCount
              enough := Nat.le_of_not_lt enough
              bounded := Nat.le_of_not_lt bounded }

theorem offered_of_readServerFirst {clientNonce serverFirst : Bytes} {terms : Terms}
    (read : readServerFirst p clientNonce serverFirst = .ok terms) :
    terms.Offered p clientNonce serverFirst := by
  unfold readServerFirst at read
  split at read
  case h_1 => cases read
  case h_2 =>
    split at read
    case h_1 => cases read
    case h_2 =>
      split at read
      case h_1 => cases read
      case h_2 found parsed =>
        have empty : Attributes.From p (serverFirst.splitOn comma) {} := ⟨nofun, nofun, nofun⟩
        exact Terms.offered_of_check (empty.foldlM (List.Subset.refl _) parsed) read

end Reading

theorem Answer.IsErr.not_isOk {answer : Answer} (h : answer.IsErr) : ¬ answer.IsOk := by
  cases answer with
  | error => exact id
  | _ => exact h.elim

namespace ScramClient

variable {p : Primitives} {c : ScramClient}

theorem accepts_clientProof (bare serverFirst : Bytes) (terms : Terms) :
    p.Accepts c.mechanism (c.storedKey p terms) (authMessage p bare serverFirst terms)
      (c.clientProof p bare serverFirst terms) := by
  unfold Primitives.Accepts clientProof
  rw [xorBytes_xorBytes]
  · rfl
  · rw [computeClientKey, p.length_hmac, p.length_hmac]

/-! ## What one call does -/

inductive ServerFirstTurn (p : Primitives) (c : ScramClient) (message : Bytes) :
    Option (Result Bytes) × ScramClient → Prop where
  | refused (e : KrafkaError) : ServerFirstTurn p c message (some (.error e), c.fail)
  | dropped (waiting : c.state = .waitingServerFirst) : ServerFirstTurn p c message (none, c)
  | replied (terms : Terms) (waiting : c.state = .waitingServerFirst)
      (offered : terms.Offered p c.clientNonce message) :
      ServerFirstTurn p c message
        (some (.ok (clientFinalWithoutProof p terms ++ utf8 ",p=" ++
            p.encode (c.clientProof p c.clientFirstBare message terms))),
          { c with
            serverSignature := some (p.hmac c.mechanism (c.computeServerKey p terms)
              (authMessage p c.clientFirstBare message terms))
            state := .waitingServerFinal })

theorem serverFirstTurn (message : Bytes) (task : Blocking) :
    ServerFirstTurn p c message (c.processServerFirst p message task) := by
  unfold processServerFirst
  split
  case isTrue => exact .refused _
  case isFalse waiting =>
    split
    case h_1 e _ => exact .refused e
    case h_2 terms read =>
      cases task with
      | dropped => exact .dropped (not_not.mp waiting)
      | failed => exact .refused _
      | finished => exact .replied terms (not_not.mp waiting) (offered_of_readServerFirst read)

def Legible (p : Primitives) (message : Bytes) : Prop :=
  (fromUtf8 message).isSome ∧
    ((stripPrefix (utf8 "e=") message).isSome ∨
      ((stripPrefix (utf8 "v=") message).bind p.decode).isSome)

instance {message : Bytes} : Decidable (Legible p message) := by
  unfold Legible
  infer_instance

inductive ServerFinalTurn (p : Primitives) (c : ScramClient) (message : Bytes) :
    Result Unit × ScramClient → Prop where
  | refused (e : KrafkaError) : ServerFinalTurn p c message (.error e, c.fail)
  | ignored (e : KrafkaError) (waiting : c.state = .waitingServerFinal)
      (illegible : Legible p message → c.serverSignature = none) :
      ServerFinalTurn p c message (.error e, c)
  | verified (verifier signature : Bytes) (waiting : c.state = .waitingServerFinal)
      (carries : message = utf8 "v=" ++ verifier) (decodes : p.decode verifier = some signature)
      (expected : c.serverSignature = some signature) :
      ServerFinalTurn p c message (.ok (), { c with state := .complete })

theorem serverFinalTurn (message : Bytes) :
    ServerFinalTurn p c message (c.verifyServerFinal p message) := by
  unfold verifyServerFinal
  split
  case isTrue => exact .refused _
  case isFalse waiting =>
  replace waiting := not_not.mp waiting
  split
  case h_1 invalid => exact .ignored _ waiting fun legible => by simp [Legible, invalid] at legible
  case h_2 =>
  split
  case h_1 => exact .refused _
  case h_2 noError =>
  split
  case h_1 missing =>
    exact .ignored _ waiting fun legible => by simp [Legible, noError, missing] at legible
  case h_2 verifier named =>
  split
  case h_1 invalid =>
    exact .ignored _ waiting fun legible => by simp [Legible, noError, named, invalid] at legible
  case h_2 signature decodes =>
  split
  case h_1 absent => exact .ignored _ waiting fun _ => absent
  case h_2 expected present =>
  split
  case isTrue => exact .refused _
  case isFalse same =>
    have same := constantTimeCompare_iff.mp (not_not.mp same)
    exact .verified verifier signature waiting (stripPrefix_eq_some.mp named) decodes
      (same ▸ present)

/-! ## Completing an exchange -/

def firstBare (c : ScramClient) : Bytes :=
  utf8 "n=" ++ escapeUsername c.username ++ utf8 ",r=" ++ c.clientNonce

def Opened (c : ScramClient) (log : List (Call × Answer)) : Prop :=
  ∃ before dropped, log = before ++ (.clientFirst, .sent (gs2Header ++ c.firstBare)) :: dropped ∧
    ∀ entry ∈ dropped, entry.2 = .dropped

/-- The reply to a server-first message: the message offers the terms, and a server that
holds the stored key accepts the proof. -/
structure Replied (p : Primitives) (c : ScramClient) (serverFirst clientFinal : Bytes)
    (terms : Terms) : Prop where
  offered : terms.Offered p c.clientNonce serverFirst
  proved : ∃ proof, clientFinal = clientFinalWithoutProof p terms ++ utf8 ",p=" ++ p.encode proof ∧
    p.Accepts c.mechanism (c.storedKey p terms) (authMessage p c.firstBare serverFirst terms) proof

def Challenged (p : Primitives) (c : ScramClient) (log : List (Call × Answer))
    (serverFirst : Bytes) (terms : Terms) : Prop :=
  ∃ opened task clientFinal errors,
    log = opened ++ (.serverFirst serverFirst task, .replied clientFinal) :: errors ∧
    c.Opened opened ∧ c.Replied p serverFirst clientFinal terms ∧
    ∀ entry ∈ errors, ∃ message e, entry = (.serverFinal message, .error e)

/-- The log ends in the server-final message whose verifier is the server's signature of the
messages of the exchange. -/
def Authenticated (p : Primitives) (c : ScramClient) (log : List (Call × Answer)) : Prop :=
  ∃ challenged serverFirst terms verifier,
    log = challenged ++ [(.serverFinal (utf8 "v=" ++ verifier), .verified)] ∧
    c.Challenged p challenged serverFirst terms ∧
    p.decode verifier = some (p.hmac c.mechanism (c.computeServerKey p terms)
      (authMessage p c.firstBare serverFirst terms))

structure Told (p : Primitives) (start c : ScramClient) (log : List (Call × Answer)) : Prop where
  same : ∃ state bare signature,
    c = { start with state := state, clientFirstBare := bare, serverSignature := signature }
  replies : ∀ serverFirst task clientFinal,
    (Call.serverFirst serverFirst task, Answer.replied clientFinal) ∈ log →
      ∃ terms, start.Replied p serverFirst clientFinal terms
  first : c.state = .waitingServerFirst → c.clientFirstBare = start.firstBare ∧ start.Opened log
  final : c.state = .waitingServerFinal → ∃ serverFirst terms,
    start.Challenged p log serverFirst terms ∧
    c.serverSignature = some (p.hmac start.mechanism (start.computeServerKey p terms)
      (authMessage p start.firstBare serverFirst terms))
  complete : c.state = .complete → start.Authenticated p log

variable {start : ScramClient} {log : List (Call × Answer)}

variable {call : Call}

theorem Told.replies_concat (h : Told p start c log) {answer : Answer}
    (other : ∀ clientFinal, answer ≠ .replied clientFinal) (serverFirst : Bytes) (task : Blocking)
    (clientFinal : Bytes)
    (member : (Call.serverFirst serverFirst task, Answer.replied clientFinal) ∈
      log ++ [(call, answer)]) : ∃ terms, start.Replied p serverFirst clientFinal terms := by
  rcases List.mem_append.mp member with old | new
  · exact h.replies _ _ _ old
  · rw [List.mem_singleton, Prod.mk.injEq] at new
    exact absurd new.2.symm (other clientFinal)

theorem Told.fail (h : Told p start c log) (e : KrafkaError) :
    Told p start c.fail (log ++ [(call, .error e)]) where
  same := by
    obtain ⟨_, bare, signature, rfl⟩ := h.same
    exact ⟨_, bare, signature, rfl⟩
  replies := h.replies_concat nofun
  first := nofun
  final := nofun
  complete := nofun

theorem Told.clientFirst (h : Told p start c log) :
    Told p start c.clientFirstMessage.2
      (log ++ [(.clientFirst, .sent c.clientFirstMessage.1)]) := by
  obtain ⟨_, _, signature, rfl⟩ := h.same
  exact
    { same := ⟨_, _, signature, rfl⟩
      replies := h.replies_concat nofun
      first := fun _ => ⟨rfl, log, [], rfl, List.forall_mem_nil _⟩
      final := nofun
      complete := nofun }

theorem Opened.concat (h : start.Opened log) (call : Call) :
    start.Opened (log ++ [(call, .dropped)]) := by
  obtain ⟨before, dropped, rfl, all⟩ := h
  refine ⟨before, dropped ++ [(call, .dropped)], by simp, fun entry member => ?_⟩
  rcases List.mem_append.mp member with old | new
  · exact all entry old
  · rw [List.mem_singleton.mp new]

theorem Challenged.concat {serverFirst : Bytes} {terms : Terms}
    (h : start.Challenged p log serverFirst terms) (message : Bytes) (e : KrafkaError) :
    start.Challenged p (log ++ [(.serverFinal message, .error e)]) serverFirst terms := by
  obtain ⟨opened, task, clientFinal, errors, rfl, opens, replied, all⟩ := h
  refine ⟨opened, task, clientFinal, errors ++ [(.serverFinal message, .error e)], by simp, opens,
    replied, fun entry member => ?_⟩
  rcases List.mem_append.mp member with old | new
  · exact all entry old
  · exact ⟨message, e, List.mem_singleton.mp new⟩

theorem Told.serverFirst (h : Told p start c log) (message : Bytes) (task : Blocking) :
    Told p start (c.processServerFirst p message task).2
      (log ++ [(.serverFirst message task,
        .ofServerFirst (c.processServerFirst p message task).1)]) := by
  have turn := c.serverFirstTurn (p := p) message task
  generalize c.processServerFirst p message task = outcome at turn
  cases turn with
  | refused e => exact h.fail e
  | dropped waiting =>
    exact
      { same := h.same
        replies := h.replies_concat nofun
        first := fun _ => ⟨(h.first waiting).1, (h.first waiting).2.concat _⟩
        final := fun other => nomatch waiting.symm.trans other
        complete := fun other => nomatch waiting.symm.trans other }
  | replied terms waiting offered =>
    obtain ⟨bare, opened⟩ := h.first waiting
    obtain ⟨_, _, signature, rfl⟩ := h.same
    -- The bare client-first message kept in the client is the one of the opening call.
    cases bare
    have replied : start.Replied p message _ terms :=
      ⟨offered, start.clientProof p start.firstBare message terms, rfl,
        accepts_clientProof start.firstBare message terms⟩
    exact
      { same := ⟨_, _, _, rfl⟩
        replies := fun serverFirst task' clientFinal member => by
          rcases List.mem_append.mp member with old | new
          · exact h.replies _ _ _ old
          · cases List.mem_singleton.mp new
            exact ⟨terms, replied⟩
        first := nofun
        final := fun _ => ⟨message, terms,
          ⟨log, task, _, [], rfl, opened, replied, List.forall_mem_nil _⟩, rfl⟩
        complete := nofun }

theorem Told.serverFinal (h : Told p start c log) (message : Bytes) :
    Told p start (c.verifyServerFinal p message).2
      (log ++ [(.serverFinal message, .ofServerFinal (c.verifyServerFinal p message).1)]) := by
  have turn := c.serverFinalTurn (p := p) message
  generalize c.verifyServerFinal p message = outcome at turn
  cases turn with
  | refused e => exact h.fail e
  | ignored e waiting =>
    obtain ⟨serverFirst, terms, challenged, signature⟩ := h.final waiting
    exact
      { same := h.same
        replies := h.replies_concat nofun
        first := fun other => nomatch waiting.symm.trans other
        final := fun _ => ⟨serverFirst, terms, challenged.concat message e, signature⟩
        complete := fun other => nomatch waiting.symm.trans other }
  | verified verifier signature waiting carries decodes expected =>
    obtain ⟨serverFirst, terms, challenged, computed⟩ := h.final waiting
    obtain ⟨_, bare, kept, rfl⟩ := h.same
    exact
      { same := ⟨_, bare, kept, rfl⟩
        replies := h.replies_concat nofun
        first := nofun
        final := nofun
        complete := fun _ => ⟨log, serverFirst, terms, verifier, carries ▸ rfl, challenged,
          decodes.trans (expected.symm.trans computed)⟩ }

theorem told_step (h : Told p start c log) (call : Call) :
    Told p start (c.step p call) (log ++ [(call, (c.respond p call).1)]) := by
  cases call with
  | clientFirst => exact h.clientFirst
  | serverFirst message task => exact h.serverFirst message task
  | serverFinal message => exact h.serverFinal message

theorem told_run (username password clientNonce : Bytes) (mechanism : ScramMechanism)
    (calls : List Call) :
    Told p (new username password mechanism clientNonce)
      ((new username password mechanism clientNonce).run p calls)
      ((new username password mechanism clientNonce).trace p calls) := by
  induction calls using List.reverseRecOn with
  | nil =>
    exact
      { same := ⟨_, _, _, rfl⟩
        replies := fun _ _ _ member => nomatch member
        first := nofun
        final := nofun
        complete := nofun }
  | append_singleton calls call ih =>
    rw [run_concat, trace_concat]
    exact told_step ih call

/-- Whatever the server sends, the client completes an exchange only with a server that signed its
messages under the server key, on terms within the client's bounds; and every proof it sent is one
that a server with the stored key accepts. -/
theorem complete_is_authenticated (p : Primitives) (username password clientNonce : Bytes)
    (mechanism : ScramMechanism) (calls : List Call) :
    (((new username password mechanism clientNonce).run p calls).state = .complete →
      (new username password mechanism clientNonce).Authenticated p
        ((new username password mechanism clientNonce).trace p calls)) ∧
    ∀ serverFirst task clientFinal,
      (Call.serverFirst serverFirst task, Answer.replied clientFinal) ∈
        (new username password mechanism clientNonce).trace p calls →
      ∃ terms, (new username password mechanism clientNonce).Replied p serverFirst clientFinal
        terms :=
  have told := told_run username password clientNonce mechanism calls
  ⟨told.complete, told.replies⟩

/-! The exchange of RFC 7677, with the digests it takes. -/

def sampleNonce : String := "rOprNGfwEbeRWgbNEkqO"

def sampleChallenge : String :=
  "r=rOprNGfwEbeRWgbNEkqO%hvYDpWUa2RaTCAfuxFIlj)hNlF$k0,s=W22ZaJ0SNY7soEsUEjb6gQ==,i=4096"

def sampleAuthMessage : Bytes :=
  utf8 s!"n=user,r={sampleNonce},{sampleChallenge},c=biws,r=" ++
    utf8 "rOprNGfwEbeRWgbNEkqO%hvYDpWUa2RaTCAfuxFIlj)hNlF$k0"

def ofBase64 (text : String) : Bytes := (Base64.decode? text.toList).getD []

def sampleSaltedPassword : Bytes := ofBase64 "xKSVEDI6tPlSysH6mUQZOeeOp01r6B3fcJbodRPcYV0="

def sampleClientKey : Bytes := ofBase64 "pg/JI9Z+hkSpLRa5btpe9GVrDHJcSEN0viVTVXaZbos="

def sampleServerKey : Bytes := ofBase64 "wfPLwcE6nTWhTAmQ7tl2KeoiWGPlZqQxSrmfPwDl2dU="

def sampleStoredKey : Bytes := ofBase64 "WG5d8oPm3OtcPnkdi4Uo7BkeZkBFzpcXkuLmtbsT4qY="

def sampleDigests : List ((Bytes × Bytes) × Bytes) :=
  [((sampleSaltedPassword, utf8 "Client Key"), sampleClientKey),
    ((sampleSaltedPassword, utf8 "Server Key"), sampleServerKey),
    ((sampleStoredKey, sampleAuthMessage),
      ofBase64 "0nMSRnwopAqKfwXHPA3jPrPL+0qDeDtYFEzxmsa+G98="),
    ((sampleServerKey, sampleAuthMessage),
      ofBase64 "6rriTRBi23WpRR/wtup+mMhUZUn/dB5nLTJRsjl95G4=")]

def samplePrimitives : Primitives where
  hmac mechanism key data :=
    ((sampleDigests.lookup (key, data)).getD []).takeD mechanism.hashLength 0
  hash _ data := if data = sampleClientKey then sampleStoredKey else []
  pbkdf2 _ password salt iterations :=
    if (password, salt, iterations) = (utf8 "pencil", ofBase64 "W22ZaJ0SNY7soEsUEjb6gQ==", 4096)
    then sampleSaltedPassword else []
  encode data := (Http.base64Encode data).map fun c => c.toNat.toUInt8
  decode text := Base64.decode? (text.map fun b => Char.ofNat b.toNat)
  length_hmac _ _ _ := List.takeD_length ..

def sampleClient : ScramClient :=
  new (utf8 "user") (utf8 "pencil") .sha256 (utf8 sampleNonce)

def sampleServerFirst : Call := .serverFirst (utf8 sampleChallenge) .finished

def sampleServerFinal : Call :=
  .serverFinal (utf8 "v=6rriTRBi23WpRR/wtup+mMhUZUn/dB5nLTJRsjl95G4=")

theorem sample_exchange_is_authenticated :
    (sampleClient.run samplePrimitives
      [.clientFirst, sampleServerFirst, sampleServerFinal]).state = .complete ∧
    sampleClient.Authenticated samplePrimitives
      (sampleClient.trace samplePrimitives [.clientFirst, sampleServerFirst, sampleServerFinal]) :=
  have done : (sampleClient.run samplePrimitives
      [.clientFirst, sampleServerFirst, sampleServerFinal]).state = .complete := by decide +kernel
  ⟨done, (complete_is_authenticated samplePrimitives (utf8 "user") (utf8 "pencil")
    (utf8 sampleNonce) .sha256 [.clientFirst, sampleServerFirst, sampleServerFinal]).1 done⟩

/-! ## Failing an exchange -/

/-- A server-final message that the client is waiting for can be read. -/
def Orderly (p : Primitives) (c : ScramClient) (call : Call) : Prop :=
  c.state = .waitingServerFinal → ∀ message, call = .serverFinal message → Legible p message

instance {call : Call} : Decidable (c.Orderly p call) :=
  match call with
  | .clientFirst | .serverFirst _ _ => .isTrue nofun
  | .serverFinal message =>
    decidable_of_iff (c.state = .waitingServerFinal → Legible p message)
      ⟨fun h waiting _ same => by cases same; exact h waiting, fun h waiting => h waiting _ rfl⟩

def Prepared (c : ScramClient) : Prop :=
  c.state = .waitingServerFinal → c.serverSignature.isSome

theorem Prepared.step (h : c.Prepared) (call : Call) : (c.step p call).Prepared := by
  cases call with
  | clientFirst => exact nofun
  | serverFirst message task =>
    have turn := c.serverFirstTurn (p := p) message task
    show (c.processServerFirst p message task).2.Prepared
    generalize c.processServerFirst p message task = outcome at turn
    cases turn with
    | refused => exact nofun
    | dropped => exact h
    | replied => exact fun _ => rfl
  | serverFinal message =>
    have turn := c.serverFinalTurn (p := p) message
    show (c.verifyServerFinal p message).2.Prepared
    generalize c.verifyServerFinal p message = outcome at turn
    cases turn with
    | refused | verified => exact nofun
    | ignored => exact h

theorem failed_of_error (ready : c.Prepared) (orderly : c.Orderly p call)
    (errs : (c.respond p call).1.IsErr) : (c.step p call).state = .failed := by
  cases call with
  | clientFirst => exact errs.elim
  | serverFirst message task =>
    have turn := c.serverFirstTurn (p := p) message task
    change (Answer.ofServerFirst (c.processServerFirst p message task).1).IsErr at errs
    show (c.processServerFirst p message task).2.state = .failed
    generalize c.processServerFirst p message task = outcome at turn errs
    cases turn with
    | refused => rfl
    | dropped | replied => exact errs.elim
  | serverFinal message =>
    have turn := c.serverFinalTurn (p := p) message
    change (Answer.ofServerFinal (c.verifyServerFinal p message).1).IsErr at errs
    show (c.verifyServerFinal p message).2.state = .failed
    generalize c.verifyServerFinal p message = outcome at turn errs
    cases turn with
    | refused => rfl
    | ignored e waiting illegible =>
      have absent := illegible (orderly waiting message rfl)
      have present := ready waiting
      simp [absent] at present
    | verified => exact errs.elim

theorem step_of_failed (failed : c.state = .failed) (server : call ≠ .clientFirst) :
    (c.step p call).state = .failed ∧ (c.respond p call).1.IsErr := by
  cases call with
  | clientFirst => exact absurd rfl server
  | serverFirst => simp [step, respond, processServerFirst, failed, fail,
      Answer.ofServerFirst, Answer.IsErr]
  | serverFinal => simp [step, respond, verifyServerFinal, failed, fail,
      Answer.ofServerFinal, Answer.IsErr]

theorem trace_of_failed {calls : List Call} (failed : c.state = .failed)
    (server : ∀ call ∈ calls, call ≠ .clientFirst) : ∀ entry ∈ c.trace p calls, entry.2.IsErr := by
  induction calls generalizing c with
  | nil => exact List.forall_mem_nil _
  | cons call calls ih =>
    obtain ⟨head, rest⟩ := List.forall_mem_cons.mp server
    obtain ⟨stays, errs⟩ := step_of_failed (p := p) failed head
    exact List.forall_mem_cons.mpr ⟨errs, ih stays rest⟩

theorem pairwise_trace {calls : List Call} (ready : c.Prepared)
    (server : ∀ call ∈ calls, call ≠ .clientFirst)
    (orderly : Runs.Along (step p) (Orderly p) c calls) :
    (c.trace p calls).Pairwise fun earlier later => earlier.2.IsErr → ¬ later.2.IsOk := by
  induction calls generalizing c with
  | nil => exact List.Pairwise.nil
  | cons call calls ih =>
    obtain ⟨_, rest⟩ := List.forall_mem_cons.mp server
    refine List.Pairwise.cons (fun later member errs => ?_) (ih (ready.step call) rest orderly.2)
    exact (trace_of_failed (failed_of_error ready orderly.1 errs) rest later member).not_isOk

/-- After a client-first message, once a message of the server was an error none is accepted
any more, as long as every server-final message that is waited for can be read. -/
theorem failed_exchange_stays_failed (p : Primitives) (c : ScramClient) (calls : List Call)
    (server : ∀ call ∈ calls, call ≠ .clientFirst)
    (orderly : Runs.Along (step p) (Orderly p) c.clientFirstMessage.2 calls) :
    (c.clientFirstMessage.2.trace p calls).Pairwise
      fun earlier later => earlier.2.IsErr → ¬ later.2.IsOk :=
  pairwise_trace (fun waiting => nomatch waiting) server orderly

/-- The server reports an error, and its right signature is then refused. -/
theorem sample_exchange_stays_failed :
    (∀ call ∈ [sampleServerFirst, .serverFinal (utf8 "e=other-error"), sampleServerFinal],
      call ≠ .clientFirst) ∧
    Runs.Along (step samplePrimitives) (Orderly samplePrimitives)
      sampleClient.clientFirstMessage.2
      [sampleServerFirst, .serverFinal (utf8 "e=other-error"), sampleServerFinal] ∧
    (sampleClient.clientFirstMessage.2.trace samplePrimitives
      [sampleServerFirst, .serverFinal (utf8 "e=other-error"), sampleServerFinal]).Pairwise
      fun earlier later => earlier.2.IsErr → ¬ later.2.IsOk :=
  have server : ∀ call ∈ [sampleServerFirst, .serverFinal (utf8 "e=other-error"),
      sampleServerFinal], call ≠ .clientFirst := by decide
  have orderly : Runs.Along (step samplePrimitives) (Orderly samplePrimitives)
      sampleClient.clientFirstMessage.2
      [sampleServerFirst, .serverFinal (utf8 "e=other-error"), sampleServerFinal] := by
    decide +kernel
  ⟨server, orderly, failed_exchange_stays_failed samplePrimitives sampleClient _ server orderly⟩

/-- A server-final message without a verifier is an error that leaves the client waiting: the
server's next message completes the exchange. -/
theorem missing_verifier_leaves_a_second_attempt :
    (sampleClient.clientFirstMessage.2.trace samplePrimitives
      [sampleServerFirst, .serverFinal (utf8 "m=unknown"), sampleServerFinal])[1]?.any
        (fun entry => entry.2 == .error (.auth "Missing verifier in server-final")) = true ∧
    (sampleClient.clientFirstMessage.2.trace samplePrimitives
      [sampleServerFirst, .serverFinal (utf8 "m=unknown"), sampleServerFinal])[2]?.any
        (fun entry => entry.2 == .verified) = true := by
  decide +kernel

end ScramClient

end Krafka.Auth
