import Krafka.Auth.Scram
import Krafka.Library.Texts

/-! OAuth bearer tokens, the check they pass before use, and the message that carries one to a
broker. Texts are the bytes of their UTF-8 form. -/

namespace Krafka.Auth

/-- SASL extensions, a `BTreeMap`: one value a key, in the order of the keys. -/
structure Extensions where
  entries : List (Bytes × Bytes)
  sorted : entries.Pairwise (·.1 < ·.1)
  deriving DecidableEq

@[ext] theorem Extensions.ext {e e' : Extensions} (same : e.entries = e'.entries) : e = e' := by
  cases e; cases e'; simpa using same

def Extensions.empty : Extensions := ⟨[], .nil⟩

def Extensions.insert (e : Extensions) (key value : Bytes) : Extensions where
  entries := e.entries.filter (·.1 < key) ++ (key, value) :: e.entries.filter (key < ·.1)
  sorted := by
    refine List.pairwise_append.mpr ⟨e.sorted.filter _, ?_, ?_⟩
    · exact List.pairwise_cons.mpr ⟨by simp, e.sorted.filter _⟩
    · intro low hlow high hhigh
      have below : low.1 < key := by simpa using (List.mem_filter.mp hlow).2
      rcases List.mem_cons.mp hhigh with rfl | hhigh
      · exact below
      · exact List.lt_trans below (by simpa using (List.mem_filter.mp hhigh).2)

structure OAuthBearerToken where
  tokenValue : Bytes
  extensions : Extensions := .empty
  lifetimeMs : Option Int := none

namespace OAuthBearerToken

def withExtension (token : OAuthBearerToken) (key value : Bytes) : OAuthBearerToken :=
  { token with extensions := token.extensions.insert key value }

def invalidByte (text : Bytes) : Option UInt8 :=
  text.find? fun b => !(0x20 ≤ b && b ≤ 0x7E)

def validate (token : OAuthBearerToken) : Result Unit :=
  if token.tokenValue.isEmpty then .error (.auth "OAuthBearer token value must not be empty")
  else
    match invalidByte token.tokenValue with
    | some bad =>
      let hex := String.ofList (Texts.hexUpper 2 bad.toNat)
      .error (.auth (s!"OAuthBearer token value contains an invalid byte 0x{hex}; " ++
        "token must consist of printable ASCII characters (0x20–0x7E) only"))
    | none =>
      match (token.extensions.entries.flatMap fun (key, value) => [key, value]).findSome?
          invalidByte with
      | some bad =>
        let hex := String.ofList (Texts.hexUpper 2 bad.toNat)
        .error (.auth (s!"OAuthBearer extension key/value contains an invalid byte 0x{hex}; " ++
          "extension strings must consist of printable ASCII characters only"))
      | none => .ok ()

theorem notMem_of_invalidByte {text : Bytes} (clean : invalidByte text = none) : 1 ∉ text := by
  intro found
  simpa using List.find?_eq_none.mp clean 1 found

variable {token : OAuthBearerToken}

theorem separator_notMem (accepted : token.validate = .ok ()) :
    1 ∉ token.tokenValue ∧ ∀ entry ∈ token.extensions.entries, 1 ∉ entry.1 ∧ 1 ∉ entry.2 := by
  unfold validate at accepted
  split at accepted
  · cases accepted
  split at accepted
  · cases accepted
  next value =>
  split at accepted
  · cases accepted
  next rest =>
  rw [List.findSome?_eq_none_iff] at rest
  refine ⟨notMem_of_invalidByte value, fun entry held => ⟨?_, ?_⟩⟩
  · exact notMem_of_invalidByte (rest _ (List.mem_flatMap.mpr ⟨entry, held, by simp⟩))
  · exact notMem_of_invalidByte (rest _ (List.mem_flatMap.mpr ⟨entry, held, by simp⟩))

/-! ## The initial response -/

def gs2Header : Bytes := utf8 "n,,"

def toGs2InitialResponse (token : OAuthBearerToken) : Bytes :=
  gs2Header ++ (1 :: utf8 "auth=Bearer " ++ token.tokenValue) ++
    (token.extensions.entries.flatMap fun (key, value) => 1 :: key ++ 61 :: value) ++ [1, 1]

def gs2Fields (message : Bytes) : Option (List (Bytes × Bytes)) :=
  (stripPrefix gs2Header message).map fun rest =>
    (rest.splitOn 1).filterMap (Texts.splitOnce 61)

/-- A key that keeps to its place: it does not end early and is not taken for the token's. -/
def PlainKeys (token : OAuthBearerToken) : Prop :=
  ∀ entry ∈ token.extensions.entries, 61 ∉ entry.1 ∧ entry.1 ≠ utf8 "auth"

instance (token : OAuthBearerToken) : Decidable token.PlainKeys :=
  inferInstanceAs (Decidable (∀ _ ∈ _, _))

theorem toGs2InitialResponse_eq (token : OAuthBearerToken) :
    token.toGs2InitialResponse = gs2Header ++ [1].intercalate
      ([] :: (utf8 "auth=Bearer " ++ token.tokenValue) ::
        (token.extensions.entries.map (fun entry => entry.1 ++ 61 :: entry.2) ++ [[], []])) := by
  rw [Texts.intercalate_cons]
  simp [toGs2InitialResponse, List.flatMap_map]

def readExtensions (token : OAuthBearerToken) : List (Bytes × Bytes) :=
  token.extensions.entries.filterMap fun entry => Texts.splitOnce 61 (entry.1 ++ 61 :: entry.2)

theorem readExtensions_of_plain (plain : token.PlainKeys) :
    token.readExtensions = token.extensions.entries :=
  calc token.readExtensions
      = token.extensions.entries.filterMap some :=
        List.filterMap_congr fun entry held => Texts.splitOnce_append (plain entry held).1 entry.2
    _ = token.extensions.entries := List.filterMap_some

theorem gs2Fields_toGs2InitialResponse
    (accepted : token.validate = .ok ()) :
    gs2Fields token.toGs2InitialResponse =
      some ((utf8 "auth", utf8 "Bearer " ++ token.tokenValue) :: token.readExtensions) := by
  obtain ⟨value, entries⟩ := separator_notMem accepted
  rw [toGs2InitialResponse_eq, gs2Fields, stripPrefix_eq_some.mpr rfl, Option.map_some,
    List.splitOn_intercalate 1 ?free (by simp)]
  case free =>
    simp only [List.mem_cons, List.mem_append, List.mem_map, List.not_mem_nil, or_false]
    rintro part (rfl | rfl | ⟨entry, held, rfl⟩ | rfl | rfl)
    · simp
    · simpa [show (1 : UInt8) ∉ utf8 "auth=Bearer " by decide] using value
    · simpa using entries entry held
    all_goals simp
  have auth : Texts.splitOnce 61 (utf8 "auth=Bearer " ++ token.tokenValue) =
      some (utf8 "auth", utf8 "Bearer " ++ token.tokenValue) :=
    @Texts.splitOnce_append _ _ 61 (utf8 "auth") (by decide) _
  simp only [List.filterMap_cons, List.filterMap_append, auth, List.filterMap_nil,
    List.filterMap_map, Texts.splitOnce, List.append_nil]
  rfl

/-- The message gives the token back: its one `auth` value and its extensions. -/
def Readable (token : OAuthBearerToken) : Prop :=
  ∃ fields, gs2Fields token.toGs2InitialResponse = some fields ∧
    (fields.filter (·.1 = utf8 "auth")).map (·.2) = [utf8 "Bearer " ++ token.tokenValue] ∧
    fields.filter (·.1 ≠ utf8 "auth") = token.extensions.entries

theorem readable_of_plain (accepted : token.validate = .ok ())
    (plain : token.PlainKeys) : token.Readable := by
  have others : ∀ entry ∈ token.extensions.entries, entry.1 ≠ utf8 "auth" :=
    fun entry held => (plain entry held).2
  have none_left : token.extensions.entries.filter (·.1 = utf8 "auth") = [] :=
    List.filter_eq_nil_iff.mpr fun entry held => by simpa using others entry held
  refine ⟨_, gs2Fields_toGs2InitialResponse accepted, ?_, ?_⟩
  · simp [readExtensions_of_plain plain, none_left]
  · simpa [readExtensions_of_plain plain] using others

theorem plain_of_readable (accepted : token.validate = .ok ())
    (readable : token.Readable) : token.PlainKeys := by
  obtain ⟨fields, read, auth, rest⟩ := readable
  rw [gs2Fields_toGs2InitialResponse accepted, Option.some.injEq] at read
  subst read
  have other : ∀ entry ∈ token.readExtensions, entry.1 ≠ utf8 "auth" := by
    have none_left : token.readExtensions.filter (·.1 = utf8 "auth") = [] := by simpa using auth
    exact fun entry held => by simpa using List.filter_eq_nil_iff.mp none_left entry held
  have same : token.readExtensions = token.extensions.entries := by
    rw [← rest, List.filter_cons_of_neg (by simp), List.filter_eq_self.mpr]
    exact fun entry held => by simpa using other entry held
  -- What is in the token was cut off at a first equals sign.
  intro entry held
  rw [← same] at held
  obtain ⟨_, -, cut⟩ := List.mem_filterMap.mp held
  exact ⟨(Texts.splitOnce_eq_some cut).2, other entry held⟩

/-- The message of an accepted token gives the token back just when its keys are plain; and two
such tokens with one message have the same value and the same extensions. -/
theorem initial_response_unambiguous {token : OAuthBearerToken}
    (accepted : token.validate = .ok ()) :
    (token.Readable ↔ token.PlainKeys) ∧
    ∀ other : OAuthBearerToken, other.validate = .ok () → token.PlainKeys → other.PlainKeys →
      other.toGs2InitialResponse = token.toGs2InitialResponse →
      other.tokenValue = token.tokenValue ∧ other.extensions = token.extensions := by
  refine ⟨⟨plain_of_readable accepted, readable_of_plain accepted⟩, ?_⟩
  intro other accepted' plain plain' same
  have fields := gs2Fields_toGs2InitialResponse accepted
  have fields' := gs2Fields_toGs2InitialResponse accepted'
  rw [readExtensions_of_plain plain] at fields
  rw [readExtensions_of_plain plain', same, fields, Option.some.injEq, List.cons.injEq] at fields'
  exact ⟨(List.append_cancel_left (Prod.mk.inj fields'.1).2).symm, Extensions.ext fields'.2.symm⟩

def sampleToken : OAuthBearerToken :=
  ({ tokenValue := utf8 "tok" } : OAuthBearerToken).withExtension (utf8 "pool") (utf8 "a=b")

theorem sampleToken_unambiguous : sampleToken.validate = .ok () ∧ sampleToken.Readable :=
  ⟨by decide, (initial_response_unambiguous (by decide)).1.mpr (by decide)⟩

def keyWithEquals : OAuthBearerToken :=
  ({ tokenValue := utf8 "tok" } : OAuthBearerToken).withExtension (utf8 "a=b") (utf8 "c")

def valueWithEquals : OAuthBearerToken :=
  ({ tokenValue := utf8 "tok" } : OAuthBearerToken).withExtension (utf8 "a") (utf8 "b=c")

def secondAuth : OAuthBearerToken :=
  ({ tokenValue := utf8 "tok" } : OAuthBearerToken).withExtension (utf8 "auth") (utf8 "Bearer x")

/-- An accepted key with an equals sign is read as another extension, that of a second accepted
token with the same message; an accepted key `auth` gives the message two `auth` values. -/
theorem accepted_keys_are_ambiguous :
    (keyWithEquals.validate = .ok () ∧ valueWithEquals.validate = .ok () ∧
      keyWithEquals.extensions ≠ valueWithEquals.extensions ∧
      keyWithEquals.toGs2InitialResponse = valueWithEquals.toGs2InitialResponse) ∧
    secondAuth.validate = .ok () ∧
    gs2Fields secondAuth.toGs2InitialResponse = some
      [(utf8 "auth", utf8 "Bearer tok"), (utf8 "auth", utf8 "Bearer x")] := by
  decide +kernel

end OAuthBearerToken

end Krafka.Auth
