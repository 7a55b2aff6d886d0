import Krafka.Auth.OAuthBearer

/-! The token cache and the background task that refreshes it, as calls of the provider and
sleeps between them. Times are milliseconds; lifetimes and the wall clock are `i64`. -/

namespace Krafka.Auth

def expirySkewMarginMs : Int := 30000
def unknownExpiryMaxAge : Nat := 300000

def i64Max : Int := 2 ^ 63 - 1

def saturatingSub (a b : Int) : Int := max (-2 ^ 63) (min (a - b) i64Max)

abbrev Clock := Option Nat

def currentEpochMs : Clock → Result Int
  | none => .error (.auth "system clock predates Unix epoch")
  | some ms =>
    if (ms : Int) ≤ i64Max then .ok ms else .error (.auth "current epoch_ms overflows i64")

def OAuthBearerToken.needsRefresh (token : OAuthBearerToken) (clock : Clock) : Bool :=
  match token.lifetimeMs with
  | none => false
  | some lifetime =>
    match currentEpochMs clock with
    | .ok now => decide (saturatingSub lifetime expirySkewMarginMs ≤ now)
    | .error _ => true

structure CachedToken where
  token : OAuthBearerToken
  fetchedAt : Nat

def CachedToken.isStale (entry : CachedToken) (instant : Nat) (clock : Clock) : Bool :=
  if entry.token.lifetimeMs.isNone then decide (unknownExpiryMaxAge ≤ instant - entry.fetchedAt)
  else entry.token.needsRefresh clock

def sleepDuration (cached : Option CachedToken) (clock : Clock) : Nat :=
  match cached.bind (·.token.lifetimeMs) with
  | some lifetime =>
    let wakeAt := saturatingSub lifetime expirySkewMarginMs
    let now := (currentEpochMs clock).toOption.getD i64Max
    (max (saturatingSub wakeAt now) 0).toNat
  | none => unknownExpiryMaxAge

def fetchBackoff : Nat := 5000

/-! ## The task -/

inductive TaskEvent where
  | slept (duration : Nat)
  | called
  deriving DecidableEq

inductive Phase where
  | starting
  /-- At the head of the loop, after a fetch that filled the cache. -/
  | refreshed
  | due
  deriving DecidableEq

structure TokenStore where
  cached : Option CachedToken
  phase : Phase := .starting
  history : List TaskEvent := []

abbrev ProviderAnswer := Result OAuthBearerToken

inductive StoreStep where
  | schedule (clock : Clock)
  | refresh (instant : Nat) (answer : ProviderAnswer)
  | provideToken (instant : Nat) (clock : Clock) (answer : ProviderAnswer)

namespace TokenStore

def provideToken (store : TokenStore) (instant : Nat) (clock : Clock) (answer : ProviderAnswer) :
    ProviderAnswer × TokenStore :=
  match store.cached with
  | some entry =>
    if entry.isStale instant clock then fetch else (.ok entry.token, store)
  | none => fetch
where
  fetch := match answer with
    | .ok token => (.ok token, { store with cached := some ⟨token, instant⟩ })
    | .error e => (.error e, store)

/-- One step of the loop of `start_refresh_task`, or of a caller beside it. A step the task is
not at leaves the store as it is. -/
def step (store : TokenStore) : StoreStep → TokenStore
  | .schedule clock =>
    if store.phase = .due then store
    else
      let duration := sleepDuration store.cached clock
      { store with
        phase := .due
        history := store.history ++ if duration = 0 then [] else [.slept duration] }
  | .refresh instant answer =>
    if store.phase ≠ .due then store
    else
      match answer with
      | .ok token =>
        { cached := some ⟨token, instant⟩, phase := .refreshed,
          history := store.history ++ [.called] }
      | .error _ =>
        { store with
          phase := .starting
          history := store.history ++ [.called] ++ [.slept fetchBackoff] }
  | .provideToken instant clock answer => (store.provideToken instant clock answer).2

theorem provideToken_frame (store : TokenStore) (instant : Nat) (clock : Clock)
    (answer : ProviderAnswer) :
    (store.provideToken instant clock answer).2.phase = store.phase ∧
      (store.provideToken instant clock answer).2.history = store.history := by
  unfold provideToken
  split
  · split
    · cases answer <;> exact ⟨rfl, rfl⟩
    · exact ⟨rfl, rfl⟩
  · cases answer <;> exact ⟨rfl, rfl⟩

/-! ## Sleeps between calls -/

def Ahead (cached : Option CachedToken) (clock : Clock) : Prop :=
  ∀ lifetime, cached.bind (·.token.lifetimeMs) = some lifetime →
    ∃ now, currentEpochMs clock = .ok now ∧ now < saturatingSub lifetime expirySkewMarginMs

theorem sleepDuration_pos {cached : Option CachedToken} {clock : Clock} :
    0 < sleepDuration cached clock ↔ Ahead cached clock := by
  unfold sleepDuration Ahead
  cases declared : cached.bind (·.token.lifetimeMs) with
  | none => simp [unknownExpiryMaxAge]
  | some lifetime =>
    have least : -2 ^ 63 ≤ saturatingSub lifetime expirySkewMarginMs := le_max_left _ _
    have most : saturatingSub lifetime expirySkewMarginMs ≤ i64Max :=
      max_le (by decide) (min_le_right _ _)
    simp only [Option.some.injEq, forall_eq']
    generalize saturatingSub lifetime expirySkewMarginMs = wakeAt at least most ⊢
    cases clock with
    | none =>
      -- An unreadable clock is taken for the end of time.
      simp only [currentEpochMs, Except.toOption, Option.getD_none, saturatingSub, reduceCtorEq,
        false_and, exists_false, iff_false]
      unfold i64Max at *
      omega
    | some ms =>
      by_cases fits : (ms : Int) ≤ i64Max
      · simp only [currentEpochMs, fits, if_true, Except.toOption, Option.getD_some, saturatingSub,
          Except.ok.injEq, exists_eq_left']
        unfold i64Max at *
        omega
      · simp only [currentEpochMs, fits, if_false, Except.toOption, Option.getD_none,
          saturatingSub, reduceCtorEq, false_and, exists_false, iff_false]
        unfold i64Max at *
        omega

instance (cached : Option CachedToken) (clock : Clock) : Decidable (Ahead cached clock) :=
  decidable_of_iff _ sleepDuration_pos

def Rested (history : List TaskEvent) : Prop :=
  ∀ before since, history = before ++ .called :: since → .called ∉ since →
    ∃ duration, 0 < duration ∧ .slept duration ∈ since

theorem rested_slept (history : List TaskEvent) {duration : Nat} (positive : 0 < duration) :
    Rested (history ++ [.slept duration]) := by
  intro before since split _
  rcases List.eq_nil_or_concat since with rfl | ⟨since, last, rfl⟩
  · obtain ⟨-, eq⟩ := List.append_inj' split rfl
    cases eq
  · rw [List.concat_eq_append, ← List.cons_append, ← List.append_assoc] at split
    obtain ⟨-, eq⟩ := List.append_inj' split rfl
    cases eq
    exact ⟨duration, positive, by simp⟩

/-- No call comes before the task has slept since the call before it. -/
def Spaced (history : List TaskEvent) : Prop :=
  Runs.Throughout (fun before event => event = .called → Rested before) history

structure Paced (store : TokenStore) : Prop where
  spaced : Spaced store.history
  rested : store.phase ≠ .refreshed → Rested store.history

/-- When the task returns to the head of its loop from a fetch that filled the cache, the token
there lasts. -/
def Lasting (store : TokenStore) : StoreStep → Prop
  | .schedule clock => store.phase = .refreshed → Ahead store.cached clock
  | _ => True

instance (store : TokenStore) : (s : StoreStep) → Decidable (store.Lasting s)
  | .schedule clock => inferInstanceAs (Decidable (store.phase = .refreshed → Ahead _ clock))
  | .refresh .. | .provideToken .. => .isTrue trivial

theorem Paced.step {store : TokenStore} {s : StoreStep} (paced : store.Paced)
    (lasting : store.Lasting s) : (store.step s).Paced := by
  obtain ⟨spaced, rested⟩ := paced
  cases s with
  | schedule clock =>
    by_cases due : store.phase = .due
    · simp only [TokenStore.step, due, if_true]
      exact ⟨spaced, rested⟩
    by_cases zero : sleepDuration store.cached clock = 0
    · -- A skipped sleep: the token does not last, so the last fetch did not fill the cache.
      have other : store.phase ≠ .refreshed := fun refreshed =>
        (sleepDuration_pos.mpr (lasting refreshed)).ne' zero
      simp only [TokenStore.step, due, if_false, zero, if_true, List.append_nil]
      exact ⟨spaced, fun _ => rested other⟩
    · simp only [TokenStore.step, due, if_false, zero]
      exact ⟨Runs.throughout_concat.mpr ⟨spaced, nofun⟩,
        fun _ => rested_slept _ (Nat.pos_of_ne_zero zero)⟩
  | refresh instant answer =>
    by_cases due : store.phase = .due
    · have called : Spaced (store.history ++ [.called]) :=
        Runs.throughout_concat.mpr ⟨spaced, fun _ => rested (by simp [due])⟩
      simp only [TokenStore.step, due, ne_eq, not_true_eq_false, if_false]
      cases answer with
      | ok => exact ⟨called, fun h => absurd rfl h⟩
      | error =>
        exact ⟨Runs.throughout_concat.mpr ⟨called, nofun⟩, fun _ => rested_slept _ (by decide)⟩
    · simp only [TokenStore.step, ne_eq, due, not_false_eq_true, if_true]
      exact ⟨spaced, rested⟩
  | provideToken instant clock answer =>
    obtain ⟨phase, history⟩ := provideToken_frame store instant clock answer
    exact ⟨history ▸ spaced, fun h => history ▸ rested (phase ▸ h)⟩

/-- In a run in which every token fetched for the cache lasts past the margin when the task
next looks, the task sleeps between any two of its calls. -/
theorem refresh_does_not_spin (cached : Option CachedToken) {steps : List StoreStep}
    (lasting : Runs.Along step Lasting { cached } steps) :
    Spaced (steps.foldl step { cached }).history :=
  (lasting.invariant Paced (fun _ _ lasts paced => paced.step lasts)
    ⟨Runs.throughout_nil _, fun _ before since split => by simp at split⟩).spaced

def hourlyRun : List StoreStep :=
  let token (lifetime : Int) : OAuthBearerToken :=
    { tokenValue := utf8 "tok", lifetimeMs := some lifetime }
  [.schedule (some 1000), .refresh 0 (.ok (token 3600000)), .schedule (some 2000),
    .refresh 1 (.error (.auth "down")), .schedule (some 9000000),
    .provideToken 2 (some 9000000) (.ok (token 9000000)), .refresh 3 (.ok (token 13000000)),
    .schedule (some 9000001)]

theorem hourlyRun_does_not_spin : Spaced (hourlyRun.foldl step { cached := none }).history :=
  refresh_does_not_spin none (by decide)

def expiredRun : List StoreStep :=
  let expired : OAuthBearerToken := { tokenValue := utf8 "tok", lifetimeMs := some 1 }
  [.schedule (some 1700000000000), .refresh 0 (.ok expired), .schedule (some 1700000000000),
    .refresh 0 (.ok expired)]

/-- It is called again at once. -/
theorem expired_tokens_spin :
    (expiredRun.foldl step { cached := none }).history = [.slept 300000, .called, .called] ∧
      ¬ Spaced (expiredRun.foldl step { cached := none }).history := by
  have history : (expiredRun.foldl step { cached := none }).history =
      [.slept 300000, .called, .called] := by decide
  refine ⟨history, fun spaced => ?_⟩
  rw [history] at spaced
  obtain ⟨duration, -, slept⟩ :=
    spaced [.slept 300000, .called] .called [] rfl rfl [.slept 300000] [] rfl (by simp)
  cases slept

end TokenStore

end Krafka.Auth
