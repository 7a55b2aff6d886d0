import Krafka.Producer.Moves

/-! What the functions of the engine leave alone. Most of them see to the queues only; the commands,
`drain` and `finish` change more, and the identity is changed where it is installed, bumped or
given up. -/

namespace Krafka.Producer.Engine

def sent (s : Engine) : List Request × Nat := (s.requests, s.started)

def marks (s : Engine) : Option Nat × Bool × Nat :=
  (s.sealedThrough, s.channelClosed, s.arrivals)

def books (s : Engine) : (List Request × Nat) × (Option Nat × Bool × Nat) × EngineConfig :=
  (s.sent, s.marks, s.config)

def frame (s : Engine) :
    IdentityState × Mode × (List Request × Nat) × (Option Nat × Bool × Nat) × EngineConfig :=
  (s.identity, s.mode, s.books)

section Views

variable {s s' : Engine}

theorem sent_of_books (same : s'.books = s.books) : s'.sent = s.sent := congrArg (·.1) same

theorem marks_of_books (same : s'.books = s.books) : s'.marks = s.marks := congrArg (·.2.1) same

theorem config_of_books (same : s'.books = s.books) : s'.config = s.config :=
  congrArg (·.2.2) same

theorem books_of_frame (same : s'.frame = s.frame) : s'.books = s.books := congrArg (·.2.2) same

theorem identity_of_frame (same : s'.frame = s.frame) : s'.identity = s.identity :=
  congrArg (·.1) same

theorem mode_of_frame (same : s'.frame = s.frame) : s'.mode = s.mode := congrArg (·.2.1) same

end Views

variable (s : Engine) (now : Instant) (delay : Nat → Duration) (key : PartitionKey) (batch : Batch)
  (error : KrafkaError)

/-! Commands -/

theorem frame_sealActive : s.sealActive.frame = s.frame :=
  Runs.foldl_keeps frame (fun s key => s.modifyQueue key PartitionQueue.sealOpen)
    (fun _ _ => rfl) _ s

theorem frame_failEach (batches : List Batch) : (s.failEach error key batches).frame = s.frame :=
  Runs.foldl_keeps frame (fun s batch => s.fail key batch error) (fun _ _ => rfl) batches s

theorem frame_failUnsent : (s.failUnsent error).frame = s.frame := by
  refine Runs.foldl_keeps frame (failUnsentOf error) (fun s key => ?_) _ s
  unfold failUnsentOf
  split
  · rfl
  · exact frame_failEach ..

theorem exists_fatal : ∃ told : Engine, s.fatal error = told.failUnsent error ∧
    told.identity = .fatal error ∧ told.mode = s.mode ∧ told.active = s.active ∧
    told.queue = s.queue ∧ told.books = s.books := by
  unfold fatal
  dsimp only
  split_ifs <;> exact ⟨_, rfl, rfl, rfl, rfl, rfl, rfl⟩

theorem books_fatal : (s.fatal error).books = s.books := by
  obtain ⟨told, same, -, -, -, -, books⟩ := exists_fatal s error
  rw [same, books_of_frame (frame_failUnsent told error), books]

theorem books_terminateAll : (s.terminateAll error).books = s.books := by
  refine Runs.foldl_keeps books (terminateOf error) (fun s key => ?_) s.active.keys (s.die error)
  unfold terminateOf
  split
  · rfl
  · split <;> exact books_of_frame (frame_failEach ..)

theorem books_setIdentity (producerId epoch : Int) (tv2 : Bool) :
    (s.setIdentity producerId epoch tv2).books = s.books := by
  rcases s.setIdentity_eq producerId epoch tv2 with same | same <;> rw [same] <;> rfl

/-! Time -/

theorem frame_expire : (s.expire now).frame = s.frame := by
  have turn (acc : Engine × List (PartitionKey × Batch)) (key : PartitionKey) :
      (expireOf now acc key).1.frame = acc.1.frame := by
    unfold expireOf
    dsimp only
    split
    · rfl
    · split
      · split_ifs <;> rfl
      · rfl
  have failed (s : Engine) (taken : List (PartitionKey × Batch)) :
      (s.failTaken taken).frame = s.frame := by
    refine Runs.foldl_keeps frame _ ?_ taken s
    exact fun _ _ => rfl
  exact (failed _ _).trans
    (Runs.foldl_keeps (fun acc => acc.1.frame) (expireOf now) turn s.active.keys (s, []))

/-! Drain -/

theorem books_applyBump : s.applyBump.books = s.books := by
  have started : s.startReinit.books = s.books := by
    unfold startReinit
    split_ifs <;> rfl
  unfold applyBump
  split
  · exact started
  · split_ifs
    · rfl
    · split
      · rfl
      · exact started
  · rfl

theorem frame_requestRefresh (topics : List String) :
    (s.requestRefresh topics now delay).frame = s.frame := by
  unfold requestRefresh
  split_ifs <;> rfl

theorem frame_fillRequest (identity : Option Identity) (broker : Int) (keys : List PartitionKey)
    (wire : List WireBatch) (size : Nat) :
    (fillRequest identity broker keys s wire size).1.frame = s.frame := by
  induction keys generalizing s wire size with
  | nil => rfl
  | cons key keys ih =>
    unfold fillRequest
    dsimp only
    (repeat' split) <;> first | exact ih .. | rfl

theorem drainBroker_frame (identity : Option Identity) (ready : List (Int × PartitionKey))
    (broker : Int) : (drainBroker identity ready s broker).identity = s.identity ∧
      (drainBroker identity ready s broker).marks = s.marks := by
  have filled (keys : List PartitionKey) :
      (fillRequest identity broker keys s [] perBatchOverhead).1.identity = s.identity ∧
        (fillRequest identity broker keys s [] perBatchOverhead).1.marks = s.marks :=
    ⟨identity_of_frame (frame_fillRequest ..), marks_of_books (books_of_frame (frame_fillRequest ..))⟩
  unfold drainBroker
  dsimp only
  split <;> exact filled _

/-! Completion -/

theorem frame_retryOrFail (expired : Bool) :
    (s.retryOrFail now delay key batch error expired).frame = s.frame := by
  unfold retryOrFail
  split_ifs <;> rfl

theorem frame_splitBatch (bump : Bool) : (s.splitBatch key batch bump).frame = s.frame := by
  unfold splitBatch
  dsimp only
  split <;> rfl

theorem frame_act {action : Action} (code : ErrorCode) (baseOffset logAppendTime : Int)
    (expired : Bool) (mild : action ≠ .fatal) :
    (s.act now delay key batch action code baseOffset logAppendTime expired).frame = s.frame := by
  cases action with
  | ack | fail => rfl
  | retry => exact frame_retryOrFail ..
  | restamp =>
    simp only [act]
    split_ifs <;> rfl
  | split =>
    simp only [act]
    split_ifs
    · exact frame_splitBatch ..
    · rfl
  | fatal => exact absurd rfl mild

theorem frame_resolve {outcome : BatchOutcome}
    (mild : s.verdict key (batch.marked outcome) outcome ≠ .fatal) :
    (s.resolve now delay key batch outcome).frame = s.frame := by
  cases outcome with
  | unacknowledged => rfl
  | answer | tooLarge => exact frame_act _ _ _ _ _ _ _ _ _ mild
  | noAnswer => exact frame_retryOrFail ..
  | notWritten =>
    simp only [resolve]
    split_ifs
    · exact frame_retryOrFail ..
    · rfl

variable {s key batch} in
theorem resolve_of_fatal {outcome : BatchOutcome}
    (fatal : s.verdict key (batch.marked outcome) outcome = .fatal) :
    s.mode.hasIdentity ∧ ∃ code baseOffset logAppendTime logStartOffset,
      outcome = .answer code baseOffset logAppendTime logStartOffset ∧ code ≠ .none ∧
      s.resolve now delay key batch outcome =
        (s.fail key (batch.marked outcome) (fatalError key code)).fatal (fatalError key code) := by
  cases outcome with
  | answer code baseOffset logAppendTime logStartOffset =>
    refine ⟨classify_fatal fatal, code, _, _, _, rfl, ?_, ?_⟩
    · rintro rfl
      have acked (batch : Batch) : s.answerAction key batch .none logStartOffset = .ack false :=
        classify_of_none rfl
      exact nomatch fatal.symm.trans (acked _)
    · simp only [verdict] at fatal
      simp only [resolve, fatal]
      rfl
  | unacknowledged | noAnswer => cases fatal
  | notWritten =>
    simp only [verdict] at fatal
    split_ifs at fatal
  | tooLarge =>
    simp only [verdict, tooLargeAction] at fatal
    split_ifs at fatal

theorem books_resolve (outcome : BatchOutcome) :
    (s.resolve now delay key batch outcome).books = s.books := by
  by_cases fatal : s.verdict key (batch.marked outcome) outcome = .fatal
  · obtain ⟨-, code, _, _, _, -, -, same⟩ := resolve_of_fatal now delay fatal
    rw [same]
    exact books_fatal (s.fail key (batch.marked outcome) (fatalError key code)) _
  · exact books_of_frame (frame_resolve s now delay key batch fatal)

theorem books_complete (done : RequestDone) : (s.complete now delay done).books = s.books := by
  refine Runs.foldl_keeps books (completeResult now delay) (fun s result => ?_) done.results
    { s with brokers := Function.update s.brokers done.broker (s.brokers done.broker - 1) }
  unfold completeResult
  split
  · rfl
  · split
    · rfl
    · exact books_resolve ..

theorem books_reinitialised (result : Result (Int × Int)) :
    (s.reinitialised result).books = s.books := by
  unfold reinitialised
  split
  · rfl
  · split_ifs
    · rfl
    · exact books_fatal { s with reinit := false } _

end Krafka.Producer.Engine
