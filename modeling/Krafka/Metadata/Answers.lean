import Krafka.Metadata.Writer

/-! Every metadata request comes to an end. Whatever else happens, the writer is through with the
batch it serves after a bounded number of turns, and then takes the pending set. -/

namespace Krafka.Metadata

@[simp] def Attempt.turns (attempt : Attempt) : Nat :=
  3 * (3 - attempt.passes) + if attempt.rebootstrapped then 0 else 1

namespace WriterStage

@[simp] def waiters : WriterStage → List Nat
  | .unstarted | .top | .backoff | .stopped => []
  | .requested batch | .taken batch | .answering batch _ => batch.waiters
  | .resetting attempt | .passing attempt => attempt.batch.waiters
  | .connecting attempt _ _ | .waiting attempt _ _ => attempt.batch.waiters

/-- How many turns there are at most before the pending set is taken; a writer that does not run
has none. -/
@[simp] def turns : WriterStage → Nat
  | .unstarted | .stopped => 0
  | .backoff => 1
  | .top => 2
  | .answering _ _ => 3
  | .passing attempt => attempt.turns + 4
  | .resetting attempt | .waiting attempt _ _ => attempt.turns + 5
  | .connecting attempt _ _ => attempt.turns + 6
  | .taken _ => 15
  | .requested _ => 16

theorem turns_le (stage : WriterStage) : stage.turns ≤ 16 := by
  cases stage <;> simp <;> grind

theorem turns_pos {stage : WriterStage} {id : Nat} (waits : id ∈ stage.waiters) :
    0 < stage.turns := by
  cases stage <;> simp_all

end WriterStage

def Event.settles : Event → Option Nat
  | .current id | .answered id _ => some id
  | _ => none

/-- The request is settled, or will be within `n` turns of the writer. -/
inductive Within (abandoned : List Nat) (trace : List Event) (pending : List Nat)
    (stage : WriterStage) (id n : Nat) : Prop where
  | abandoned (gone : id ∈ abandoned)
  | told {event : Event} (there : event ∈ trace) (settles : event.settles = some id)
  | pending (waits : id ∈ pending) (runs : 0 < stage.turns) (soon : stage.turns + 16 ≤ n)
  | batch (waits : id ∈ stage.waiters) (soon : stage.turns ≤ n)

namespace Within

variable {gone gone' pending pending' : List Nat} {trace trace' : List Event}
  {stage stage' : WriterStage} {id n : Nat}

theorem grow (within : Within gone trace pending stage id n) (more : gone ⊆ gone')
    (grown : trace ⊆ trace') (joined : pending ⊆ pending')
    (same : 0 < stage.turns → stage' = stage) : Within gone' trace' pending' stage' id n := by
  cases within with
  | abandoned gone => exact .abandoned (more gone)
  | told there settles => exact .told (grown there) settles
  | pending waits runs soon =>
    cases same runs
    exact .pending (joined waits) runs soon
  | batch waits soon =>
    cases same (WriterStage.turns_pos waits)
    exact .batch waits soon

theorem turn (within : Within gone trace pending stage id (n + 1)) (grown : trace ⊆ trace')
    (waiting : id ∈ pending → 0 < stage.turns → stage.turns + 15 ≤ n →
      Within gone trace' pending' stage' id n)
    (batch : id ∈ stage.waiters → stage.turns ≤ n + 1 → Within gone trace' pending' stage' id n) :
    Within gone trace' pending' stage' id n := by
  cases within with
  | abandoned gone => exact .abandoned gone
  | told there settles => exact .told (grown there) settles
  | pending waits runs soon => exact waiting waits runs (Nat.le_of_succ_le_succ soon)
  | batch waits soon => exact batch waits soon

theorem go (within : Within gone trace pending stage id (n + 1)) (grown : trace ⊆ trace')
    (sooner : 0 < stage'.turns ∧ stage'.turns < stage.turns)
    (batch : stage'.waiters = stage.waiters ∨
      (id ∈ stage.waiters → Within gone trace' pending stage' id n)) :
    Within gone trace' pending stage' id n := by
  obtain ⟨runs, sooner⟩ := sooner
  apply within.turn grown
  · exact fun waits _ soon => .pending waits runs (by omega)
  · intro waits soon
    rcases batch with same | done
    · exact .batch (same ▸ waits) (by omega)
    · exact done waits

end Within

def ClusterMetadata.Settled (m : ClusterMetadata) (id : Nat) : Prop :=
  id ∈ m.abandoned ∨ ∃ event ∈ m.trace, event.settles = some id

def MetadataInput.turns : MetadataInput → Nat
  | .write _ => 1
  | _ => 0

namespace ClusterMetadata

variable {m : ClusterMetadata} {id n : Nat}

abbrev Within (m : ClusterMetadata) : (id n : Nat) → Prop :=
  Metadata.Within m.abandoned m.trace m.pending.waiters m.writer

theorem within_answer (m : ClusterMetadata) {waiters pending : List Nat} (waits : id ∈ waiters)
    (result : Result Unit) {stage : WriterStage} :
    Metadata.Within m.abandoned (m.answer waiters result).trace pending stage id n := by
  by_cases gone : id ∈ m.abandoned
  · exact .abandoned gone
  · have told : .answered id result ∈ (m.answer waiters result).trace := by
      simp [answer, emit, waits, gone]
    exact .told told rfl

theorem within_write (within : m.Within id (n + 1)) (answer : WriterAnswer) :
    (m.write answer).Within id n := by
  have same : m.trace ⊆ m.trace := List.Subset.refl _
  have kept {trace : List Event} : m.trace ⊆ m.trace ++ trace := List.subset_append_left _ _
  unfold Within at within
  unfold write
  dsimp only [go, pass, resetToSeeds, emit]
  cases stage : m.writer <;> rw [stage] at within
  case unstarted | stopped => exact within.turn same (by simp) (by simp)
  case top =>
    dsimp only
    split
    · exact within.turn kept (fun waits _ _ => within_answer m waits _) (by simp)
    · split
      · exact within.turn same (by simp_all [PendingFetch.isEmpty]) (by simp)
      · exact within.go same (by simp) (.inl rfl)
  case backoff =>
    refine within.turn same (fun waits _ soon => ?_) (by simp)
    dsimp only
    split
    · exact .batch waits soon
    · exact .batch waits (Nat.le_of_succ_le soon)
  case taken batch =>
    dsimp only
    split
    · next gone =>
      have gone : ∀ id ∈ batch.waiters, id ∈ m.abandoned := by simpa using gone
      exact within.go same (by simp) (.inr fun waits => .abandoned (gone id waits))
    · split <;> exact within.go same (by simp) (.inl rfl)
  case answering =>
    exact within.go kept (by simp) (.inr fun waits => within_answer m waits _)
  -- In every other stage the writer goes on with its batch.
  all_goals
    dsimp only
    repeat' split
    all_goals exact within.go (by simp) (by simp_all <;> omega) (.inl rfl)

theorem writer_wakeWriter (runs : 0 < m.writer.turns) : m.wakeWriter.writer = m.writer := by
  unfold wakeWriter
  split
  · simp_all
  · rfl

theorem within_wakeWriter (within : m.Within id n) : m.wakeWriter.Within id n := by
  refine within.grow ?_ ?_ ?_ writer_wakeWriter
  all_goals
    unfold wakeWriter
    split <;> exact List.Subset.refl _

theorem within_register (within : m.Within id n) (topics : Option (List String)) :
    (m.register topics).Within id n := by
  have joined : m.pending.waiters ⊆ (m.pending.register m.requests topics).waiters := by
    cases topics <;> exact List.subset_append_left _ _
  apply within_wakeWriter
  exact within.grow (List.Subset.refl _) (List.subset_append_left _ _) joined fun _ => rfl

theorem within_step {input : MetadataInput} (within : m.Within id (n + input.turns)) :
    (m.step input).Within id n := by
  have same {α : Type} {l : List α} : l ⊆ l := List.Subset.refl _
  have kept {trace : List Event} : m.trace ⊆ m.trace ++ trace := List.subset_append_left _ _
  cases input with
  | write answer => exact within_write within answer
  | request topics force now nowMs =>
    cases topics with
    | none => exact within_register within none
    | some names =>
      dsimp only [step, request]
      split
      · exact within.grow same kept same fun _ => rfl
      · exact within_register (m := m.touchTopics names nowMs) within (some names)
  | requestRebootstrap => exact within_wakeWriter (m := { m with pending := _ }) within
  | abandon => exact within.grow (List.subset_cons_self _ _) same same fun _ => rfl
  | rebootstrap => exact within.grow same kept same fun _ => rfl
  | hint =>
    dsimp only [step]
    split <;> exact within
  | touch | drop => exact within

theorem within_run {inputs : List MetadataInput}
    (within : m.Within id (n + (inputs.map MetadataInput.turns).sum)) :
    (inputs.foldl step m).Within id n := by
  induction inputs generalizing m with
  | nil => exact within
  | cons input inputs ih =>
    rw [List.map_cons, List.sum_cons, Nat.add_comm input.turns, ← Nat.add_assoc] at within
    exact ih (within_step within)

theorem turns_wakeWriter_pos (runs : m.writer ≠ .stopped) : 0 < m.wakeWriter.writer.turns := by
  unfold wakeWriter
  split
  · exact Nat.two_pos
  · cases stage : m.writer <;> simp_all

theorem within_new (runs : m.writer ≠ .stopped) (topics : Option (List String)) (most : 32 ≤ n) :
    (m.register topics).Within m.requests n := by
  have joined : m.requests ∈ (m.pending.register m.requests topics).waiters := by
    cases topics <;> exact List.mem_append_right _ (List.mem_singleton_self _)
  have turns := WriterStage.turns_le (m.register topics).writer
  refine .pending ?_ (turns_wakeWriter_pos runs) (by omega)
  unfold register wakeWriter
  split <;> exact joined

/-- A request made before the writer has stopped is found current, given up or answered by the
time the writer has had 32 turns, whatever these bring and whatever else happens. -/
theorem requests_are_answered (m : ClusterMetadata) (topics : Option (List String)) (force : Bool)
    (now : Instant) (nowMs : Nat) (later : List MetadataInput) (runs : m.writer ≠ .stopped)
    (enough : 32 ≤ (later.map MetadataInput.turns).sum) :
    (later.foldl step (m.step (.request topics force now nowMs))).Settled m.requests := by
  have within : (m.step (.request topics force now nowMs)).Within m.requests
      (0 + (later.map MetadataInput.turns).sum) := by
    rw [Nat.zero_add]
    cases topics with
    | none => exact within_new runs none enough
    | some names =>
      dsimp only [step, request]
      split
      · exact .told (List.mem_append_right _ (List.mem_singleton_self _)) rfl
      · exact within_new (m := m.touchTopics names nowMs) runs (some names) enough
  cases within_run within with
  | abandoned gone => exact .inl gone
  | told there settles => exact .inr ⟨_, there, settles⟩
  | pending _ _ soon => cases soon
  | batch waits soon => exact absurd (WriterStage.turns_pos waits) (Nat.not_lt.mpr soon)

theorem first_request_is_answered :
    ((List.replicate 32 (.write {})).foldl step
      (step { config := {} } (.request none true 0 0))).Settled 0 :=
  requests_are_answered _ none true 0 0 _ nofun (by decide)

end ClusterMetadata

end Krafka.Metadata
