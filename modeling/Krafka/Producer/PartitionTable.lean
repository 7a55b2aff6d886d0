import Krafka.Library.Runs
import Krafka.Producer.Engine

/-! The table of registered partitions under TV1, with the `Notify` of each registration in
progress: concurrent calls that register a partition or wait for the one that does, the guard of a
registration, dropped calls, the tasks they leave behind, and the end of the transaction, which
clears the table. What runs under the table's write lock is one step. -/

namespace Krafka.Producer

open Function

inductive AddState where
  | pending (notify : Nat)
  | added
  | failed (error : KrafkaError)
  deriving DecidableEq

inductive AddStage where
  | begin
  | wait (notify : Nat)
  /-- Waits for the coordinator. The guard is armed. -/
  | rpc (notify : Nat)
  | confirm (notify : Nat)
  | cancel (notify : Nat) (error : KrafkaError)
  | fail (notify : Nat) (error : KrafkaError)
  | returned (result : Result Unit)

namespace AddStage

def owes : AddStage → Option Nat
  | .rpc notify | .confirm notify | .cancel notify _ | .fail notify _ => some notify
  | _ => none

def defused : AddStage → Bool
  | .confirm _ | .cancel _ _ | .fail _ _ => true
  | _ => false

def answered (notify : Nat) : Result Unit → AddStage
  | .ok () => .confirm notify
  | .error error => if error.isRetriable then .cancel notify error else .fail notify error

end AddStage

structure AddCall where
  key : PartitionKey
  stage : AddStage

def AddCall.wake (notify : Nat) : AddCall → AddCall
  | ⟨key, .wait waited⟩ => if waited = notify then ⟨key, .begin⟩ else ⟨key, .wait waited⟩
  | call => call

inductive BeginAddResult where
  | alreadyAdded
  | wait (notify : Nat)
  | needAdd (notify : Nat)
  | fatal (error : KrafkaError)

structure PartitionTable where
  entries : AList fun _ : PartitionKey => AddState := ∅
  calls : Nat → Option AddCall := fun _ => none
  rollbacks : List (PartitionKey × Nat) := []
  notifies : Nat := 0
  started : Nat := 0

inductive TableInput where
  | call (key : PartitionKey)
  | lock (id : Nat)
  | answer (id : Nat) (result : Result Unit)
  | drop (id : Nat) (unlocked : Bool)
  | rollback (key : PartitionKey) (notify : Nat)
  | clear

namespace PartitionTable

variable (t : PartitionTable)

def notifyWaiters (notify : Nat) : PartitionTable :=
  { t with calls := fun id => (t.calls id).map (AddCall.wake notify) }

def beginAdd (key : PartitionKey) : PartitionTable × BeginAddResult :=
  match t.entries.lookup key with
  | some .added => (t, .alreadyAdded)
  | some (.pending notify) => (t, .wait notify)
  | some (.failed error) => (t, .fatal error)
  | none =>
    ({ t with
        entries := t.entries.insert key (.pending t.notifies)
        notifies := t.notifies + 1 }, .needAdd t.notifies)

def confirmAdd (key : PartitionKey) (notify : Nat) : PartitionTable :=
  { t with entries := t.entries.insert key .added }.notifyWaiters notify

def cancelAdd (key : PartitionKey) (notify : Nat) : PartitionTable :=
  { t with entries := t.entries.erase key }.notifyWaiters notify

def failAdd (key : PartitionKey) (error : KrafkaError) (notify : Nat) : PartitionTable :=
  { t with entries := t.entries.insert key (.failed error) }.notifyWaiters notify

def setCall (id : Nat) (call : Option AddCall) : PartitionTable :=
  { t with calls := update t.calls id call }

def locked (id : Nat) (key : PartitionKey) : AddStage → PartitionTable
  | .begin =>
    match t.beginAdd key with
    | (t, .alreadyAdded) => t.setCall id (some ⟨key, .returned (.ok ())⟩)
    | (t, .fatal error) => t.setCall id (some ⟨key, .returned (.error error)⟩)
    | (t, .wait notify) => t.setCall id (some ⟨key, .wait notify⟩)
    | (t, .needAdd notify) => t.setCall id (some ⟨key, .rpc notify⟩)
  | .confirm notify => (t.setCall id (some ⟨key, .returned (.ok ())⟩)).confirmAdd key notify
  | .cancel notify error =>
    (t.setCall id (some ⟨key, .returned (.error error)⟩)).cancelAdd key notify
  | .fail notify error =>
    (t.setCall id (some ⟨key, .returned (.error error)⟩)).failAdd key error notify
  | _ => t

def dropGuard (key : PartitionKey) (notify : Nat) (unlocked : Bool) : PartitionTable :=
  if unlocked then t.cancelAdd key notify
  else { t with rollbacks := (key, notify) :: t.rollbacks }

def step : TableInput → PartitionTable
  | .call key => { t with started := t.started + 1 }.setCall t.started (some ⟨key, .begin⟩)
  | .lock id =>
    match t.calls id with
    | some ⟨key, stage⟩ => t.locked id key stage
    | none => t
  | .answer id result =>
    match t.calls id with
    | some ⟨key, .rpc notify⟩ => t.setCall id (some ⟨key, .answered notify result⟩)
    | _ => t
  | .drop id unlocked =>
    match t.calls id with
    | some ⟨key, .rpc notify⟩ => (t.setCall id none).dropGuard key notify unlocked
    | _ => t.setCall id none
  | .rollback key notify =>
    if (key, notify) ∈ t.rollbacks then
      { t with rollbacks := t.rollbacks.erase (key, notify) }.cancelAdd key notify
    else t
  | .clear => { t with entries := ∅ }

def run (inputs : List TableInput) : PartitionTable := inputs.foldl step {}

/-- A registration of the partition is running, or a task is to take it back, and will signal the
`Notify`. -/
def Owed (key : PartitionKey) (notify : Nat) : Prop :=
  (∃ id stage, t.calls id = some ⟨key, stage⟩ ∧ stage.owes = some notify) ∨
    (key, notify) ∈ t.rollbacks

/-- No call is dropped while it waits for the lock with its guard switched off. -/
def spared : TableInput → Bool
  | .drop id _ => !(t.calls id).any (·.stage.defused)
  | _ => true

structure Sound : Prop where
  entries : ∀ key notify, t.entries.lookup key = some (.pending notify) → t.Owed key notify
  waits : ∀ id key notify, t.calls id = some ⟨key, .wait notify⟩ → t.Owed key notify
  fresh : ∀ id, t.started ≤ id → t.calls id = none

variable {t}

section Steps

variable {t₁ : PartitionTable} {id notify : Nat} {key : PartitionKey}

theorem calls_setCall (call : Option AddCall) (other : Nat) :
    (t.setCall id call).calls other = if other = id then call else t.calls other := update_apply ..

variable {call : Option AddCall}

theorem Owed.setCall (owed : t.Owed key notify)
    (kept : ∀ stage, t.calls id = some ⟨key, stage⟩ → stage.owes = some notify →
      (∃ next, call = some ⟨key, next⟩ ∧ next.owes = some notify) ∨ (key, notify) ∈ t.rollbacks) :
    (t.setCall id call).Owed key notify := by
  rcases owed with ⟨owner, stage, there, owes⟩ | scheduled
  · by_cases same : owner = id
    · subst same
      rcases kept stage there owes with ⟨next, rfl, still⟩ | scheduled
      · exact .inl ⟨owner, next, (calls_setCall ..).trans (if_pos rfl), still⟩
      · exact .inr scheduled
    · exact .inl ⟨owner, stage, (calls_setCall ..).trans ((if_neg same).trans there), owes⟩
  · exact .inr scheduled

variable {stage : AddStage}

theorem wake_of_owes {owed : Nat} (owes : stage.owes = some owed) :
    AddCall.wake notify ⟨key, stage⟩ = ⟨key, stage⟩ := by
  cases stage with
  | wait => cases owes
  | _ => rfl

theorem wake_eq_wait {call : AddCall} {waited : Nat}
    (waits : call.wake notify = ⟨key, .wait waited⟩) :
    call = ⟨key, .wait waited⟩ ∧ waited ≠ notify := by
  unfold AddCall.wake at waits
  split at waits
  · split_ifs at waits with same
    · cases waits
    · cases waits
      exact ⟨rfl, same⟩
  · next other =>
    subst waits
    exact absurd rfl (other key waited)

theorem Owed.notifyWaiters {waited : Nat} (owed : t.Owed key waited) :
    (t.notifyWaiters notify).Owed key waited := by
  rcases owed with ⟨owner, stage, there, owes⟩ | scheduled
  · refine .inl ⟨owner, stage, ?_, owes⟩
    show (t.calls owner).map (AddCall.wake notify) = _
    rw [there, Option.map_some, wake_of_owes owes]
  · exact .inr scheduled

theorem Sound.conclude {entries : AList fun _ : PartitionKey => AddState} (sound : t.Sound)
    (other : ∀ k, k ≠ key → entries.lookup k = t.entries.lookup k)
    (here : ∀ m, entries.lookup key ≠ some (.pending m))
    (waits : ∀ id k m, t₁.calls id = some ⟨k, .wait m⟩ → t.calls id = some ⟨k, .wait m⟩)
    (owed : ∀ k m, t.Owed k m → k = key ∧ m = notify ∨ t₁.Owed k m)
    (fresh : ∀ id, t₁.started ≤ id → t₁.calls id = none) :
    ({ t₁ with entries }.notifyWaiters notify).Sound := by
  have left {k : PartitionKey} {m : Nat} (still : t₁.Owed k m) :
      ({ t₁ with entries }.notifyWaiters notify).Owed k m := Owed.notifyWaiters still
  refine ⟨fun k m pending => ?_, fun id k m waiting => ?_, fun id late => ?_⟩
  · by_cases same : k = key
    · exact absurd (same ▸ pending) (here m)
    · rcases owed k m (sound.entries k m ((other k same).symm.trans pending)) with ⟨rfl, _⟩ | still
      · exact absurd rfl same
      · exact left still
  · obtain ⟨call, there, woken⟩ := Option.map_eq_some_iff.mp waiting
    obtain ⟨rfl, apart⟩ := wake_eq_wait woken
    rcases owed k m (sound.waits id k m (waits id k m there)) with ⟨_, rfl⟩ | still
    · exact absurd rfl apart
    · exact left still
  · show (t₁.calls id).map _ = none
    rw [fresh id late]
    rfl

theorem Sound.carry (sound : t.Sound) (entries : t₁.entries = t.entries)
    (owed : ∀ k m, t.Owed k m → t₁.Owed k m)
    (waits : ∀ id k m, t₁.calls id = some ⟨k, .wait m⟩ → t.Owed k m)
    (fresh : ∀ id, t₁.started ≤ id → t₁.calls id = none) : t₁.Sound :=
  ⟨fun k m pending => owed k m (sound.entries k m (entries ▸ pending)),
    fun id k m waiting => owed k m (waits id k m waiting), fresh⟩

theorem Sound.setCall (sound : t.Sound) (known : id < t.started)
    (kept : ∀ k m stage, t.calls id = some ⟨k, stage⟩ → stage.owes = some m →
      (∃ next, call = some ⟨k, next⟩ ∧ next.owes = some m) ∨ (k, m) ∈ t.rollbacks)
    (waits : ∀ k m, call = some ⟨k, .wait m⟩ → t.Owed k m) : (t.setCall id call).Sound := by
  refine sound.carry rfl (fun k m owed => owed.setCall (kept k m)) ?_ ?_
  · intro other k m waiting
    rw [calls_setCall] at waiting
    split_ifs at waiting with same
    · exact waits k m waiting
    · exact sound.waits other k m waiting
  · intro other late
    rw [calls_setCall, if_neg (Nat.ne_of_gt (known.trans_le late))]
    exact sound.fresh other late

theorem Sound.known {call : AddCall} (sound : t.Sound) (there : t.calls id = some call) :
    id < t.started := by
  by_contra late
  rw [sound.fresh id (Nat.not_lt.mp late)] at there
  cases there

theorem Sound.retire
    {entries : AList fun _ : PartitionKey => AddState} (sound : t.Sound)
    (there : t.calls id = some ⟨key, stage⟩) (owes : stage.owes = some notify)
    (idle : ∀ k m, call ≠ some ⟨k, .wait m⟩)
    (other : ∀ k, k ≠ key → entries.lookup k = t.entries.lookup k)
    (here : ∀ m, entries.lookup key ≠ some (.pending m)) :
    ({ t.setCall id call with entries }.notifyWaiters notify).Sound := by
  refine sound.conclude other here ?_ ?_ ?_
  · intro other k m waiting
    rw [calls_setCall] at waiting
    split_ifs at waiting
    · exact absurd waiting (idle k m)
    · exact waiting
  · intro k m owed
    by_cases same : k = key ∧ m = notify
    · exact .inl same
    · refine .inr (owed.setCall fun stage' call owing => absurd ?_ same)
      rw [there] at call
      cases call
      exact ⟨rfl, Option.some.inj (owing.symm.trans owes)⟩
  · intro other late
    rw [calls_setCall, if_neg (Nat.ne_of_gt ((sound.known there).trans_le late))]
    exact sound.fresh other late

theorem Sound.goOn (sound : t.Sound)
    (there : t.calls id = some ⟨key, stage⟩) (free : stage.owes = none)
    (waits : ∀ k m, call = some ⟨k, .wait m⟩ → t.Owed k m) : (t.setCall id call).Sound := by
  refine sound.setCall (sound.known there) (fun k m other call owing => ?_) waits
  rw [there] at call
  cases call
  rw [free] at owing
  cases owing

end Steps

variable {id : Nat} {key : PartitionKey}

theorem Sound.register (sound : t.Sound) (there : t.calls id = some ⟨key, .begin⟩) :
    ({ t with
        entries := t.entries.insert key (.pending t.notifies)
        notifies := t.notifies + 1 }.setCall id (some ⟨key, .rpc t.notifies⟩)).Sound := by
  have moved : (t.setCall id (some ⟨key, .rpc t.notifies⟩)).Sound :=
    sound.goOn there rfl fun _ _ waits => nomatch waits
  refine ⟨fun k m pending => ?_, moved.waits, moved.fresh⟩
  by_cases same : k = key
  · subst same
    have fresh : m = t.notifies := by
      have first : (t.entries.insert k (.pending t.notifies)).lookup k =
        some (.pending t.notifies) := AList.lookup_insert _
      have := first.symm.trans pending
      cases this
      rfl
    exact .inl ⟨id, .rpc t.notifies, (calls_setCall ..).trans (if_pos rfl), fresh ▸ rfl⟩
  · exact moved.entries k m ((AList.lookup_insert_ne same).symm.trans pending)

variable {stage : AddStage}

theorem Sound.locked (sound : t.Sound)
    (there : t.calls id = some ⟨key, stage⟩) : (t.locked id key stage).Sound := by
  cases stage with
  | begin =>
    unfold PartitionTable.locked beginAdd
    cases present : t.entries.lookup key with
    | none => exact sound.register there
    | some state =>
      cases state with
      | added | failed => exact sound.goOn there rfl (fun _ _ waits => nomatch waits)
      | pending notify =>
        refine sound.goOn there rfl fun k m waits => ?_
        cases waits
        exact sound.entries key notify present
  | wait | rpc | returned => exact sound
  | confirm | fail =>
    exact sound.retire there rfl (fun _ _ => nofun) (fun k apart => AList.lookup_insert_ne apart)
      (by simp)
  | cancel =>
    exact sound.retire there rfl (fun _ _ => nofun) (fun k apart => AList.lookup_erase_ne apart)
      (by simp)

theorem owes_of_not_defused (armed : stage.defused = false) :
    stage.owes = none ∨ ∃ notify, stage = .rpc notify := by
  cases stage with
  | rpc notify => exact .inr ⟨notify, rfl⟩
  | confirm | cancel | fail => cases armed
  | _ => exact .inl rfl

theorem Sound.dropped (sound : t.Sound)
    (there : t.calls id = some ⟨key, stage⟩) (armed : stage.defused = false) (unlocked : Bool) :
    (t.step (.drop id unlocked)).Sound := by
  rcases owes_of_not_defused armed with free | ⟨notify, rfl⟩
  · have plain : t.step (.drop id unlocked) = t.setCall id none := by
      simp only [PartitionTable.step, there]
      cases stage with
      | rpc => cases free
      | _ => rfl
    exact plain ▸ sound.goOn there free (fun _ _ waits => nomatch waits)
  · simp only [PartitionTable.step, there]
    unfold dropGuard
    split_ifs
    · exact sound.retire there rfl (fun _ _ => nofun) (fun k apart => AList.lookup_erase_ne apart)
        (by simp)
    · have scheduled : { t with rollbacks := (key, notify) :: t.rollbacks }.Sound :=
        sound.carry rfl (fun _ _ owed => owed.imp_right (List.mem_cons_of_mem _)) sound.waits
          sound.fresh
      refine scheduled.setCall (sound.known there) (fun k m stage call owes => .inr ?_)
        (fun _ _ waits => nomatch waits)
      have same : some _ = some _ := there.symm.trans call
      cases same
      cases owes
      exact List.mem_cons_self

theorem owes_answered (notify : Nat) (result : Result Unit) :
    (AddStage.answered notify result).owes = some notify := by
  cases result with
  | ok => rfl
  | error =>
    simp only [AddStage.answered]
    split_ifs <;> rfl

theorem Sound.answered {notify : Nat} (sound : t.Sound)
    (there : t.calls id = some ⟨key, .rpc notify⟩) (result : Result Unit) :
    (t.setCall id (some ⟨key, .answered notify result⟩)).Sound := by
  have owes := owes_answered notify result
  refine sound.setCall (sound.known there) (fun k m stage call owing => .inl ?_) ?_
  · rw [there] at call
    cases call
    exact ⟨_, rfl, owes.trans owing⟩
  · intro k m waits
    have stage : AddStage.answered notify result = .wait m :=
      congrArg AddCall.stage (Option.some.inj waits)
    rw [stage] at owes
    cases owes

theorem Sound.rolledBack {notify : Nat} (sound : t.Sound) :
    ({ t with rollbacks := t.rollbacks.erase (key, notify) }.cancelAdd key notify).Sound := by
  refine sound.conclude (fun k apart => AList.lookup_erase_ne apart) (by simp)
    (fun _ _ _ waiting => waiting) (fun k m owed => ?_) sound.fresh
  by_cases same : k = key ∧ m = notify
  · exact .inl same
  · refine .inr (owed.imp_right fun scheduled => (List.mem_erase_of_ne ?_).mpr scheduled)
    exact fun equal => same (Prod.mk.inj equal)

theorem Sound.step {input : TableInput} (sound : t.Sound) (spared : t.spared input) :
    (t.step input).Sound := by
  cases input with
  | call =>
    have later : { t with started := t.started + 1 }.Sound :=
      sound.carry rfl (fun _ _ owed => owed) sound.waits
        fun id late => sound.fresh id (Nat.le_of_succ_le late)
    refine later.setCall (Nat.lt_succ_self _) (fun k m stage call _ => ?_)
      (fun _ _ waits => nomatch waits)
    exact nomatch (sound.fresh t.started le_rfl).symm.trans call
  | lock id =>
    cases there : t.calls id with
    | none => simpa only [PartitionTable.step, there] using sound
    | some => simpa only [PartitionTable.step, there] using sound.locked there
  | answer id result =>
    simp only [PartitionTable.step]
    split
    · next key notify there => exact sound.answered there result
    · exact sound
  | drop id unlocked =>
    cases there : t.calls id with
    | none =>
      have same : t.step (.drop id unlocked) = t := by
        simp only [PartitionTable.step, there, PartitionTable.setCall]
        rw [← there, update_eq_self]
      exact same.symm ▸ sound
    | some =>
      refine sound.dropped there ?_ unlocked
      simpa [PartitionTable.spared, there] using spared
  | rollback =>
    simp only [PartitionTable.step]
    split_ifs
    · exact sound.rolledBack
    · exact sound
  | clear =>
    exact ⟨(fun key notify pending => nomatch (AList.lookup_empty key).symm.trans pending),
      sound.waits, sound.fresh⟩

theorem run_sound {inputs : List TableInput}
    (allowed : Runs.Along step (fun t input => t.spared input = true) {} inputs) :
    (run inputs).Sound :=
  allowed.invariant Sound (fun _ _ spared sound => sound.step spared)
    ⟨(fun _ _ pending => nomatch pending), (fun _ _ _ waits => nomatch waits), fun _ _ => rfl⟩

/-- In every run that drops no call while it waits for the lock with its guard switched off: once
no registration of a partition runs and no task is to take one back, the partition's entry is not
pending; and whoever waits for a `Notify` has somebody who will signal it. -/
theorem registration_is_resolved (inputs : List TableInput)
    (allowed : Runs.Along step (fun t input => t.spared input = true) {} inputs) :
    (∀ key, (∀ id stage, (run inputs).calls id = some ⟨key, stage⟩ → stage.owes = none) →
      (∀ notify, (key, notify) ∉ (run inputs).rollbacks) →
        ∀ notify, (run inputs).entries.lookup key ≠ some (.pending notify)) ∧
      ∀ id key notify, (run inputs).calls id = some ⟨key, .wait notify⟩ →
        (run inputs).Owed key notify := by
  have sound := run_sound allowed
  refine ⟨fun key idle clear notify pending => ?_, sound.waits⟩
  rcases sound.entries key notify pending with ⟨id, stage, there, owes⟩ | scheduled
  · rw [idle id stage there] at owes
    cases owes
  · exact clear notify scheduled

theorem dropped_rpc_is_resolved :
    (run [.call ("t", 0), .lock 0, .call ("t", 0), .lock 1, .drop 0 false,
        .rollback ("t", 0) 0]).entries.lookup ("t", 0) = none ∧
      ∀ id key notify, (run [.call ("t", 0), .lock 0, .call ("t", 0), .lock 1, .drop 0 false,
          .rollback ("t", 0) 0]).calls id = some ⟨key, .wait notify⟩ →
        (run [.call ("t", 0), .lock 0, .call ("t", 0), .lock 1, .drop 0 false,
          .rollback ("t", 0) 0]).Owed key notify :=
  ⟨by decide, (registration_is_resolved _ (by decide)).2⟩

/-- The coordinator answered, the call waits for the table's lock and is dropped there: the next
one waits for a `Notify` nobody will signal. -/
theorem dropped_confirm_stays_pending :
    (run [.call ("t", 0), .lock 0, .answer 0 (.ok ()), .drop 0 true, .call ("t", 0),
        .lock 1]).entries.lookup ("t", 0) = some (.pending 0) ∧
      (run [.call ("t", 0), .lock 0, .answer 0 (.ok ()), .drop 0 true, .call ("t", 0),
        .lock 1]).calls 1 = some ⟨("t", 0), .wait 0⟩ ∧
      ∀ key notify, ¬ (run [.call ("t", 0), .lock 0, .answer 0 (.ok ()), .drop 0 true,
        .call ("t", 0), .lock 1]).Owed key notify := by
  refine ⟨by decide, rfl, ?_⟩
  rintro key notify (⟨id, stage, there, owes⟩ | scheduled)
  · match id with
    | 0 => cases there
    | 1 =>
      cases there
      cases owes
    | _ + 2 => cases there
  · cases scheduled

end PartitionTable

end Krafka.Producer
