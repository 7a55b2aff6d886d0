import Krafka.Library.Lists
import Krafka.Producer.Frames
import Krafka.Producer.Refinement

/-! What a flush leaves open. A flush seals every open batch, and remembers its generation: a
record of that generation or an earlier one that arrives later is sealed as it is appended. -/

namespace Krafka.Producer

open Engine Runs

/-! Only commands change how far the engine is sealed and how many records have arrived. -/

theorem marks_sealActive (s : Engine) : s.sealActive.marks = s.marks :=
  marks_of_books (books_of_frame (frame_sealActive s))

theorem marks_drain (s : Engine) (now : Instant) (leader : PartitionKey → Option Int)
    (delay : Nat → Duration) : (s.drain now leader delay).marks = s.marks :=
  calc (s.drain now leader delay).marks
      = (s.applyBump.requestRefresh (s.applyBump.leaderless now leader) now delay).marks :=
        foldl_keeps marks _ (fun s broker => (s.drainBroker_frame _ _ broker).2) _ _
    _ = s.applyBump.marks := marks_of_books (books_of_frame (frame_requestRefresh ..))
    _ = s.marks := marks_of_books (books_applyBump s)

theorem marks_finish (s : Engine) (now : Instant) (delay : Nat → Duration) (serial : Nat)
    (results : List BatchResult) : (s.finish now delay serial results).marks = s.marks := by
  unfold finish
  split
  · rfl
  · split
    · exact (marks_of_books (books_complete ..)).trans rfl
    · rfl

variable {s : Engine}

theorem step_command (opened : s.channelClosed = false) (now : Instant)
    (command : Command) : s.step (.command now command) = s.handle now command :=
  if_neg (by simp [opened])

theorem step_closed (opened : s.channelClosed = false) : s.step .closed = s.close :=
  if_neg (by simp [opened])

def Engine.arrival (s : Engine) : Input → Option Nat
  | .command _ (.append append) => if s.channelClosed then none else some append.generation
  | _ => none

theorem marks_step (s : Engine) (input : Input) :
    ((s.step input).marks = s.marks ∧ s.arrival input = none) ∨
      (∃ now append, input = .command now (.append append) ∧ s.channelClosed = false) ∨
      (∃ now generation, input = .command now (.flush generation) ∧ s.channelClosed = false) ∨
      (input = .closed ∧ s.channelClosed = false) := by
  cases input with
  | command now command =>
    cases closed : s.channelClosed with
    | true =>
      left
      cases command <;> simp [step, closed, arrival]
    | false =>
      cases command with
      | append append => exact .inr (.inl ⟨now, append, rfl, rfl⟩)
      | flush generation => exact .inr (.inr (.inl ⟨now, generation, rfl, rfl⟩))
      | failUnsent error =>
        rw [step_command closed]
        exact .inl ⟨marks_of_books (books_of_frame (frame_failUnsent s error)), rfl⟩
      | setIdentity producerId epoch tv2 =>
        rw [step_command closed]
        exact .inl ⟨marks_of_books (books_setIdentity s producerId epoch tv2), rfl⟩
      | terminate error =>
        rw [step_command closed]
        exact .inl ⟨marks_of_books (books_terminateAll s error), rfl⟩
  | expire now => exact .inl ⟨marks_of_books (books_of_frame (frame_expire s now)), rfl⟩
  | drain now leader delay => exact .inl ⟨marks_drain s now leader delay, rfl⟩
  | complete now delay serial results => exact .inl ⟨marks_finish s now delay serial results, rfl⟩
  | refreshed | reordered => exact .inl ⟨rfl, rfl⟩
  | reinitialised result =>
    refine .inl ⟨?_, rfl⟩
    simp only [step]
    split
    · exact marks_of_books (books_reinitialised s result)
    · rfl
  | closed =>
    cases closed : s.channelClosed with
    | true => simp [step, closed, arrival]
    | false => exact .inr (.inr (.inr ⟨rfl, rfl⟩))

theorem append_marks (s : Engine) (now : Instant) (append : Append) :
    (s.append now append).marks = (s.sealedThrough, s.channelClosed, s.arrivals + 1) := by
  rcases s.append_cases now append with ⟨error, -, same⟩ | ⟨-, after, -, same⟩ <;> rw [same] <;> rfl

/-- The generations of the records that arrive, oldest first: the place is the record's tag. -/
def Engine.generations (s : Engine) : List Input → List Nat
  | [] => []
  | input :: inputs => (s.arrival input).toList ++ (s.step input).generations inputs

theorem generations_append (s : Engine) (inputs more : List Input) :
    s.generations (inputs ++ more) = s.generations inputs ++ (inputs.foldl step s).generations more := by
  induction inputs generalizing s with
  | nil => rfl
  | cons input inputs ih => simp [Engine.generations, ih]

theorem arrivals_counted (s : Engine) (input : Input) :
    (s.step input).arrivals = s.arrivals + (s.arrival input).toList.length := by
  rcases marks_step s input with
    ⟨same, none⟩ | ⟨now, append, rfl, opened⟩ | ⟨now, generation, rfl, opened⟩ | ⟨rfl, opened⟩
  · rw [none]
    exact congrArg (·.2.2) same
  · rw [step_command opened, arrival, opened]
    exact congrArg (·.2.2) (append_marks s now append)
  · rw [step_command opened]
    exact congrArg (·.2.2) (marks_sealActive _)
  · rw [step_closed opened]
    exact congrArg (·.2.2) (marks_sealActive _)

/-! What is taken in: of all inputs only an append brings a record, and it is kept unless the engine
is lost by then. -/

structure Arrival where
  append : Append
  refused : Bool

def Engine.takes (s : Engine) : Input → List Arrival
  | .command _ (.append append) => if s.channelClosed then [] else [⟨append, s.identity.isFatal⟩]
  | _ => []

def Engine.taken (s : Engine) : List Input → List Arrival
  | [] => []
  | input :: inputs => s.takes input ++ (s.step input).taken inputs

def Event.isIntake : Event → Bool
  | .arrived _ _ | .appended _ _ => true
  | _ => false

/-- What the history says of the arrival with this number. -/
def Arrival.told (a : Arrival × Nat) : List Event :=
  let record := { a.1.append.data with tag := a.2 }
  .arrived a.1.append.key record :: if a.1.refused then [] else [.appended a.1.append.key record]

theorem Effect.intake {p : Policy} {l l' : Ledger} (effect : Effect p l l')
    (still : l'.arrivals = l.arrivals) :
    l'.trace.filter Event.isIntake = l.trace.filter Event.isIntake := by
  have answers_none (key : PartitionKey) (batch : Batch)
      (result : Nat → RecordData → Result RecordMetadata) :
      (answers key batch result).filter Event.isIntake = [] :=
    List.filter_eq_nil_iff.mpr (forall_answers fun _ _ _ _ => by simp [Event.isIntake])
  cases effect with
  | refuse | accept => simp at still
  | silent _ events silent =>
    have none : events.filter Event.isIntake = [] := by
      refine List.filter_eq_nil_iff.mpr fun event he => ?_
      have := silent event he
      cases event <;> simp_all [Event.Silent, Event.isIntake]
    simp [none]
  | restamp | split => simp [List.filter_map, Function.comp_def, Event.isIntake]
  | _ => simp [answers_none, Event.isIntake]

/-! Open batches -/

variable {p : Policy}

theorem Effect.arrivals_le {l l' : Ledger} (effect : Effect p l l') : l.arrivals ≤ l'.arrivals := by
  cases effect <;> first | exact Nat.le_refl _ | exact Nat.le_succ _

variable {c c' : Custody}

theorem Move.arrivals_le (move : Move p c c') (sound : c.Sound) :
    c.engine.arrivals ≤ c'.engine.arrivals := (move.effect sound).arrivals_le

theorem toList_arrival (s : Engine) (input : Input) :
    (s.arrival input).toList = (s.takes input).map (·.append.generation) := by
  cases input with
  | command now command =>
    cases command with
    | append => cases closed : s.channelClosed <;> simp [arrival, takes, closed]
    | _ => rfl
  | _ => rfl

theorem arrivals_step (s : Engine) (input : Input) :
    (s.step input).arrivals = s.arrivals + (s.takes input).length := by
  rw [arrivals_counted, toList_arrival, List.length_map]

theorem intake_of_quiet (sound : (Custody.rest s).Sound) {input : Input}
    (quiet : s.takes input = []) :
    (s.step input).trace.filter Event.isIntake = s.trace.filter Event.isIntake := by
  have still : (s.step input).arrivals = s.arrivals := by
    rw [arrivals_step, quiet]
    rfl
  refine (invariant_of_step (p := {}) (fun c => c.Sound ∧ s.arrivals ≤ c.engine.arrivals ∧
    (c.engine.arrivals = s.arrivals →
      c.engine.trace.filter Event.isIntake = s.trace.filter Event.isIntake))
    (fun c c' move inv => ?_) (allows_any s input) ⟨sound, Nat.le_refl _, fun _ => rfl⟩).2.2 still
  obtain ⟨sound, least, same⟩ := inv
  have most := move.arrivals_le sound
  refine ⟨move.sound sound, least.trans most, fun still => ?_⟩
  have before : c.engine.arrivals = s.arrivals := by omega
  exact ((move.effect sound).intake (still.trans before.symm)).trans (same before)

theorem of_mem_takes {input : Input} {a : Arrival} (there : a ∈ s.takes input) :
    ∃ now, input = .command now (.append a.append) ∧ s.channelClosed = false := by
  unfold takes at there
  split at there
  · split at there
    · cases there
    · cases List.mem_singleton.mp there
      exact ⟨_, rfl, by simpa using ‹¬ s.channelClosed = true›⟩
  · cases there

theorem intake_step (sound : (Custody.rest s).Sound) (input : Input) :
    (s.step input).trace.filter Event.isIntake =
      s.trace.filter Event.isIntake ++ ((s.takes input).zipIdx s.arrivals).flatMap Arrival.told := by
  cases taken : s.takes input with
  | nil => rw [intake_of_quiet sound taken, List.zipIdx_nil, List.flatMap_nil, List.append_nil]
  | cons a =>
    obtain ⟨now, rfl, opened⟩ := of_mem_takes (taken ▸ List.mem_cons_self : a ∈ _)
    rw [← taken, step_command opened, takes, opened]
    rcases s.append_cases now a.append with ⟨error, fatal, same⟩ | ⟨alive, after, -, same⟩ <;>
      rw [handle, same]
    · simp only [Engine.emit, fatal, IdentityState.isFatal, List.filter_append]
      rfl
    · simp only [Engine.emit, alive, List.filter_append]
      rfl

/-- The arrivals are numbered in the order of the inputs, and the history tells of each in turn. -/
theorem intake_run (config : EngineConfig) (inputs : List Input) :
    (run config inputs).trace.filter Event.isIntake =
      ((spawn config).taken inputs).zipIdx.flatMap Arrival.told := by
  have later (s : Engine) (sound : (Custody.rest s).Sound) :
      (inputs.foldl step s).trace.filter Event.isIntake = s.trace.filter Event.isIntake ++
        ((s.taken inputs).zipIdx s.arrivals).flatMap Arrival.told := by
    induction inputs generalizing s with
    | nil => simp [Engine.taken]
    | cons input inputs ih =>
      have next : (Custody.rest (s.step input)).Sound :=
        invariant_of_step (p := {}) Custody.Sound (fun _ _ move => move.sound) (allows_any s input)
          sound
      rw [List.foldl_cons, ih _ next, intake_step sound, arrivals_step, Engine.taken, List.zipIdx_append,
        List.flatMap_append, List.append_assoc]
  exact later (spawn config) (run_sound config [])

theorem flatMap_intake {γ : Type} {f : Event → List γ}
    (only : ∀ event, event.isIntake = false → f event = []) (config : EngineConfig)
    (inputs : List Input) :
    (run config inputs).trace.flatMap f =
      ((spawn config).taken inputs).zipIdx.flatMap fun a => (Arrival.told a).flatMap f := by
  rw [← Lists.flatMap_filter only, intake_run, List.flatMap_assoc]

theorem arrivals_le_of_moves (moves : Moves p c c')
    (sound : c.Sound) : c.engine.arrivals ≤ c'.engine.arrivals := by
  induction moves using Relation.ReflTransGen.head_induction_on with
  | refl => exact Nat.le_refl _
  | head move _ ih => exact (move.arrivals_le sound).trans (ih (move.sound sound))

theorem opened_of_moves (moves : Moves p c c') (sound : c.Sound)
    (still : c'.engine.arrivals = c.engine.arrivals) {key : PartitionKey} {batch : Batch}
    (opened : (c'.engine.queue key).openBatch = some batch) :
    (c.engine.queue key).openBatch = some batch := by
  induction moves using Relation.ReflTransGen.head_induction_on with
  | refl => exact opened
  | head move rest ih =>
    have first := move.arrivals_le sound
    have later := arrivals_le_of_moves rest (move.sound sound)
    have between := ih (move.sound sound) (by omega)
    rcases move.opened between with same | ⟨s, now, append, rfl, rfl⟩
    · exact same
    · -- An append would have counted a record.
      have counted : (s.append now append).arrivals = s.arrivals + 1 :=
        congrArg (·.2.2) (append_marks s now append)
      simp only [Custody.rest] at still later
      omega

theorem openBatch_modifyQueue (s : Engine) (key other : PartitionKey) :
    ((s.modifyQueue key PartitionQueue.sealOpen).queue other).openBatch =
      if other = key then none else (s.queue other).openBatch := by
  cases present : s.partitions.lookup key with
  | none =>
    simp only [modifyQueue, present]
    split_ifs with here
    · subst here
      simp [Engine.queue, present]
    · rfl
  | some =>
    rw [modifyQueue_of_lookup present, queue_setQueue, Function.update_apply]
    split_ifs <;> rfl

theorem openBatch_sealActive
    (covered : ∀ key, s.lines key ≠ [] → key ∈ s.active.keys) (key : PartitionKey) :
    (s.sealActive.queue key).openBatch = none := by
  have sealing (keys : List PartitionKey) (s : Engine) :
      ((keys.foldl (fun s key => s.modifyQueue key PartitionQueue.sealOpen) s).queue
        key).openBatch = if key ∈ keys then none else (s.queue key).openBatch := by
    induction keys generalizing s with
    | nil => simp
    | cons first keys ih =>
      rw [List.foldl_cons, ih, openBatch_modifyQueue]
      by_cases here : key = first <;> by_cases there : key ∈ keys <;> simp [here, there]
  refine (sealing s.active.keys s).trans ?_
  split_ifs with active
  · rfl
  · -- A partition outside the active set has nothing at all.
    by_contra some
    refine active (covered key fun empty => some ?_)
    simp only [lines, PartitionQueue.batches, PartitionQueue.unsent, List.append_eq_nil_iff,
      Option.toList_eq_nil_iff] at empty
    exact empty.2.2

def OpensAfter (generation : Nat) (s : Engine) (generations : List Nat) : Prop :=
  ∀ key batch, (s.queue key).openBatch = some batch →
    ∀ record ∈ batch.records, ∃ g, generations[record.tag]? = some g ∧ generation < g

structure Flushed (generation : Nat) (s : Engine) (generations : List Nat) : Prop where
  sealed : ∃ last, s.sealedThrough = some last ∧ generation ≤ last
  opens : OpensAfter generation s generations

section Flushed

variable {s : Engine} {generation : Nat} {generations : List Nat}

theorem Flushed.mono (flushed : Flushed generation s generations) {earlier : Nat}
    (before : earlier ≤ generation) : Flushed earlier s generations := by
  obtain ⟨last, sealed, most⟩ := flushed.sealed
  refine ⟨⟨last, sealed, before.trans most⟩, fun key batch opened record listed => ?_⟩
  obtain ⟨g, arrived, after⟩ := flushed.opens key batch opened record listed
  exact ⟨g, arrived, before.trans_lt after⟩

theorem flushed_sealActive (covered : ∀ key, s.lines key ≠ [] → key ∈ s.active.keys) {last : Nat}
    (sealed : s.sealedThrough = some last) (most : generation ≤ last) :
    Flushed generation s.sealActive generations := by
  refine ⟨⟨last, (congrArg (·.1) (marks_sealActive s)).trans sealed, most⟩, ?_⟩
  intro key batch opened
  rw [openBatch_sealActive covered key] at opened
  cases opened

theorem Flushed.append (flushed : Flushed generation s generations)
    (length : generations.length = s.arrivals) (now : Instant) (append : Append) :
    Flushed generation (s.append now append) (generations ++ [append.generation]) := by
  obtain ⟨last, sealed, most⟩ := flushed.sealed
  have before (key : PartitionKey) (batch : Batch) (opened : (s.queue key).openBatch = some batch)
      (record : RecordData) (listed : record ∈ batch.records) :
      ∃ g, (generations ++ [append.generation])[record.tag]? = some g ∧ generation < g := by
    obtain ⟨g, arrived, after⟩ := flushed.opens key batch opened record listed
    exact ⟨g, List.getElem?_append_left (List.getElem?_eq_some_iff.mp arrived).1 ▸ arrived, after⟩
  refine ⟨⟨last, (congrArg (·.1) (append_marks s now append)).trans sealed, most⟩, ?_⟩
  intro key batch opened record listed
  rcases opened_append now append opened with same | ⟨unsealed, older, place, rfl⟩
  · exact before key batch same record listed
  · rcases List.mem_append.mp listed with old | new
    · rcases place with same | rfl
      · exact before key older same record old
      · cases old
    · obtain rfl := List.mem_singleton.mp new
      refine ⟨append.generation, by simp [← length], ?_⟩
      simp only [sealed, Option.any_some, decide_eq_false_iff_not, Nat.not_le] at unsealed
      exact most.trans_lt unsealed

theorem Flushed.step (flushed : Flushed generation s generations)
    (sound : (Custody.rest s).Sound) (length : generations.length = s.arrivals)
    (bound : generation < 2 ^ 64) (input : Input) :
    Flushed generation (s.step input) (generations ++ (s.arrival input).toList) := by
  rcases marks_step s input with
    ⟨same, none⟩ | ⟨now, append, rfl, opened⟩ | ⟨now, later, rfl, opened⟩ | ⟨rfl, opened⟩
  · obtain ⟨last, sealed, most⟩ := flushed.sealed
    rw [none, Option.toList_none, List.append_nil]
    refine ⟨⟨last, (congrArg (·.1) same).trans sealed, most⟩, fun key batch opened => ?_⟩
    exact flushed.opens key batch
      (opened_of_moves (moves_step (allows_any s input)) sound (congrArg (·.2.2) same) opened)
  · rw [step_command opened, arrival, opened]
    exact flushed.append length now append
  · obtain ⟨last, sealed, most⟩ := flushed.sealed
    rw [step_command opened]
    refine flushed_sealActive sound.covered rfl ?_
    rw [sealed]
    exact most.trans (Nat.le_max_left last later)
  · rw [step_closed opened]
    exact flushed_sealActive sound.covered rfl (Nat.le_sub_one_of_lt bound)

end Flushed

section Runs

variable {config : EngineConfig} {earlier : List Input} {generation : Nat}

theorem run_concat (config : EngineConfig) (inputs : List Input) (input : Input) :
    run config (inputs ++ [input]) = (run config inputs).step input := run_append config inputs [input]

theorem generations_concat (config : EngineConfig) (inputs : List Input) (input : Input) :
    (spawn config).generations (inputs ++ [input]) =
      (spawn config).generations inputs ++ ((run config inputs).arrival input).toList := by
  rw [generations_append]
  simp [Engine.generations, run]

theorem length_generations (config : EngineConfig) (inputs : List Input) :
    ((spawn config).generations inputs).length = (run config inputs).arrivals := by
  induction inputs using List.reverseRecOn with
  | nil => rfl
  | append_singleton inputs input ih =>
    rw [generations_concat, List.length_append, ih, run_concat, arrivals_counted]

theorem Flushed.later
    (flushed : Flushed generation (run config earlier) ((spawn config).generations earlier))
    (bound : generation < 2 ^ 64) (inputs : List Input) :
    Flushed generation (run config (earlier ++ inputs))
      ((spawn config).generations (earlier ++ inputs)) := by
  induction inputs using List.reverseRecOn with
  | nil => simpa using flushed
  | append_singleton inputs input ih =>
    rw [← List.append_assoc, run_concat, generations_concat]
    exact ih.step (run_sound config _) (length_generations config _) bound input

theorem closed_of_step {s : Engine} {input : Input} (opened : s.channelClosed = false)
    (closed : (s.step input).channelClosed) : input = .closed := by
  have kept {s' : Engine} (same : s'.channelClosed = s.channelClosed)
      (closed : s'.channelClosed) : False := by
    rw [same, opened] at closed
    cases closed
  rcases marks_step s input with
    ⟨same, -⟩ | ⟨now, append, rfl, -⟩ | ⟨now, generation, rfl, -⟩ | ⟨rfl, -⟩
  · exact (kept (congrArg (·.2.1) same) closed).elim
  · rw [step_command opened] at closed
    exact (kept (congrArg (·.2.1) (append_marks s now append)) closed).elim
  · rw [step_command opened] at closed
    exact (kept (congrArg (·.2.1) (marks_sealActive _)) closed).elim
  · rfl

theorem flushed_of_closed (closed : (run config earlier).channelClosed) :
    Flushed (2 ^ 64 - 1) (run config earlier) ((spawn config).generations earlier) := by
  induction earlier using List.reverseRecOn with
  | nil => cases closed
  | append_singleton inputs input ih =>
    have sound := run_sound config inputs
    rw [run_concat] at closed ⊢
    rw [generations_concat]
    cases before : (run config inputs).channelClosed with
    | true => exact (ih before).step sound (length_generations config inputs) (by decide) input
    | false =>
      obtain rfl := closed_of_step before closed
      rw [step_closed before]
      exact flushed_sealActive sound.covered rfl (Nat.le_refl _)

theorem flushed_of_flush (opened : (run config earlier).channelClosed = false) (now : Instant)
    (generation : Nat) :
    Flushed generation (run config (earlier ++ [.command now (.flush generation)]))
      ((spawn config).generations (earlier ++ [.command now (.flush generation)])) := by
  have covered := (run_sound config earlier).covered
  rw [run_concat, step_command opened]
  refine flushed_sealActive covered rfl ?_
  cases (run config earlier).sealedThrough with
  | none => exact Nat.le_refl _
  | some last => exact Nat.le_max_right last generation

/-- After a flush was handled no record of its generation or an earlier one is in an open batch,
whatever comes later. -/
theorem flush_leaves_nothing_behind (config : EngineConfig) (earlier later : List Input)
    (now : Instant) (generation : UInt64) :
    OpensAfter generation.toNat
      (run config (earlier ++ .command now (.flush generation.toNat) :: later))
      ((spawn config).generations
        (earlier ++ .command now (.flush generation.toNat) :: later)) := by
  have bound : generation.toNat < 2 ^ 64 := generation.toNat_lt
  cases closed : (run config earlier).channelClosed with
  | true =>
    have flushed := (flushed_of_closed closed).mono (Nat.le_sub_one_of_lt bound)
    exact (flushed.later bound _).opens
  | false =>
    rw [List.append_cons]
    exact ((flushed_of_flush closed now generation.toNat).later bound later).opens

end Runs

end Krafka.Producer
