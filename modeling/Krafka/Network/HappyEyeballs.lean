import Krafka.Error
import Krafka.Library.Runs
import Mathlib.Data.List.Perm.Basic
import Mathlib.Data.List.Range

/-! Racing connection attempts: addresses in turns by family, attempts started one after another
on failures and on a timer, and the first that connects. -/

namespace Krafka.Network

open List

structure SocketAddr where
  isIpv6 : Bool
  text : String

/-! ## The order of the addresses -/

def interleave : List SocketAddr → List SocketAddr → List SocketAddr
  | a6 :: i6, a4 :: i4 => a6 :: a4 :: interleave i6 i4
  | a6 :: i6, [] => a6 :: i6
  | [], i4 => i4

def ipv6 (addrs : List SocketAddr) : List SocketAddr := addrs.filter (·.isIpv6)
def ipv4 (addrs : List SocketAddr) : List SocketAddr := addrs.filter (!·.isIpv6)

def interleaveAddressFamilies (addrs : List SocketAddr) : List SocketAddr :=
  let v6 := ipv6 addrs
  let v4 := ipv4 addrs
  if v6.isEmpty then v4
  else if v4.isEmpty then v6
  else interleave v6 v4

theorem interleaveAddressFamilies_eq (addrs : List SocketAddr) :
    interleaveAddressFamilies addrs = interleave (ipv6 addrs) (ipv4 addrs) := by
  unfold interleaveAddressFamilies
  cases ipv6 addrs <;> cases ipv4 addrs <;> rfl

theorem interleave_perm (l l' : List SocketAddr) : (interleave l l').Perm (l ++ l') := by
  induction l generalizing l' with
  | nil => simp [interleave]
  | cons a l ih =>
    cases l' with
    | nil => simp [interleave]
    | cons b l' =>
      have step : (b :: interleave l l').Perm (l ++ b :: l') :=
        ((ih l').cons b).trans perm_middle.symm
      exact step.cons a

theorem filter_interleave {p : SocketAddr → Bool} {l l' : List SocketAddr}
    (one : (∀ a ∈ l', p a = false) ∨ ∀ a ∈ l, p a = false) :
    (interleave l l').filter p = (l ++ l').filter p := by
  induction l generalizing l' with
  | nil => simp [interleave]
  | cons a l ih =>
    cases l' with
    | nil => simp [interleave]
    | cons b l' =>
      have rest := @ih l' (one.imp (fun h c held => h c (by simp [held]))
        fun h c held => h c (by simp [held]))
      rw [filter_append] at rest
      rcases one with fails | fails
      · have none_right : (b :: l').filter p = [] := by
          simpa [filter_eq_nil_iff] using fails
        have none_rest : l'.filter p = [] := by
          rw [filter_cons, if_neg (by simp [fails b])] at none_right
          exact none_right
        rw [filter_append, none_right]
        rw [none_rest] at rest
        simp [interleave, filter_cons, rest, fails b]
      · have none_left : (a :: l).filter p = [] := by
          simpa [filter_eq_nil_iff] using fails
        have none_rest : l.filter p = [] := by
          rw [filter_cons, if_neg (by simp [fails a])] at none_left
          exact none_left
        rw [filter_append, none_left]
        rw [none_rest] at rest
        simp [interleave, filter_cons, rest, fails a]

theorem interleave_turns {l l' : List SocketAddr} {k : Nat} (left : k < l.length)
    (right : k < l'.length) :
    (interleave l l')[2 * k]? = l[k]? ∧ (interleave l l')[2 * k + 1]? = l'[k]? := by
  induction k generalizing l l' with
  | zero =>
    obtain ⟨a, l, rfl⟩ := exists_cons_of_length_pos left
    obtain ⟨b, l', rfl⟩ := exists_cons_of_length_pos right
    exact ⟨rfl, rfl⟩
  | succ k ih =>
    match l, l' with
    | a :: l, b :: l' =>
      exact ih (Nat.lt_of_succ_lt_succ left) (Nat.lt_of_succ_lt_succ right)

/-- An order of the addresses: all of them, in their order within each family, and in turns,
IPv6 first, as long as both families last. -/
structure InTurns (addrs order : List SocketAddr) : Prop where
  perm : order.Perm addrs
  within6 : ipv6 order = ipv6 addrs
  within4 : ipv4 order = ipv4 addrs
  turns : ∀ k, k < (ipv6 addrs).length → k < (ipv4 addrs).length →
    order[2 * k]? = (ipv6 addrs)[k]? ∧ order[2 * k + 1]? = (ipv4 addrs)[k]?

theorem inTurns_interleaveAddressFamilies (addrs : List SocketAddr) :
    InTurns addrs (interleaveAddressFamilies addrs) := by
  have six : ∀ a ∈ ipv6 addrs, a.isIpv6 = true := fun a held => (mem_filter.mp held).2
  have four : ∀ a ∈ ipv4 addrs, a.isIpv6 = false := fun a held => by
    simpa using (mem_filter.mp held).2
  rw [interleaveAddressFamilies_eq]
  refine ⟨(interleave_perm _ _).trans (filter_append_perm _ _), ?_, ?_,
    fun k left right => interleave_turns left right⟩
  · rw [ipv6, filter_interleave (.inl four), filter_append, filter_eq_self.mpr six,
      filter_eq_nil_iff.mpr (by simpa using four), append_nil]
  · rw [ipv4, filter_interleave (.inr (by simpa using six)), filter_append,
      filter_eq_nil_iff.mpr (by simpa using six),
      filter_eq_self.mpr (by simpa using four), nil_append]

/-! ## The race -/

variable {Stream : Type}

inductive Ended (Stream : Type) where
  | connected (stream : Stream)
  | failed (error : KrafkaError)
  | panicked

inductive RaceEvent (Stream : Type) where
  | joined (attempt : Nat) (how : Ended Stream)
  | stagger
  | deadline

structure Race (Stream : Type) where
  nextIdx : Nat := 0
  running : List Nat := []
  errors : List (SocketAddr × KrafkaError) := []
  outcome : Option (Result Stream) := none
  started : List SocketAddr := []
  ended : List (Nat × Ended Stream) := []

def buildCombinedError (errors : List (SocketAddr × KrafkaError)) : KrafkaError :=
  match errors.getLast? with
  | none => .network "all connection attempts failed"
  | some (addr, last) =>
    if errors.length = 1 then .network s!"connection to {addr.text} failed: {last.display}"
    else
      let details := "\n".intercalate
        (errors.map fun (addr, e) => s!"  {addr.text}: {e.display}")
      .network s!"all {errors.length} connection attempts failed:\n{details}"

def deadlineError : KrafkaError := .timeout "connection (Happy Eyeballs)"

namespace Race

section Steps

variable (addrs : List SocketAddr)

def launch (race : Race Stream) : Race Stream :=
  match addrs[race.nextIdx]? with
  | some addr =>
    { race with
      nextIdx := race.nextIdx + 1
      running := race.running ++ [race.nextIdx]
      started := race.started ++ [addr] }
  | none => race

def finish (race : Race Stream) : Race Stream :=
  if race.running.isEmpty ∧ addrs.length ≤ race.nextIdx then
    { race with outcome := some (.error (buildCombinedError race.errors)) }
  else race

def join (race : Race Stream) (attempt : Nat) (how : Ended Stream) : Race Stream :=
  let race := { race with
    running := race.running.erase attempt, ended := race.ended ++ [(attempt, how)] }
  match how with
  | .connected stream => { race with outcome := some (.ok stream) }
  | .failed e =>
    let failure := addrs[attempt]?.toList.map (·, e)
    finish addrs (launch addrs { race with errors := race.errors ++ failure })
  | .panicked => finish addrs (launch addrs race)

def step (race : Race Stream) (event : RaceEvent Stream) : Race Stream :=
  if race.outcome.isSome then race
  else
    match event with
    | .joined attempt how => if attempt ∈ race.running then race.join addrs attempt how else race
    | .stagger => race.launch addrs
    | .deadline => { race with outcome := some (.error deadlineError) }

def start : Race Stream := launch addrs {}

def run (events : List (RaceEvent Stream)) : Race Stream := events.foldl (step addrs) (start addrs)

end Steps

def success : Nat × Ended Stream → Option Stream
  | (_, .connected stream) => some stream
  | _ => none

def failure (addrs : List SocketAddr) : Nat × Ended Stream → List (SocketAddr × KrafkaError)
  | (attempt, .failed e) => addrs[attempt]?.toList.map (·, e)
  | _ => []

structure Kept (addrs : List SocketAddr) (race : Race Stream) : Prop where
  started : race.started = addrs.take race.nextIdx
  within : race.nextIdx ≤ addrs.length
  attempts : (race.running ++ race.ended.map (·.1)).Perm (List.range race.nextIdx)
  errors : race.errors = race.ended.flatMap (failure addrs)

structure Sound (addrs : List SocketAddr) (race : Race Stream) : Prop extends Kept addrs race where
  waits : race.outcome = none → race.running ≠ [] ∧ race.ended.findSome? success = none
  won : ∀ stream, race.outcome = some (.ok stream) →
    race.ended.findSome? success = some stream
  lost : ∀ e, race.outcome = some (.error e) → race.ended.findSome? success = none ∧
    (e = deadlineError ∨ e = buildCombinedError race.errors ∧
      race.nextIdx = addrs.length ∧ race.running = [])

variable {addrs : List SocketAddr} {race : Race Stream}

theorem Kept.launch (kept : Kept addrs race) : Kept addrs (race.launch addrs) := by
  unfold Race.launch
  split
  next addr next =>
    obtain ⟨bound, eq⟩ := List.getElem?_eq_some_iff.mp next
    refine ⟨?_, bound, ?_, kept.errors⟩
    · dsimp only
      rw [kept.started, take_succ_eq_append_getElem bound, eq]
    · have moved : (race.running ++ [race.nextIdx] ++ race.ended.map (·.1)).Perm
          (race.running ++ race.ended.map (·.1) ++ [race.nextIdx]) := by
        rw [append_assoc, append_assoc]
        exact perm_append_comm.append_left _
      rw [range_succ]
      exact moved.trans (kept.attempts.append_right _)
  · exact kept

theorem launch_frame (addrs : List SocketAddr) (race : Race Stream) :
    (race.launch addrs).ended = race.ended ∧ (race.launch addrs).outcome = race.outcome := by
  unfold launch
  split <;> exact ⟨rfl, rfl⟩

/-- The end that a race takes notice of. -/
def noticed (race : Race Stream) : RaceEvent Stream → List (Nat × Ended Stream)
  | .joined attempt how =>
    if race.outcome = none ∧ attempt ∈ race.running then [(attempt, how)] else []
  | _ => []

theorem ended_step (addrs : List SocketAddr) (race : Race Stream) (event : RaceEvent Stream) :
    (race.step addrs event).ended = race.ended ++ race.noticed event := by
  have finished (r : Race Stream) : ((r.launch addrs).finish addrs).ended = r.ended := by
    refine Eq.trans ?_ (launch_frame addrs r).1
    unfold finish
    split <;> rfl
  unfold step
  cases event with
  | joined attempt how =>
    by_cases undecided : race.outcome = none
    · by_cases runs : attempt ∈ race.running
      · rw [if_neg (by simp [undecided]), noticed, if_pos ⟨undecided, runs⟩]
        dsimp only
        rw [if_pos runs]
        cases how with
        | connected => rfl
        | failed | panicked => exact finished _
      · simp [noticed, undecided, runs]
    · simp [noticed, undecided, Option.isSome_iff_ne_none]
  | stagger =>
    split
    · exact (append_nil _).symm
    · exact (launch_frame addrs race).1.trans (append_nil _).symm
  | deadline => split <;> exact (append_nil _).symm

theorem le_of_launch_idle (idle : (race.launch addrs).running = []) :
    addrs.length ≤ (race.launch addrs).nextIdx := by
  cases next : addrs[race.nextIdx]? with
  | some => simp [launch, next] at idle
  | none =>
    simp only [launch, next]
    exact List.getElem?_eq_none_iff.mp next

theorem sound_finish (kept : Kept addrs race) (open_race : race.outcome = none)
    (unseen : race.ended.findSome? success = none) :
    Sound addrs ((race.launch addrs).finish addrs) := by
  have kept' := kept.launch
  obtain ⟨ended, outcome⟩ := launch_frame addrs race
  rw [← ended] at unseen
  rw [open_race] at outcome
  unfold finish
  split
  next done =>
    refine ⟨⟨kept'.started, kept'.within, kept'.attempts, kept'.errors⟩, nofun, nofun, ?_⟩
    rintro e ⟨⟩
    exact ⟨unseen, .inr ⟨rfl, le_antisymm kept'.within done.2, isEmpty_iff.mp done.1⟩⟩
  next more =>
    refine ⟨kept', fun _ => ⟨fun idle => more ⟨by simp [idle], le_of_launch_idle idle⟩, unseen⟩,
      fun stream won => ?_, fun e lost => ?_⟩
    · rw [outcome] at won
      cases won
    · rw [outcome] at lost
      cases lost

theorem attempts_erase (kept : Kept addrs race) {attempt : Nat} (runs : attempt ∈ race.running)
    (how : Ended Stream) :
    (race.running.erase attempt ++ (race.ended ++ [(attempt, how)]).map (·.1)).Perm
      (List.range race.nextIdx) := by
  refine List.Perm.trans ?_ kept.attempts
  rw [map_append, map_singleton, ← append_assoc]
  refine perm_append_comm.trans ?_
  exact ((perm_cons_erase runs).symm.append_right _)

theorem Sound.join (sound : Sound addrs race) (open_race : race.outcome = none) {attempt : Nat}
    (runs : attempt ∈ race.running) (how : Ended Stream) :
    Sound addrs (race.join addrs attempt how) := by
  have unseen := (sound.waits open_race).2
  have attempts := attempts_erase sound.toKept runs how
  have errors : (race.ended ++ [(attempt, how)]).flatMap (failure addrs) =
      race.errors ++ failure addrs (attempt, how) := by
    simp [sound.errors]
  cases how with
  | connected =>
    refine ⟨⟨sound.started, sound.within, attempts, ?_⟩, nofun, ?_, nofun⟩
    · simpa [failure, Race.join] using sound.errors
    · rintro _ ⟨⟩
      simp [Race.join, unseen, success]
  | failed =>
    refine sound_finish ⟨sound.started, sound.within, attempts, ?_⟩ open_race ?_
    · exact errors.symm
    · simp [unseen, success]
  | panicked =>
    refine sound_finish ⟨sound.started, sound.within, attempts, ?_⟩ open_race ?_
    · rw [errors]
      simp [failure]
    · simp [unseen, success]

theorem Sound.step (sound : Sound addrs race) (event : RaceEvent Stream) :
    Sound addrs (race.step addrs event) := by
  unfold Race.step
  split
  · exact sound
  next still =>
    have open_race : race.outcome = none := by simpa using still
    have unseen := (sound.waits open_race).2
    cases event with
    | joined attempt how =>
      dsimp only
      split
      next runs => exact sound.join open_race runs how
      · exact sound
    | stagger =>
      obtain ⟨ended, outcome⟩ := launch_frame addrs race
      rw [open_race] at outcome
      have busy : (race.launch addrs).running ≠ [] := by
        unfold launch
        split
        · simp
        · exact (sound.waits open_race).1
      refine ⟨sound.toKept.launch, fun _ => ⟨busy, ?_⟩, fun stream won => ?_, fun e lost => ?_⟩
      · exact (congrArg _ ended).trans unseen
      · exact absurd (outcome.symm.trans won) nofun
      · exact absurd (outcome.symm.trans lost) nofun
    | deadline =>
      refine ⟨⟨sound.started, sound.within, sound.attempts, sound.errors⟩, nofun, nofun, ?_⟩
      rintro e ⟨⟩
      exact ⟨unseen, .inl rfl⟩

theorem sound_start (some_addr : addrs ≠ []) : Sound addrs (start addrs : Race Stream) := by
  have kept : Kept addrs ({} : Race Stream) := ⟨rfl, Nat.zero_le _, .refl _, rfl⟩
  obtain ⟨ended, outcome⟩ := launch_frame addrs ({} : Race Stream)
  obtain ⟨addr, rest, rfl⟩ := exists_cons_of_ne_nil some_addr
  exact ⟨kept.launch, fun _ => ⟨by simp [start, launch], rfl⟩, nofun, nofun⟩

theorem sound_run (some_addr : addrs ≠ []) (events : List (RaceEvent Stream)) :
    Sound addrs (run addrs events) := by
  unfold run
  have sound : Sound addrs (start addrs : Race Stream) := sound_start some_addr
  revert sound
  generalize (start addrs : Race Stream) = race
  intro sound
  induction events generalizing race with
  | nil => exact sound
  | cons event events ih => exact ih _ (sound.step event)

theorem Sound.outcome_ok (sound : Sound addrs race) (stream : Stream) :
    race.outcome = some (.ok stream) ↔ race.ended.findSome? success = some stream := by
  refine ⟨sound.won stream, fun seen => ?_⟩
  match outcome : race.outcome with
  | none => simp [(sound.waits outcome).2] at seen
  | some (.ok other) =>
    rw [sound.won other outcome, Option.some.injEq] at seen
    rw [seen]
  | some (.error e) => simp [(sound.lost e outcome).1] at seen

theorem Sound.outcome_error (sound : Sound addrs race) {e : KrafkaError}
    (lost : race.outcome = some (.error e)) :
    e = deadlineError ∨ e = buildCombinedError race.errors ∧ race.started = addrs ∧
      (race.ended.map (·.1)).Perm (List.range addrs.length) := by
  refine (sound.lost e lost).2.imp_right fun ⟨combined, all, idle⟩ => ⟨combined, ?_, ?_⟩
  · rw [sound.started, all, take_length]
  · simpa [idle, all] using sound.attempts

end Race

/-- Whatever order attempts end and the timer fires in: the addresses are tried in turns by family,
each at most once; a stream is returned just when one was seen, and it is the first; and short of
the deadline an error is returned only after all have been tried. The end of every attempt that runs
is seen until there is a result. -/
theorem staggered_connect_races (resolved : List SocketAddr) (many : 2 ≤ resolved.length)
    (events : List (RaceEvent Stream)) :
    InTurns resolved (interleaveAddressFamilies resolved) ∧
    (Race.run (interleaveAddressFamilies resolved) events).started <+:
      interleaveAddressFamilies resolved ∧
    (∀ stream, (Race.run (interleaveAddressFamilies resolved) events).outcome =
        some (.ok stream) ↔
      (Race.run (interleaveAddressFamilies resolved) events).ended.findSome? Race.success =
        some stream) ∧
    (∀ e, (Race.run (interleaveAddressFamilies resolved) events).outcome = some (.error e) →
      e = deadlineError ∨
      e = buildCombinedError (Race.run (interleaveAddressFamilies resolved) events).errors ∧
      (Race.run (interleaveAddressFamilies resolved) events).started =
        interleaveAddressFamilies resolved ∧
      ((Race.run (interleaveAddressFamilies resolved) events).ended.map (·.1)).Perm
        (List.range (interleaveAddressFamilies resolved).length)) ∧
    ∀ event, (Race.run (interleaveAddressFamilies resolved) (events ++ [event])).ended =
      (Race.run (interleaveAddressFamilies resolved) events).ended ++
        (Race.run (interleaveAddressFamilies resolved) events).noticed event := by
  have order := inTurns_interleaveAddressFamilies resolved
  have some_addr : interleaveAddressFamilies resolved ≠ [] := by
    intro none_left
    have length := order.perm.length_eq
    rw [none_left, length_nil] at length
    omega
  have sound := Race.sound_run some_addr events
  refine ⟨order, ?_, sound.outcome_ok, fun e lost => sound.outcome_error lost, fun event => ?_⟩
  · rw [sound.started]
    exact take_prefix _ _
  · rw [Race.run, foldl_concat]
    exact Race.ended_step _ _ event

def sampleAddresses : List SocketAddr := [⟨false, "10.0.0.1:9092"⟩, ⟨true, "[::1]:9092"⟩]

def sampleEvents : List (RaceEvent Unit) :=
  [.stagger, .joined 1 .panicked, .joined 0 (.failed (.network "refused"))]

theorem sampleAddresses_race :
    (Race.run (interleaveAddressFamilies sampleAddresses) sampleEvents).outcome =
      some (.error (.network "connection to [::1]:9092 failed: network error: refused")) ∧
    ((Race.run (interleaveAddressFamilies sampleAddresses) sampleEvents).ended.map (·.1)).Perm
      (List.range 2) := by
  have lost : (Race.run (interleaveAddressFamilies sampleAddresses) sampleEvents).outcome =
      some (.error (.network "connection to [::1]:9092 failed: network error: refused")) := rfl
  refine ⟨lost, ?_⟩
  rcases (staggered_connect_races sampleAddresses (by decide) sampleEvents).2.2.2.1 _ lost with
    late | ⟨-, -, ended⟩
  · cases late
  · exact ended

/-- A race is over, or an attempt runs whose end is waited for, and fewer attempts have ended than
there are addresses: one end for each address is always enough. -/
theorem race_is_over_or_runs (addr : SocketAddr) (addrs : List SocketAddr)
    (events : List (RaceEvent Stream)) :
    (Race.run (addr :: addrs) events).outcome.isSome ∨
      (Race.run (addr :: addrs) events).running ≠ [] ∧
        (Race.run (addr :: addrs) events).ended.length ≤ addrs.length := by
  have sound := Race.sound_run (cons_ne_nil addr addrs) events
  cases outcome : (Race.run (addr :: addrs) events).outcome with
  | some => exact .inl rfl
  | none =>
    obtain ⟨busy, -⟩ := sound.waits outcome
    have counted := sound.attempts.length_eq
    have within : _ ≤ addrs.length + 1 := sound.within
    have running := length_pos_of_ne_nil busy
    rw [length_append, length_map, length_range] at counted
    exact .inr ⟨busy, by omega⟩

end Krafka.Network
