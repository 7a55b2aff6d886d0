import Krafka.Error
import Krafka.Library.Maps
import Krafka.Library.Runs

/-! The in-flight barrier. Operations are counted by the generation they started in; ending a
generation and waiting for it waits for exactly the operations that started before. A step below
is one section under the state lock, one broadcast, or one turn of a waiting task. -/

namespace Krafka.Barrier

open Runs AList

structure Generations where
  current : Nat := 0
  running : AList fun _ : Nat => Nat := ∅

namespace Generations

variable (s : Generations)

def enter : Generations :=
  { s with running := s.running.insert s.current ((s.running.lookup s.current).getD 0 + 1) }

def leave (generation : Nat) : Generations :=
  match s.running.lookup generation with
  | none => s
  | some count =>
    { s with
      running :=
        if count - 1 = 0 then s.running.erase generation
        else s.running.insert generation (count - 1) }

def isDrained (generation : Nat) : Bool := s.running.keys.all (generation < ·)

end Generations

inductive WaitStage where
  | arming
  | checking
  | awaiting
  | returned
  | cancelled
  deriving DecidableEq

structure Waiter where
  generation : Nat
  stage : WaitStage := .arming
  notified : Bool := false
  deriving DecidableEq

inductive Event where
  | started (op generation : Nat)
  | refused (error : KrafkaError)
  | ended (generation : Nat)
  | closed
  | dropped (op : Nat)
  | returned (waiter generation : Nat)
  deriving DecidableEq

structure InFlightBarrier where
  closing : Bool := false
  state : Generations := {}
  starts : Nat := 0
  holding : AList fun _ : Nat => Nat := ∅
  completing : AList fun _ : Nat => Nat := ∅
  waiters : List Waiter := []
  trace : List Event := []

inductive Input where
  | start (owner : String)
  | drop (op : Nat)
  | notifyWaiters (op : Nat)
  | snapshot
  | beginClose
  | waitFor (generation : Nat)
  | turn (waiter : Nat)
  | cancel (waiter : Nat)
  deriving DecidableEq

namespace InFlightBarrier

variable (b : InFlightBarrier)

def start (owner : String) : InFlightBarrier :=
  if b.closing then { b with trace := b.trace ++ [.refused (.closed s!"{owner} is closed")] }
  else
    { b with
      state := b.state.enter
      starts := b.starts + 1
      holding := b.holding.insert b.starts b.state.current
      trace := b.trace ++ [.started b.starts b.state.current] }

def drop (op : Nat) : InFlightBarrier :=
  match b.holding.lookup op with
  | none => b
  | some generation =>
    { b with
      state := b.state.leave generation
      holding := b.holding.erase op
      completing := b.completing.insert op generation
      trace := b.trace ++ [.dropped op] }

def notifyWaiters (op : Nat) : InFlightBarrier :=
  match b.completing.lookup op with
  | none => b
  | some _ =>
    { b with
      completing := b.completing.erase op
      waiters := b.waiters.map fun w => { w with notified := true } }

def snapshot : InFlightBarrier :=
  { b with
    state := { b.state with current := b.state.current + 1 }
    trace := b.trace ++ [.ended b.state.current] }

def beginClose : InFlightBarrier :=
  if b.closing then { b with trace := b.trace ++ [.closed] }
  else
    -- Under the same lock: the generation ends, and its operations are the last.
    { b.snapshot with closing := true, trace := b.snapshot.trace ++ [.closed] }

def waitFor (generation : Nat) : InFlightBarrier :=
  { b with waiters := b.waiters ++ [{ generation }] }

def setWaiter (i : Nat) (w : Waiter) : InFlightBarrier := { b with waiters := b.waiters.set i w }

def turn (i : Nat) : InFlightBarrier :=
  match b.waiters[i]? with
  | none => b
  | some w =>
    match w.stage with
    | .arming => b.setWaiter i { w with stage := .checking, notified := false }
    | .checking =>
      if b.state.isDrained w.generation then
        { b.setWaiter i { w with stage := .returned } with
          trace := b.trace ++ [.returned i w.generation] }
      else b.setWaiter i { w with stage := .awaiting }
    | .awaiting => if w.notified then b.setWaiter i { w with stage := .arming } else b
    | .returned | .cancelled => b

def cancel (i : Nat) : InFlightBarrier :=
  match b.waiters[i]? with
  | none => b
  | some w => b.setWaiter i { w with stage := .cancelled }

def step : Input → InFlightBarrier
  | .start owner => b.start owner
  | .drop op => b.drop op
  | .notifyWaiters op => b.notifyWaiters op
  | .snapshot => b.snapshot
  | .beginClose => b.beginClose
  | .waitFor generation => b.waitFor generation
  | .turn i => b.turn i
  | .cancel i => b.cancel i

end InFlightBarrier

open InFlightBarrier

def run (inputs : List Input) : InFlightBarrier := inputs.foldl step {}

/-! What is counted -/

section Counting

variable {holding : AList fun _ : Nat => Nat} {s : Generations} {g op generation : Nat}

def held (holding : AList fun _ : Nat => Nat) (g : Nat) : Nat :=
  holding.total fun _ generation => if generation = g then 1 else 0

def Counts (s : Generations) (holding : AList fun _ : Nat => Nat) : Prop :=
  ∀ g, (s.running.lookup g).getD 0 = held holding g ∧ s.running.lookup g ≠ some 0

theorem held_split (holding : AList fun _ : Nat => Nat) (op g : Nat) :
    held holding g =
      (if holding.lookup op = some g then 1 else 0) + held (holding.erase op) g := by
  have split := total_eq_weight_add_erase
    (fun _ generation => if generation = g then 1 else 0) holding op
  have weight : holding.weight (fun _ generation => if generation = g then 1 else 0) op =
      if holding.lookup op = some g then 1 else 0 := by
    cases found : holding.lookup op <;> simp [weight, found]
  rwa [weight] at split

theorem held_pos : 0 < held holding g ↔ ∃ op, holding.lookup op = some g := by
  constructor
  · intro some
    by_contra none
    have zero : held holding g = 0 := by
      refine List.sum_eq_zero ?_
      intro weight there
      obtain ⟨e, listed, rfl⟩ := List.mem_map.mp there
      refine if_neg fun here => none ⟨e.1, ?_⟩
      rw [← here]
      exact List.mem_dlookup holding.nodupKeys listed
    omega
  · rintro ⟨op, here⟩
    rw [held_split holding op g, if_pos here]
    omega

theorem held_insert (fresh : holding.lookup op = none) (generation g : Nat) :
    held (holding.insert op generation) g = held holding g + if generation = g then 1 else 0 := by
  have moved := total_insert
    (fun _ generation => if generation = g then 1 else 0) holding op generation
  have weight : holding.weight (fun _ generation => if generation = g then 1 else 0) op = 0 := by
    simp [weight, fresh]
  rw [weight] at moved
  exact moved

theorem held_erase (here : holding.lookup op = some generation) (g : Nat) :
    held holding g = (if generation = g then 1 else 0) + held (holding.erase op) g := by
  simpa [here] using held_split holding op g

theorem Counts.enter (counts : Counts s holding) (fresh : holding.lookup op = none) :
    Counts s.enter (holding.insert op s.current) := by
  intro g
  rw [held_insert fresh]
  by_cases here : g = s.current
  · subst here
    simp [Generations.enter, (counts s.current).1]
  · have lookup : s.enter.running.lookup g = s.running.lookup g := lookup_insert_ne here
    rw [lookup, if_neg (Ne.symm here)]
    exact counts g

theorem Counts.leave (counts : Counts s holding) (here : holding.lookup op = some generation) :
    Counts (s.leave generation) (holding.erase op) := by
  have one := held_erase here generation
  rw [if_pos rfl] at one
  obtain ⟨count, running⟩ : ∃ count, s.running.lookup generation = some count := by
    have same := (counts generation).1
    cases found : s.running.lookup generation with
    | none => simp [found, one] at same; omega
    | some count => exact ⟨count, rfl⟩
  have same : count = held holding generation := by
    simpa [running] using (counts generation).1
  intro g
  simp only [Generations.leave, running]
  by_cases there : g = generation
  · subst there
    split
    · simp only [lookup_erase, Option.getD_none]
      exact ⟨by omega, nofun⟩
    · simp only [lookup_insert, Option.getD_some, ne_eq, Option.some.injEq]
      exact ⟨by omega, by omega⟩
  · have other := held_erase here g
    rw [if_neg (Ne.symm there), Nat.zero_add] at other
    rw [← other]
    split
    · rw [lookup_erase_ne there]
      exact counts g
    · rw [lookup_insert_ne there]
      exact counts g

theorem Counts.isDrained_iff (counts : Counts s holding) :
    s.isDrained generation ↔ ∀ op g, holding.lookup op = some g → generation < g := by
  have listed (g : Nat) : g ∈ s.running.keys ↔ ∃ op, holding.lookup op = some g := by
    have same := counts g
    rw [← held_pos, ← same.1]
    cases found : s.running.lookup g with
    | none => simpa [mem_keys] using lookup_eq_none.mp found
    | some count =>
      have present : g ∈ s.running.keys := mem_of_lookup found
      have positive : count ≠ 0 := fun zero => same.2 (by rw [found, zero])
      simp only [present, Option.getD_some, true_iff]
      omega
  simp only [Generations.isDrained, List.all_eq_true, decide_eq_true_eq, listed]
  constructor
  · exact fun drained op g here => drained g ⟨op, here⟩
  · rintro above g ⟨op, here⟩
    exact above op g here

end Counting

/-! What a wait waits for -/

def Earlier (trace : List Event) (generation op : Nat) : Prop :=
  ∃ g, [.started op g, .ended generation].Sublist trace

/-- A wait for an ended generation returns only after every earlier operation has dropped its
guard, and nothing starts after a close. -/
def Ruled (before : List Event) : Event → Prop
  | .returned _ generation => ∀ op, Earlier before generation op → .dropped op ∈ before
  | .started _ _ => .closed ∉ before
  | _ => True

structure Told (b : InFlightBarrier) : Prop where
  held : ∀ op g, b.holding.lookup op = some g ↔ .started op g ∈ b.trace ∧ .dropped op ∉ b.trace
  started : ∀ op g, .started op g ∈ b.trace → op < b.starts ∧ g ≤ b.state.current
  dropped : ∀ op, .dropped op ∈ b.trace → op < b.starts
  ended : ∀ e, .ended e ∈ b.trace → e < b.state.current
  earlier : ∀ op g e, [.started op g, .ended e].Sublist b.trace → g ≤ e
  ordered : ∀ op g e, .started op g ∈ b.trace → .ended e ∈ b.trace → g ≤ e →
    [.started op g, .ended e].Sublist b.trace
  completing : ∀ op g, b.completing.lookup op = some g →
    .started op g ∈ b.trace ∧ .dropped op ∈ b.trace
  closed : .closed ∈ b.trace → b.closing

def Parked (b : InFlightBarrier) : Prop :=
  ∀ w ∈ b.waiters, w.stage = .awaiting → w.notified = false →
    b.state.isDrained w.generation = false ∨
      ∃ op g, b.completing.lookup op = some g ∧ g ≤ w.generation

structure Kept (b : InFlightBarrier) : Prop where
  ruled : Throughout Ruled b.trace
  counts : Counts b.state b.holding
  told : Told b
  parked : Parked b

def Event.Aside (closing : Bool) : Event → Prop
  | .refused _ | .returned _ _ => True
  | .closed => closing
  | _ => False

def Ready (b : InFlightBarrier) (waiters : List Waiter) : Prop :=
  ∀ w ∈ waiters, w ∈ b.waiters ∨ (w.stage = .awaiting → b.state.isDrained w.generation = false)

inductive Move (b : InFlightBarrier) : InFlightBarrier → Prop
  | wait (waiters : List Waiter) (ready : Ready b waiters) : Move b { b with waiters }
  | emit (waiters : List Waiter) (ready : Ready b waiters) {event : Event}
      (aside : event.Aside b.closing)
      (drained : ∀ i g, event = .returned i g → b.state.isDrained g) :
      Move b { b with waiters, trace := b.trace ++ [event] }
  | start (opened : ¬ b.closing) :
      Move b { b with
        state := b.state.enter
        starts := b.starts + 1
        holding := b.holding.insert b.starts b.state.current
        trace := b.trace ++ [.started b.starts b.state.current] }
  | drop {op generation : Nat} (here : b.holding.lookup op = some generation) :
      Move b { b with
        state := b.state.leave generation
        holding := b.holding.erase op
        completing := b.completing.insert op generation
        trace := b.trace ++ [.dropped op] }
  | notify (op : Nat) :
      Move b { b with
        completing := b.completing.erase op
        waiters := b.waiters.map fun w => { w with notified := true } }
  | snapshot : Move b b.snapshot
  | close : Move b { b.snapshot with closing := true, trace := b.snapshot.trace ++ [.closed] }

section Moves

variable {b b' : InFlightBarrier}

theorem Move.stay (b : InFlightBarrier) : Move b b := .wait b.waiters fun _ there => .inl there

theorem Move.say (b : InFlightBarrier) {event : Event} (aside : event.Aside b.closing)
    (silent : ∀ i g, event ≠ .returned i g) : Move b { b with trace := b.trace ++ [event] } :=
  .emit b.waiters (fun _ there => .inl there) aside fun i g same => absurd same (silent i g)

theorem ready_set (i : Nat) {w : Waiter}
    (ready : w.stage = .awaiting → b.state.isDrained w.generation = false) :
    Ready b (b.waiters.set i w) := by
  intro other there
  rcases List.mem_or_eq_of_mem_set there with old | rfl
  · exact .inl old
  · exact .inr ready

theorem move_turn (b : InFlightBarrier) (i : Nat) : Move b (b.turn i) := by
  unfold turn
  cases b.waiters[i]? with
  | none => exact .stay b
  | some w =>
    obtain ⟨generation, stage, notified⟩ := w
    cases stage with
    | arming => exact .wait _ (ready_set i nofun)
    | returned | cancelled => exact .stay b
    | awaiting =>
      dsimp only
      split
      · exact .wait _ (ready_set i nofun)
      · exact .stay b
    | checking =>
      dsimp only
      split
      · rename_i drained
        refine .emit _ (ready_set i (w := ⟨generation, .returned, notified⟩) nofun) trivial ?_
        rintro _ _ ⟨⟩
        exact drained
      · rename_i undrained
        exact .wait _ (ready_set i fun _ => Bool.not_eq_true _ ▸ undrained)

theorem move_step (b : InFlightBarrier) (input : Input) : Move b (b.step input) := by
  cases input with
  | start owner =>
    simp only [step, start]
    split
    · exact .say b trivial nofun
    · exact .start ‹_›
  | drop op =>
    simp only [step, drop]
    split
    · exact .stay b
    · exact .drop ‹_›
  | notifyWaiters op =>
    simp only [step, notifyWaiters]
    split
    · exact .stay b
    · exact .notify op
  | snapshot => exact .snapshot
  | beginClose =>
    simp only [step, beginClose]
    split
    · exact .say b ‹_› nofun
    · exact .close
  | waitFor generation =>
    refine .wait _ fun w there => ?_
    rcases List.mem_append.mp there with old | new
    · exact .inl old
    · obtain rfl := List.mem_singleton.mp new
      exact .inr nofun
  | turn i => exact move_turn b i
  | cancel i =>
    simp only [step, cancel]
    split
    · exact .stay b
    · exact .wait _ (ready_set i nofun)

end Moves

section Told

variable {b b' : InFlightBarrier}

theorem pair_sublist_concat {α : Type} {first second last : α} {l : List α} :
    [first, second].Sublist (l ++ [last]) ↔
      [first, second].Sublist l ∨ first ∈ l ∧ second = last := by
  constructor
  · intro sub
    obtain ⟨head, tail, split, left, right⟩ := List.sublist_append_iff.mp sub
    rcases List.sublist_singleton.mp right with rfl | rfl
    · rw [List.append_nil] at split
      exact .inl (split ▸ left)
    · have parts : [first] ++ [second] = head ++ [last] := split
      obtain ⟨rfl, same⟩ := List.append_inj' parts rfl
      exact .inr ⟨List.singleton_sublist.mp left, by simpa using same⟩
  · rintro (old | ⟨there, rfl⟩)
    · exact old.trans (List.sublist_append_left _ _)
    · exact (List.singleton_sublist.mpr there).append (List.Sublist.refl [second])

theorem Told.emit (told : Told b) {event : Event} (aside : event.Aside b.closing) :
    Told { b with trace := b.trace ++ [event] } := by
  obtain ⟨held, started, dropped, ended, earlier, ordered, completing, closed⟩ := told
  cases event with
  | started | dropped | ended => exact aside.elim
  | refused | returned | closed =>
    constructor <;> simpa [pair_sublist_concat]

theorem Told.waiters (told : Told b) (waiters : List Waiter) : Told { b with waiters } := by
  obtain ⟨held, started, dropped, ended, earlier, ordered, completing, closed⟩ := told
  exact ⟨held, started, dropped, ended, earlier, ordered, completing, closed⟩

theorem Told.fresh (told : Told b) : b.holding.lookup b.starts = none := by
  cases there : b.holding.lookup b.starts with
  | none => rfl
  | some g =>
    have known := (told.held b.starts g).mp there
    exact absurd (told.started _ _ known.1).1 (Nat.lt_irrefl _)

theorem Told.snapshot (told : Told b) : Told b.snapshot := by
  constructor
  · simpa [InFlightBarrier.snapshot] using told.held
  · intro op g there
    have old : .started op g ∈ b.trace := by simpa [InFlightBarrier.snapshot] using there
    exact ⟨(told.started op g old).1, (told.started op g old).2.trans (Nat.le_succ _)⟩
  · simpa [InFlightBarrier.snapshot] using told.dropped
  · intro e there
    rcases List.mem_append.mp there with old | new
    · exact (told.ended e old).trans (Nat.lt_succ_self _)
    · obtain rfl : e = b.state.current := by simpa using new
      exact Nat.lt_succ_self _
  · intro op g e pair
    rcases pair_sublist_concat.mp pair with old | ⟨there, same⟩
    · exact told.earlier op g e old
    · obtain rfl : e = b.state.current := by simpa using same
      exact (told.started op g there).2
  · intro op g e there ended below
    have old : .started op g ∈ b.trace := by simpa [InFlightBarrier.snapshot] using there
    rcases List.mem_append.mp ended with before | now
    · exact pair_sublist_concat.mpr (.inl (told.ordered op g e old before below))
    · exact pair_sublist_concat.mpr (.inr ⟨old, by simpa using now⟩)
  · intro op g there
    simp [InFlightBarrier.snapshot, told.completing op g there]
  · simpa [InFlightBarrier.snapshot] using told.closed

theorem Told.move (told : Told b) (move : Move b b') : Told b' := by
  cases move with
  | wait waiters => exact told.waiters waiters
  | emit waiters _ aside => exact (told.waiters waiters).emit aside
  | start =>
    constructor
    · intro op g
      have absent : .dropped b.starts ∉ b.trace := fun there =>
        Nat.lt_irrefl _ (told.dropped _ there)
      have unknown : .started b.starts g ∉ b.trace := fun there =>
        Nat.lt_irrefl _ (told.started _ _ there).1
      by_cases here : op = b.starts
      · subst here
        simp [absent, unknown, eq_comm]
      · simp [lookup_insert_ne here, told.held, here]
    · intro op g there
      simp only [List.mem_append, List.mem_singleton, Event.started.injEq] at there
      rcases there with old | ⟨rfl, rfl⟩
      · exact ⟨(told.started op g old).1.trans (Nat.lt_succ_self _), (told.started op g old).2⟩
      · exact ⟨Nat.lt_succ_self _, Nat.le_refl _⟩
    · intro op there
      simp only [List.mem_append, List.mem_singleton, reduceCtorEq, or_false] at there
      exact (told.dropped op there).trans (Nat.lt_succ_self _)
    · simpa [Generations.enter] using told.ended
    · simpa [pair_sublist_concat] using told.earlier
    · intro op g e there ended below
      simp only [List.mem_append, List.mem_singleton, reduceCtorEq, or_false,
        Event.started.injEq] at there ended
      rcases there with old | ⟨rfl, rfl⟩
      · exact pair_sublist_concat.mpr (.inl (told.ordered op g e old ended below))
      · exact absurd (told.ended e ended) (Nat.not_lt.mpr below)
    · intro op g there
      simp [told.completing op g there]
    · simpa using told.closed
  | @drop op generation here =>
    have known := (told.held op generation).mp here
    have current : (b.state.leave generation).current = b.state.current := by
      unfold Generations.leave
      split <;> rfl
    constructor
    · intro other g
      by_cases same : other = op
      · subst same
        simp
      · simp [lookup_erase_ne same, told.held, same]
    · simpa [current] using told.started
    · intro other there
      simp only [List.mem_append, List.mem_singleton, Event.dropped.injEq] at there
      rcases there with old | rfl
      · exact told.dropped other old
      · exact (told.started other generation known.1).1
    · simpa [current] using told.ended
    · simpa [pair_sublist_concat] using told.earlier
    · simpa [pair_sublist_concat] using told.ordered
    · intro other g there
      by_cases same : other = op
      · subst same
        rw [lookup_insert, Option.some.injEq] at there
        simp [← there, known.1]
      · rw [lookup_insert_ne same] at there
        simp [told.completing other g there]
    · simpa using told.closed
  | notify op =>
    obtain ⟨held, started, dropped, ended, earlier, ordered, completing, closed⟩ := told
    refine ⟨held, started, dropped, ended, earlier, ordered, fun other g there => ?_, closed⟩
    by_cases same : other = op
    · rw [same, lookup_erase] at there
      cases there
    · exact completing other g (lookup_erase_ne same ▸ there)
  | snapshot => exact told.snapshot
  | close =>
    obtain ⟨held, started, dropped, ended, earlier, ordered, completing, -⟩ := told.snapshot
    have closing : Told { b.snapshot with closing := true } :=
      ⟨held, started, dropped, ended, earlier, ordered, completing, fun _ => rfl⟩
    exact closing.emit rfl

end Told

section Waking

variable {b b' : InFlightBarrier}

theorem Parked.move (parked : Parked b) (counts : Counts b.state b.holding) (told : Told b)
    (move : Move b b') : Parked b' := by
  cases move with
  | snapshot | close => exact parked
  | wait _ ready | emit _ ready =>
    intro w there asleep unnotified
    rcases ready w there with old | undrained
    · exact parked w old asleep unnotified
    · exact .inl (undrained asleep)
  | start =>
    intro w there asleep unnotified
    refine (parked w there asleep unnotified).imp_left fun undrained => ?_
    rw [← Bool.not_eq_true, counts.isDrained_iff] at undrained
    rw [← Bool.not_eq_true, (counts.enter told.fresh).isDrained_iff]
    intro drained
    refine undrained fun op g here => drained op g ?_
    rwa [lookup_insert_ne]
    rintro rfl
    rw [told.fresh] at here
    cases here
  | @drop op generation here =>
    -- A drop that drains a waiter's generation is of that generation or an earlier one, and has
    -- still to notify.
    intro w there asleep unnotified
    by_cases covered : generation ≤ w.generation
    · exact .inr ⟨op, generation, lookup_insert .., covered⟩
    · rcases parked w there asleep unnotified with undrained | ⟨other, g, finishing, below⟩
      · left
        rw [← Bool.not_eq_true, counts.isDrained_iff] at undrained
        rw [← Bool.not_eq_true, (counts.leave here).isDrained_iff]
        intro drained
        refine undrained fun other g held => ?_
        by_cases same : other = op
        · subst same
          obtain rfl := Option.some.inj (here.symm.trans held)
          exact Nat.not_le.mp covered
        · exact drained other g (by rwa [lookup_erase_ne same])
      · refine .inr ⟨other, g, ?_, below⟩
        rwa [lookup_insert_ne]
        rintro rfl
        exact ((told.held other generation).mp here).2 (told.completing other g finishing).2
  | notify =>
    intro w there _ unnotified
    obtain ⟨old, -, rfl⟩ := List.mem_map.mp there
    cases unnotified

theorem Kept.returned (kept : Kept b) {generation : Nat}
    (drained : b.state.isDrained generation) (op : Nat)
    (earlier : Earlier b.trace generation op) : .dropped op ∈ b.trace := by
  obtain ⟨g, order⟩ := earlier
  by_contra holds
  have started : .started op g ∈ b.trace := order.subset (by simp)
  have here := (kept.told.held op g).mpr ⟨started, holds⟩
  have above := kept.counts.isDrained_iff.mp drained op g here
  exact Nat.not_lt.mpr (kept.told.earlier op g generation order) above

theorem Kept.move (kept : Kept b) (move : Move b b') : Kept b' := by
  refine ⟨?_, ?_, kept.told.move move, kept.parked.move kept.counts kept.told move⟩
  · cases move with
    | wait | notify => exact kept.ruled
    | emit _ _ aside drained =>
      refine throughout_concat.mpr ⟨kept.ruled, ?_⟩
      rename_i event
      cases event with
      | returned i g => exact kept.returned (drained i g rfl)
      | started => exact aside.elim
      | _ => trivial
    | start opened =>
      exact throughout_concat.mpr ⟨kept.ruled, fun closed => opened (kept.told.closed closed)⟩
    | drop | snapshot => exact throughout_concat.mpr ⟨kept.ruled, trivial⟩
    | close =>
      exact throughout_concat.mpr ⟨throughout_concat.mpr ⟨kept.ruled, trivial⟩, trivial⟩
  · cases move with
    | start => exact kept.counts.enter kept.told.fresh
    | drop here => exact kept.counts.leave here
    | _ => exact kept.counts

theorem kept_run (inputs : List Input) : Kept (run inputs) := by
  have start : Kept {} := by
    refine ⟨throughout_nil _, fun g => ⟨rfl, nofun⟩, ?_, nofun⟩
    constructor <;> simp
  exact List.foldlRecOn inputs _ start fun b kept input _ => kept.move (move_step b input)

end Waking

section Draining

variable {b b' : InFlightBarrier} {generation : Nat}

structure Spent (generation : Nat) (b : InFlightBarrier) : Prop where
  ended : .ended generation ∈ b.trace
  holding : ∀ op g, b.holding.lookup op = some g → generation < g

/-- No guard of the generation or an earlier one has still to notify. -/
def Settled (generation : Nat) (b : InFlightBarrier) : Prop :=
  ∀ op g, b.completing.lookup op = some g → generation < g

theorem Spent.move (spent : Spent generation b) (kept : Kept b) (move : Move b b') :
    Spent generation b' := by
  cases move with
  | wait | notify => exact ⟨spent.ended, spent.holding⟩
  | emit | snapshot => exact ⟨List.mem_append_left _ spent.ended, spent.holding⟩
  | close => exact ⟨List.mem_append_left _ (List.mem_append_left _ spent.ended), spent.holding⟩
  | start =>
    -- A new guard is of the current generation, and that has not ended.
    refine ⟨List.mem_append_left _ spent.ended, fun op g here => ?_⟩
    by_cases new : op = b.starts
    · rw [new, lookup_insert, Option.some.injEq] at here
      exact here ▸ kept.told.ended generation spent.ended
    · exact spent.holding op g (lookup_insert_ne new ▸ here)
  | @drop gone =>
    refine ⟨List.mem_append_left _ spent.ended, fun op g here => ?_⟩
    by_cases dropped : op = gone
    · rw [dropped, lookup_erase] at here
      cases here
    · exact spent.holding op g (lookup_erase_ne dropped ▸ here)

theorem Settled.move (settled : Settled generation b) (spent : Spent generation b)
    (move : Move b b') : Settled generation b' := by
  cases move with
  | wait | emit | start | snapshot | close => exact settled
  | @drop gone left held =>
    intro op g here
    by_cases dropped : op = gone
    · rw [dropped, lookup_insert, Option.some.injEq] at here
      exact here ▸ spent.holding gone left held
    · exact settled op g (lookup_insert_ne dropped ▸ here)
  | notify done =>
    intro op g here
    by_cases notified : op = done
    · rw [notified, lookup_erase] at here
      cases here
    · exact settled op g (lookup_erase_ne notified ▸ here)

variable {earlier : List Input}

theorem spent_run (start : Spent generation (run earlier)) (later : List Input) :
    Spent generation (run (earlier ++ later)) := by
  induction later using List.reverseRecOn with
  | nil => simpa using start
  | append_singleton later input ih =>
    rw [run, ← List.append_assoc, List.foldl_append]
    exact ih.move (kept_run _) (move_step _ input)

theorem settled_run (start : Spent generation (run earlier))
    (settled : Settled generation (run earlier)) (later : List Input) :
    Settled generation (run (earlier ++ later)) := by
  induction later using List.reverseRecOn with
  | nil => simpa using settled
  | append_singleton later input ih =>
    rw [run, ← List.append_assoc, List.foldl_append]
    exact ih.move (spent_run start later) (move_step _ input)

def Waiter.Awake (w : Waiter) : Prop := w.stage = .awaiting → w.notified

theorem Kept.spent (kept : Kept b) (ended : .ended generation ∈ b.trace)
    (dropped : ∀ op, Earlier b.trace generation op → .dropped op ∈ b.trace) :
    Spent generation b := by
  refine ⟨ended, fun op g here => ?_⟩
  by_contra below
  obtain ⟨started, holds⟩ := (kept.told.held op g).mp here
  exact holds (dropped op ⟨g, kept.told.ordered op g _ started ended (Nat.not_lt.mp below)⟩)

theorem Kept.settled (kept : Kept b) (ended : .ended generation ∈ b.trace)
    (notified : ∀ op, Earlier b.trace generation op → op ∉ b.completing) :
    Settled generation b := by
  intro op g here
  by_contra below
  have started := (kept.told.completing op g here).1
  exact notified op ⟨g, kept.told.ordered op g _ started ended (Nat.not_lt.mp below)⟩
    (mem_of_lookup here)

theorem Kept.awake (kept : Kept b) (spent : Spent generation b) (settled : Settled generation b)
    {w : Waiter} (there : w ∈ b.waiters) (waits : w.generation = generation) : w.Awake := by
  intro asleep
  by_contra unnotified
  rcases kept.parked w there asleep (by simpa using unnotified) with undrained | ⟨op, g, here, below⟩
  · rw [waits, kept.counts.isDrained_iff.mpr spent.holding] at undrained
    cases undrained
  · exact Nat.not_lt.mpr (waits ▸ below) (settled op g here)

/-! A drained wait returns -/

/-- The turns a wait needs, from its stage on, once it is awake and finds its generation drained. -/
def WaitStage.turns : WaitStage → Nat
  | .awaiting => 3
  | .arming => 2
  | .checking => 1
  | .returned | .cancelled => 0

def ReturnsWithin (i generation n : Nat) (b : InFlightBarrier) : Prop :=
  .returned i generation ∈ b.trace ∨
    ∃ w, b.waiters[i]? = some w ∧ w.generation = generation ∧
      0 < w.stage.turns ∧ w.stage.turns ≤ n

theorem trace_mono (b : InFlightBarrier) (input : Input) : b.trace ⊆ (b.step input).trace := by
  obtain ⟨b', next⟩ : ∃ b', b.step input = b' := ⟨_, rfl⟩
  rw [next]
  cases next ▸ move_step b input with
  | wait | notify => exact List.Subset.refl _
  | emit | start | drop | snapshot => exact List.subset_append_left ..
  | close => exact fun _ there => List.mem_append_left _ (List.mem_append_left _ there)

/-- Only its own turns and its cancellation move a wait from its stage. -/
theorem waiter_step {i : Nat} {w : Waiter} (here : b.waiters[i]? = some w) {input : Input}
    (own : input ≠ .turn i) (stays : input ≠ .cancel i) :
    ∃ w', (b.step input).waiters[i]? = some w' ∧ w'.generation = w.generation ∧
      w'.stage = w.stage := by
  cases input with
  | start | drop | beginClose =>
    refine ⟨w, ?_, rfl, rfl⟩
    simp only [step, start, drop,
      beginClose, snapshot]
    split <;> exact here
  | snapshot => exact ⟨w, here, rfl, rfl⟩
  | notifyWaiters op =>
    simp only [step, notifyWaiters]
    split
    · exact ⟨w, here, rfl, rfl⟩
    · exact ⟨{ w with notified := true }, by simp [here], rfl, rfl⟩
  | waitFor g =>
    refine ⟨w, ?_, rfl, rfl⟩
    have inside := (List.getElem?_eq_some_iff.mp here).1
    simpa [step, waitFor, List.getElem?_append_left inside]
  | turn j =>
    have apart : j ≠ i := fun same => own (same ▸ rfl)
    refine ⟨w, ?_, rfl, rfl⟩
    simp only [step, turn, setWaiter]
    repeat' split
    all_goals simp [apart, here]
  | cancel j =>
    have apart : j ≠ i := fun same => stays (same ▸ rfl)
    refine ⟨w, ?_, rfl, rfl⟩
    simp only [step, cancel, setWaiter]
    split <;> simp [apart, here]

theorem ReturnsWithin.turn {i n : Nat} (within : ReturnsWithin i generation n b)
    (awake : ∀ w ∈ b.waiters, w.generation = generation → w.Awake)
    (drained : b.state.isDrained generation) : ReturnsWithin i generation (n - 1) (b.turn i) := by
  rcases within with returned | ⟨⟨g, stage, notified⟩, here, rfl, live, few⟩
  · exact .inl (trace_mono b (.turn i) returned)
  · have inside := (List.getElem?_eq_some_iff.mp here).1
    have bell := awake _ (List.mem_of_getElem? here) rfl
    simp only [InFlightBarrier.turn, here, setWaiter]
    cases stage with
    | returned | cancelled => cases live
    | checking => exact .inl (by simp [drained])
    | arming =>
      exact .inr ⟨⟨g, .checking, false⟩, by simp [inside], rfl, Nat.one_pos, Nat.le_sub_one_of_lt few⟩
    | awaiting =>
      obtain rfl : notified = true := bell rfl
      exact .inr ⟨⟨g, .arming, true⟩, by simp [inside], rfl, Nat.two_pos, Nat.le_sub_one_of_lt few⟩

theorem ReturnsWithin.step {i n : Nat} (within : ReturnsWithin i generation n b)
    (awake : ∀ w ∈ b.waiters, w.generation = generation → w.Awake)
    (drained : b.state.isDrained generation) (input : Input) (stays : input ≠ .cancel i) :
    ReturnsWithin i generation (n - [input].count (.turn i)) (b.step input) := by
  by_cases own : input = .turn i
  · subst own
    simpa [InFlightBarrier.step] using within.turn awake drained
  · rw [List.count_singleton, if_neg (by simpa using own), Nat.sub_zero]
    rcases within with returned | ⟨w, here, waits, live, few⟩
    · exact .inl (trace_mono b input returned)
    · obtain ⟨w', there, same, stage⟩ := waiter_step here own stays
      exact .inr ⟨w', there, same.trans waits, stage ▸ live, stage ▸ few⟩

theorem returnsWithin_run {i n : Nat} (start : Spent generation (run earlier))
    (settled : Settled generation (run earlier)) (within : ReturnsWithin i generation n (run earlier))
    (later : List Input) (stays : .cancel i ∉ later) :
    ReturnsWithin i generation (n - later.count (.turn i)) (run (earlier ++ later)) := by
  induction later using List.reverseRecOn with
  | nil => simpa using within
  | append_singleton later input ih =>
    rw [List.mem_append, List.mem_singleton, not_or] at stays
    have kept := kept_run (earlier ++ later)
    have spent := spent_run start later
    have next := (ih stays.1).step
      (fun w there waits => kept.awake spent (settled_run start settled later) there waits)
      (kept.counts.isDrained_iff.mpr spent.holding) input (Ne.symm stays.2)
    rw [Nat.sub_sub, ← List.count_append] at next
    rwa [run, ← List.append_assoc, List.foldl_append]

/-- In every run, a wait for an ended generation returns only when every operation that started
before has dropped its guard, and nothing starts after a close. Once these have dropped their guards
the generation is drained for good, and once they have notified, every wait for it is awake and
returns by its third turn, whatever else happens in between. -/
theorem waits_for_exactly_the_earlier_operations (earlier later : List Input) (generation : Nat) :
    Throughout Ruled (run (earlier ++ later)).trace ∧
      (.ended generation ∈ (run earlier).trace →
        (∀ op, Earlier (run earlier).trace generation op → .dropped op ∈ (run earlier).trace) →
        (run (earlier ++ later)).state.isDrained generation ∧
          ((∀ op, Earlier (run earlier).trace generation op → op ∉ (run earlier).completing) →
            (∀ w ∈ (run (earlier ++ later)).waiters, w.generation = generation → w.Awake) ∧
            ∀ i w, (run earlier).waiters[i]? = some w → w.generation = generation →
              w.stage ≠ .returned → w.stage ≠ .cancelled → .cancel i ∉ later →
              3 ≤ later.count (.turn i) →
              .returned i generation ∈ (run (earlier ++ later)).trace)) := by
  have kept := kept_run (earlier ++ later)
  refine ⟨kept.ruled, fun ended dropped => ?_⟩
  have start := (kept_run earlier).spent ended dropped
  have spent := spent_run start later
  refine ⟨kept.counts.isDrained_iff.mpr spent.holding, fun notified => ⟨?_, ?_⟩⟩
  · have settled := settled_run start ((kept_run earlier).settled ended notified) later
    exact fun w there waits => kept.awake spent settled there waits
  · intro i w here waits unreturned uncancelled stays turns
    have few : 0 < w.stage.turns ∧ w.stage.turns ≤ 3 := by
      cases stage : w.stage <;> simp_all [WaitStage.turns]
    rcases returnsWithin_run start ((kept_run earlier).settled ended notified)
      (.inr ⟨w, here, waits, few⟩) later stays with returned | ⟨w', -, -, live, left⟩
    · exact returned
    · rw [Nat.sub_eq_zero_of_le turns] at left
      exact absurd live (Nat.not_lt.mpr left)

def sampleEarlier : List Input :=
  [.start "producer", .snapshot, .waitFor 0, .turn 0, .turn 0, .start "producer", .drop 0,
    .notifyWaiters 0]

def sampleLater : List Input := [.turn 0, .beginClose, .turn 0, .start "producer", .turn 0]

/-- Operation 0 is waited for, operation 1 is not: the wait goes to sleep, is woken by the drop of
the first and returns while the second still holds its guard. -/
theorem wait_returns_after_the_earlier_operation :
    (run sampleEarlier).waiters = [⟨0, .awaiting, true⟩] ∧
      1 ∈ (run (sampleEarlier ++ sampleLater)).holding ∧
      .returned 0 0 ∈ (run (sampleEarlier ++ sampleLater)).trace ∧
      .refused (.closed "producer is closed") ∈ (run (sampleEarlier ++ sampleLater)).trace := by
  have told : (run sampleEarlier).trace =
      [.started 0 0, .ended 0, .started 1 1, .dropped 0] := by decide
  have one : ∀ op, Earlier (run sampleEarlier).trace 0 op → op = 0 := by
    rintro op ⟨g, order⟩
    have first : g ≤ 0 := (kept_run sampleEarlier).told.earlier op g 0 order
    have there := order.subset List.mem_cons_self
    simp only [told, List.mem_cons, Event.started.injEq, reduceCtorEq, List.not_mem_nil,
      false_or, or_false] at there
    omega
  refine ⟨by decide, by decide, ?_, by decide⟩
  have drained := (waits_for_exactly_the_earlier_operations sampleEarlier sampleLater 0).2
    (by decide) fun op before => one op before ▸ by decide
  have returns := drained.2 fun op before => one op before ▸ by decide
  exact returns.2 0 ⟨0, .awaiting, true⟩ rfl rfl nofun nofun (by decide) (by decide)

end Draining

end Krafka.Barrier
