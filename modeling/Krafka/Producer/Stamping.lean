import Krafka.Producer.Waiters

/-! The records of a trace by partition and tag: those that came in, in the order of their tags, and
those that were answered. -/

namespace Krafka.Producer

open Function Engine

/-! Records, by partition and tag -/

def Event.receipts : Event → List (PartitionKey × Nat)
  | .arrived key record => [(key, record.tag)]
  | _ => []

def Event.outcomes : Event → List (PartitionKey × Nat)
  | .answered key _ waiter _ => [(key, waiter.tag)]
  | _ => []

def receivedIn (history : List Event) : List (PartitionKey × Nat) := history.flatMap Event.receipts

def settledIn (history : List Event) : List (PartitionKey × Nat) := history.flatMap Event.outcomes

section History

variable (history more : List Event)

theorem receivedIn_append : receivedIn (history ++ more) = receivedIn history ++ receivedIn more :=
  List.flatMap_append

theorem settledIn_append : settledIn (history ++ more) = settledIn history ++ settledIn more :=
  List.flatMap_append

theorem count_settledIn (key : PartitionKey) (tag : Nat) :
    (settledIn history).count (key, tag) = (answeredIn key history).count tag := by
  rw [settledIn, answeredIn, List.count_flatMap, List.count_flatMap]
  refine congrArg List.sum (List.map_congr_left fun event _ => ?_)
  cases event with
  | answered k =>
    by_cases here : k = key <;> simp [Event.outcomes, Event.answers, List.count_singleton, here]
  | _ => rfl

theorem count_receivedIn (key : PartitionKey) (tag : Nat) :
    (receivedIn history).count (key, tag) = (arrivedIn key history).count tag := by
  rw [receivedIn, arrivedIn, List.count_flatMap, List.count_flatMap]
  refine congrArg List.sum (List.map_congr_left fun event _ => ?_)
  cases event with
  | arrived k =>
    by_cases here : k = key <;> simp [Event.receipts, Event.arrivals, List.count_singleton, here]
  | _ => rfl

end History

/-! Records in the order they came in -/

def Ledger.Numbered (l : Ledger) : Prop :=
  (receivedIn l.trace).map (·.2) = List.range l.arrivals

theorem Ledger.Numbered.keep {l l' : Ledger} {events : List Event} (numbered : l.Numbered)
    (trace : l'.trace = l.trace ++ events) (none : receivedIn events = [])
    (arrivals : l'.arrivals = l.arrivals) : l'.Numbered := by
  unfold Ledger.Numbered
  rw [trace, receivedIn_append, none, List.append_nil, arrivals]
  exact numbered

theorem Ledger.Numbered.next {l l' : Ledger} {key : PartitionKey} {record : RecordData}
    {event : Event} (numbered : l.Numbered)
    (trace : l'.trace = l.trace ++ [Event.arrived key record, event])
    (after : event.receipts = []) (tag : record.tag = l.arrivals)
    (arrivals : l'.arrivals = l.arrivals + 1) : l'.Numbered := by
  have one : receivedIn [.arrived key record, event] = [(key, record.tag)] := by
    rw [receivedIn, List.flatMap_cons, List.flatMap_cons, after]
    rfl
  unfold Ledger.Numbered
  rw [trace, receivedIn_append, one, arrivals, List.range_succ, List.map_append, numbered]
  simp [tag]

variable {p : Policy}

theorem Effect.numbered {l l' : Ledger} (effect : Effect p l l') (numbered : l.Numbered) :
    l'.Numbered := by
  have retracts (key : PartitionKey) (batch : Batch) :
      receivedIn (batch.stamp.toList.map fun stamp => .retracted key stamp batch.records) = [] := by
    cases batch.stamp <;> rfl
  cases effect with
  | silent free events silent =>
    refine numbered.keep rfl (List.flatMap_eq_nil_iff.mpr fun event told => ?_) rfl
    have quiet := silent event told
    cases event <;> first | rfl | cases quiet
  | refuse free key record waiter error record_tag
  | accept free key record waiter size generation record_tag =>
    exact numbered.next rfl rfl record_tag rfl
  | take | condemn | retry => exact numbered
  | fail | acknowledge =>
    exact numbered.keep rfl (List.flatMap_eq_nil_iff.mpr (List.forall_mem_cons.mpr
      ⟨rfl, forall_answers fun _ _ _ _ => rfl⟩)) rfl
  | answer =>
    exact numbered.keep rfl (List.flatMap_eq_nil_iff.mpr (forall_answers fun _ _ _ _ => rfl)) rfl
  | handOut | stampOut | endAttempt => exact numbered.keep rfl rfl rfl
  | restamp | split => exact numbered.keep rfl (retracts ..) rfl

end Krafka.Producer
