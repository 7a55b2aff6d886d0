import Krafka.Producer.Flush
import Mathlib.Data.List.Flatten

/-! The records of one partition stay in the order they were appended in, whatever happens to
their batches, and go on the wire only from the front. -/

namespace Krafka.Producer

open List Function Engine

/-! What a history says about a partition -/

def Event.appendedTo (key : PartitionKey) : Event → List RecordData
  | .appended k record => if k = key then [record] else []
  | _ => []

def Event.resolves (key : PartitionKey) : Event → List Nat
  | .acknowledged k records | .failed k records => if k = key then records.map (·.tag) else []
  | _ => []

def Event.hands (key : PartitionKey) : Event → Bool
  | .handed _ sent => sent.key = key
  | _ => false

def Event.ends (key : PartitionKey) : Event → Bool
  | .ended k _ _ _ => k = key
  | _ => false

def appendedTo (key : PartitionKey) (history : List Event) : List RecordData :=
  history.flatMap (Event.appendedTo key)

def resolvedIn (key : PartitionKey) (history : List Event) : List Nat :=
  history.flatMap (Event.resolves key)

def pendingIn (key : PartitionKey) (history : List Event) : List RecordData :=
  Lists.without RecordData.tag (resolvedIn key history) (appendedTo key history)

def handedIn (key : PartitionKey) (history : List Event) : Nat := history.countP (Event.hands key)

def endedIn (key : PartitionKey) (history : List Event) : Nat := history.countP (Event.ends key)

/-- A batch is handed to a request when every earlier one of its partition is off the wire and
its records are the first that are not resolved. -/
def HandedAtHead (before : List Event) : Event → Prop
  | .handed _ sent =>
    handedIn sent.key before = endedIn sent.key before ∧ sent.records <+: pendingIn sent.key before
  | _ => True

section History

variable (key : PartitionKey) (history more : List Event)

@[simp] theorem appendedTo_append :
    appendedTo key (history ++ more) = appendedTo key history ++ appendedTo key more :=
  flatMap_append

@[simp] theorem resolvedIn_append :
    resolvedIn key (history ++ more) = resolvedIn key history ++ resolvedIn key more :=
  flatMap_append

@[simp] theorem handedIn_append :
    handedIn key (history ++ more) = handedIn key history + handedIn key more :=
  countP_append

@[simp] theorem endedIn_append :
    endedIn key (history ++ more) = endedIn key history + endedIn key more :=
  countP_append

end History

theorem handedIn_handed (key : PartitionKey) (broker : Int) (sent : WireBatch) :
    handedIn key [.handed broker sent] = if sent.key = key then 1 else 0 := by
  by_cases here : sent.key = key <;> simp [handedIn, Event.hands, here]

theorem endedIn_handed (key : PartitionKey) (broker : Int) (sent : WireBatch) :
    endedIn key [.handed broker sent] = 0 := rfl

theorem handedIn_ended (key k : PartitionKey) (records : List RecordData)
    (stamp : Option BatchIdentity) (outcome : BatchOutcome) :
    handedIn key [.ended k records stamp outcome] = 0 := rfl

theorem endedIn_ended (key k : PartitionKey) (records : List RecordData)
    (stamp : Option BatchIdentity) (outcome : BatchOutcome) :
    endedIn key [.ended k records stamp outcome] = if k = key then 1 else 0 := by
  by_cases here : k = key <;> simp [endedIn, Event.ends, here]

structure Unmoving (events : List Event) : Prop where
  appended : ∀ key, appendedTo key events = []
  resolved : ∀ key, resolvedIn key events = []

variable {events : List Event}

theorem Unmoving.of_forall
    (h : ∀ event ∈ events, ∀ key, event.appendedTo key = [] ∧ event.resolves key = []) :
    Unmoving events :=
  ⟨fun key => flatMap_eq_nil_iff.mpr fun event he => (h event he key).1,
    fun key => flatMap_eq_nil_iff.mpr fun event he => (h event he key).2⟩

theorem unmoving_answers (key : PartitionKey) (batch : Batch)
    (result : Nat → RecordData → Result RecordMetadata) : Unmoving (answers key batch result) :=
  .of_forall (forall_answers fun _ _ _ _ _ => ⟨rfl, rfl⟩)

theorem appendedTo_cons_answers (k key : PartitionKey) (event : Event) (batch : Batch)
    (result : Nat → RecordData → Result RecordMetadata) :
    appendedTo k (event :: answers key batch result) = event.appendedTo k := by
  have rest := (unmoving_answers key batch result).appended k
  rw [appendedTo, flatMap_cons, ← appendedTo, rest, append_nil]

theorem resolvedIn_cons_answers (k key : PartitionKey) (event : Event) (batch : Batch)
    (result : Nat → RecordData → Result RecordMetadata) :
    resolvedIn k (event :: answers key batch result) = event.resolves k := by
  have rest := (unmoving_answers key batch result).resolved k
  rw [resolvedIn, flatMap_cons, ← resolvedIn, rest, append_nil]

theorem unmoving_silent (silent : ∀ event ∈ events, event.Silent) : Unmoving events := by
  refine Unmoving.of_forall fun event he key => ?_
  have := silent event he
  cases event <;> simp_all [Event.Silent, Event.appendedTo, Event.resolves]

/-! The ledger's order -/

def tagsOf (key : PartitionKey) (batches : List (PartitionKey × Batch)) : List Nat :=
  batches.flatMap fun entry => if entry.1 = key then entry.2.tags else []

theorem tagsOf_append (key : PartitionKey) (front back : List (PartitionKey × Batch)) :
    tagsOf key (front ++ back) = tagsOf key front ++ tagsOf key back := flatMap_append

theorem tagsOf_map_self (key : PartitionKey) (batches : List Batch) :
    tagsOf key (batches.map (key, ·)) = batches.flatMap Batch.tags := by
  simp [tagsOf, flatMap_map]

variable {key : PartitionKey}

theorem tagsOf_map_other {k : PartitionKey} (other : k ≠ key) (batches : List Batch) :
    tagsOf k (batches.map (key, ·)) = [] := by
  simp [tagsOf, flatMap_map, other.symm]

namespace Ledger

variable (l : Ledger) (key : PartitionKey)

def recordsOf : List RecordData := (l.line key).flatMap Batch.records

def gone : List Nat := resolvedIn key l.trace ++ tagsOf key l.doomed

structure InOrder : Prop where
  queued : ∀ key, l.recordsOf key =
    Lists.without RecordData.tag (l.gone key) (appendedTo key l.trace)
  sorted : ∀ key, ((appendedTo key l.trace).map (·.tag)).Pairwise (· < ·)
  bounded : ∀ key, ∀ record ∈ appendedTo key l.trace, record.tag < l.arrivals
  past : ∀ key, ∀ tag ∈ l.gone key, tag < l.arrivals
  flights : ∀ key, handedIn key l.trace = endedIn key l.trace + (l.flight key).toNat
  wire : Runs.Throughout HandedAtHead l.trace

variable {l key} {l' : Ledger}

theorem recordsOf_update {new : List Batch} (line : l'.line = update l.line key new)
    (same : new.flatMap Batch.records = l.recordsOf key) (k : PartitionKey) :
    l'.recordsOf k = l.recordsOf k := by
  unfold recordsOf
  rw [line]
  by_cases here : k = key
  · subst here
    rw [update_self]
    exact same
  · rw [update_of_ne here]

structure Follows (l l' : Ledger) : Prop where
  queued : ∀ key, l'.recordsOf key =
    Lists.without RecordData.tag (l'.gone key) (appendedTo key l'.trace)
  gone : ∀ key tag, tag ∈ l'.gone key →
    tag ∈ l.gone key ∨ tag ∈ (l.recordsOf key).map RecordData.tag

theorem InOrder.keep (ordered : l.InOrder) (records : ∀ key, l'.recordsOf key = l.recordsOf key)
    (appended : ∀ key, appendedTo key l'.trace = appendedTo key l.trace)
    (gone : ∀ key tag, tag ∈ l'.gone key ↔ tag ∈ l.gone key) : Follows l l' where
  queued key := by
    rw [records, ordered.queued, appended]
    exact (Lists.without_congr (gone key) _).symm
  gone key tag mem := .inl ((gone key tag).mp mem)

theorem tags_mem_recordsOf {batch : Batch} {tag : Nat} (queued : batch ∈ l.line key)
    (mem : tag ∈ batch.tags) : tag ∈ (l.recordsOf key).map RecordData.tag := by
  obtain ⟨record, held, rfl⟩ := mem_map.mp mem
  exact mem_map_of_mem (mem_flatMap.mpr ⟨batch, queued, held⟩)

theorem InOrder.leave (ordered : l.InOrder) {removed kept : List Batch}
    (line : l'.line = update l.line key kept) (parts : (l.line key).Perm (removed ++ kept))
    (order : kept.Sublist (l.line key))
    (appended : ∀ key, appendedTo key l'.trace = appendedTo key l.trace)
    (gone : ∀ k tag, tag ∈ l'.gone k ↔
      tag ∈ l.gone k ∨ key = k ∧ tag ∈ removed.flatMap Batch.tags) : Follows l l' where
  queued k := by
    rw [appended]
    by_cases same : k = key
    · subst same
      have distinct : ((appendedTo k l.trace).map RecordData.tag).Nodup :=
        (ordered.sorted k).imp Nat.ne_of_lt
      have after : l'.recordsOf k = kept.flatMap Batch.records := by
        rw [recordsOf, line, update_self]
      have here : ∀ tag, tag ∈ l'.gone k ↔
          tag ∈ l.gone k ++ (removed.flatMap Batch.records).map RecordData.tag := by
        intro tag
        rw [gone, mem_append, map_flatMap]
        simp [Batch.tags]
      rw [Lists.without_congr here, after, Lists.without_removed distinct]
      · rw [← ordered.queued, ← flatMap_append]
        exact parts.flatMap_right _
      · rw [← ordered.queued]
        exact order.flatMap _
    · have after : l'.recordsOf k = l.recordsOf k := by
        rw [recordsOf, line, update_of_ne same]
        rfl
      rw [after, ordered.queued]
      exact (Lists.without_congr (fun tag => by simp [gone, Ne.symm same]) _).symm
  gone k tag mem := by
    refine ((gone k tag).mp mem).imp_right ?_
    rintro ⟨rfl, taken⟩
    obtain ⟨batch, taken, held⟩ := mem_flatMap.mp taken
    exact tags_mem_recordsOf (parts.mem_iff.mpr (mem_append_left _ taken)) held

end Ledger

def Event.Ashore : Event → Prop
  | .handed _ _ | .ended _ _ _ _ => False
  | _ => True

theorem handedIn_ashore (ashore : ∀ event ∈ events, event.Ashore)
    (key : PartitionKey) : handedIn key events = 0 ∧ endedIn key events = 0 := by
  constructor
  · refine countP_eq_zero.mpr fun event he hands => ?_
    have := ashore event he
    cases event <;> first | exact this | cases hands
  · refine countP_eq_zero.mpr fun event he ends => ?_
    have := ashore event he
    cases event <;> first | exact this | cases ends

variable {batch : Batch}

theorem ashore_answers
    {result : Nat → RecordData → Result RecordMetadata} :
    ∀ event ∈ answers key batch result, event.Ashore :=
  forall_answers fun _ _ _ _ => trivial

theorem ashore_silent (silent : ∀ event ∈ events, event.Silent) :
    ∀ event ∈ events, event.Ashore := by
  intro event he
  have := silent event he
  cases event <;> trivial

namespace Ledger

variable {l l' : Ledger} {events : List Event}

theorem InOrder.next (ordered : l.InOrder) (trace : l'.trace = l.trace ++ events)
    (appended : ∀ key, appendedTo key events = []) (arrivals : l.arrivals ≤ l'.arrivals)
    (follows : Follows l l')
    (flights : ∀ key, handedIn key l'.trace = endedIn key l'.trace + (l'.flight key).toNat)
    (wire : Runs.Throughout (fun before => HandedAtHead (l.trace ++ before)) events) :
    l'.InOrder where
  queued := follows.queued
  sorted := by
    intro key
    rw [trace, appendedTo_append, appended, append_nil]
    exact ordered.sorted key
  bounded := by
    intro key record mem
    rw [trace, appendedTo_append, appended, append_nil] at mem
    exact (ordered.bounded key record mem).trans_le arrivals
  past := by
    intro key tag mem
    refine lt_of_lt_of_le ?_ arrivals
    rcases follows.gone key tag mem with before | queued
    · exact ordered.past key tag before
    · rw [ordered.queued] at queued
      obtain ⟨record, pending, rfl⟩ := mem_map.mp queued
      exact ordered.bounded key record (Lists.mem_without.mp pending).1
  flights := flights
  wire := by
    rw [trace]
    exact Runs.throughout_append.mpr ⟨ordered.wire, wire⟩

theorem throughout_ashore {history : List Event} (ashore : ∀ event ∈ events, event.Ashore) :
    Runs.Throughout (fun before => HandedAtHead (history ++ before)) events := by
  refine Runs.throughout_of_forall fun event he before => ?_
  have := ashore event he
  cases event <;> trivial

theorem InOrder.ashore (ordered : l.InOrder) (trace : l'.trace = l.trace ++ events)
    (appended : ∀ key, appendedTo key events = []) (ashore : ∀ event ∈ events, event.Ashore)
    (arrivals : l.arrivals ≤ l'.arrivals) (flight : l'.flight = l.flight)
    (follows : Follows l l') : l'.InOrder := by
  refine ordered.next trace appended arrivals follows (fun key => ?_) (throughout_ashore ashore)
  obtain ⟨handed, ended⟩ := handedIn_ashore ashore key
  rw [trace, handedIn_append, endedIn_append, handed, ended, flight]
  exact ordered.flights key

theorem InOrder.pending (ordered : l.InOrder) (clear : l.doomed = []) (key : PartitionKey) :
    pendingIn key l.trace = l.recordsOf key := by
  rw [ordered.queued]
  simp [pendingIn, gone, tagsOf, clear]

theorem gone_of_trace (trace : l'.trace = l.trace ++ events) (doomed : l'.doomed = l.doomed)
    (resolved : ∀ key, resolvedIn key events = []) (key : PartitionKey) (tag : Nat) :
    tag ∈ l'.gone key ↔ tag ∈ l.gone key := by
  rw [gone, gone, trace, resolvedIn_append, resolved, append_nil, doomed]

theorem InOrder.stay (ordered : l.InOrder) (records : ∀ key, l'.recordsOf key = l.recordsOf key)
    (trace : l'.trace = l.trace ++ events) (unmoving : Unmoving events)
    (doomed : l'.doomed = l.doomed) : Follows l l' := by
  refine ordered.keep records (fun key => ?_) (gone_of_trace trace doomed unmoving.resolved)
  rw [trace, appendedTo_append, unmoving.appended, append_nil]

variable {batch : Batch} {back : List Batch}

theorem InOrder.rewrite (ordered : l.InOrder) {key : PartitionKey}
    {new : List Batch} (head : l.line key = batch :: back) (line : l'.line = update l.line key new)
    (records : new.flatMap Batch.records = batch.records ++ back.flatMap Batch.records)
    (trace : l'.trace = l.trace ++ events) (unmoving : Unmoving events)
    (doomed : l'.doomed = l.doomed) : Follows l l' := by
  refine ordered.stay (recordsOf_update line ?_) trace unmoving doomed
  rw [records, recordsOf, head, flatMap_cons]

theorem InOrder.handOut (ordered : l.InOrder) (clear : l.doomed = []) {broker : Int}
    {sent : WireBatch} {batch' : Batch}
    (slot : l.flight sent.key = false) (head : l.line sent.key = batch :: back)
    (records : sent.records = batch.records)
    (line : l'.line = update l.line sent.key (batch' :: back))
    (same : batch'.records = batch.records)
    (flight : l'.flight = update l.flight sent.key true) (unmoving : Unmoving events)
    (ashore : ∀ event ∈ events, event.Ashore)
    (trace : l'.trace = l.trace ++ (events ++ [Event.handed broker sent]))
    (doomed : l'.doomed = l.doomed) (arrivals : l'.arrivals = l.arrivals) : l'.InOrder := by
  have last : Unmoving (events ++ [Event.handed broker sent]) :=
    ⟨fun k => by rw [appendedTo_append, unmoving.appended]; rfl,
      fun k => by rw [resolvedIn_append, unmoving.resolved]; rfl⟩
  have grounded : handedIn sent.key (l.trace ++ events) = endedIn sent.key (l.trace ++ events) := by
    obtain ⟨handed, ended⟩ := handedIn_ashore ashore sent.key
    simp [handed, ended, ordered.flights, slot]
  refine ordered.next trace last.appended arrivals.ge
    (ordered.rewrite head line (by rw [flatMap_cons, same]) trace last doomed) (fun k => ?_) ?_
  · obtain ⟨handed, ended⟩ := handedIn_ashore ashore k
    rw [trace, ← append_assoc, handedIn_append, handedIn_append, endedIn_append,
      endedIn_append, handed, ended, handedIn_handed, endedIn_handed, flight, ordered.flights]
    by_cases here : k = sent.key
    · simp [here, slot]
    · simp [here, Ne.symm here]
  · refine Runs.throughout_concat.mpr ⟨throughout_ashore ashore, grounded, ?_⟩
    have pending : pendingIn sent.key (l.trace ++ events) = l.recordsOf sent.key := by
      rw [← ordered.pending clear]
      simp [pendingIn, unmoving.appended, unmoving.resolved]
    rw [pending, recordsOf, head, flatMap_cons, records]
    exact prefix_append ..

theorem InOrder.leaveHead (ordered : l.InOrder) {key : PartitionKey}
    (head : l.line key = batch :: back) (line : l'.line = update l.line key back)
    (appended : ∀ key, appendedTo key l'.trace = appendedTo key l.trace)
    (gone : ∀ k tag, tag ∈ l'.gone k ↔ tag ∈ l.gone k ∨ key = k ∧ tag ∈ batch.tags) :
    Follows l l' := by
  have parts : (l.line key).Perm ([batch] ++ back) := by
    rw [head]
    exact List.Perm.refl _
  have order : back.Sublist (l.line key) := by
    rw [head]
    exact sublist_cons_self ..
  exact ordered.leave line parts order appended fun k tag => by simp [gone]

end Ledger

variable {p : Policy}

theorem unmoving_of_stamp (key : PartitionKey) (batch : Batch) :
    Unmoving (batch.stamp.toList.map fun stamp => .retracted key stamp batch.records) := by
  refine Unmoving.of_forall fun event he k => ?_
  obtain ⟨stamp, _, rfl⟩ := mem_map.mp he
  exact ⟨rfl, rfl⟩

theorem ashore_of_stamp : ∀ event ∈ batch.stamp.toList.map
    fun stamp => Event.retracted key stamp batch.records, event.Ashore := by
  intro event he
  obtain ⟨stamp, _, rfl⟩ := mem_map.mp he
  trivial

theorem split_records {first second : Batch} (halves : batch.unstamp.split = some (first, second)) :
    first.records ++ second.records = batch.records := by
  obtain ⟨rfl, rfl⟩ := Batch.split_eq halves
  exact take_append_drop ..

theorem inOrder_accept {l : Ledger} {record : RecordData} {waiter : Waiter}
    {size generation : Nat} {older : List Batch} {last : Batch} (ordered : l.InOrder)
    (record_tag : record.tag = l.arrivals) (place : l.line key = older ++ [last] ∨
      l.line key = older ∧ ∃ now deadline, last = Batch.new now deadline) :
    ({ l with
      line := update l.line key (older ++ [last.push record size generation waiter])
      arrivals := l.arrivals + 1
      trace := l.trace ++ [Event.arrived key record, .appended key record] } : Ledger).InOrder := by
  have recordsOf (k : PartitionKey) : (update l.line key
      (older ++ [last.push record size generation waiter]) k).flatMap Batch.records =
        l.recordsOf k ++ if k = key then [record] else [] := by
    by_cases here : k = key
    · subst here
      rw [update_self, if_pos rfl, Ledger.recordsOf]
      rcases place with before | ⟨before, _, _, rfl⟩
      · simp [before, Batch.push]
      · simp [before, Batch.push, Batch.new]
    · rw [update_of_ne here, if_neg here, append_nil]
      rfl
  have appended (k : PartitionKey) : appendedTo k [.arrived key record, .appended key record] =
      if k = key then [record] else [] := by
    by_cases here : k = key
    · simp [appendedTo, Event.appendedTo, here]
    · simp [appendedTo, Event.appendedTo, here, Ne.symm here]
  have ashore : ∀ event ∈ [Event.arrived key record, .appended key record], event.Ashore := by
    simp [Event.Ashore]
  have resolved (k : PartitionKey) : resolvedIn k [.arrived key record, .appended key record] = [] :=
    rfl
  have only (k : PartitionKey) (r : RecordData) (mem : r ∈ if k = key then [record] else []) :
      r.tag = l.arrivals := by
    split_ifs at mem
    · simpa [mem_singleton.mp mem] using record_tag
    · cases mem
  refine ⟨fun k => ?_, fun k => ?_, fun k r mem => ?_, fun k tag mem => ?_, fun k => ?_, ?_⟩
  · have fresh : ∀ r ∈ (if k = key then [record] else []), r.tag ∉ l.gone k :=
      fun r mem gone => absurd (ordered.past k _ gone) (by rw [only k r mem]; exact lt_irrefl _)
    have same : resolvedIn k (l.trace ++ [Event.arrived key record, .appended key record]) =
        resolvedIn k l.trace := by
      rw [resolvedIn_append, resolved, append_nil]
    show (update l.line key _ k).flatMap Batch.records =
      Lists.without RecordData.tag (resolvedIn k (l.trace ++ _) ++ tagsOf k l.doomed) _
    rw [recordsOf, appendedTo_append, appended, ordered.queued, same, Lists.without_append]
    exact congrArg _ (Lists.without_of_disjoint fresh).symm
  · rw [appendedTo_append, appended, map_append, pairwise_append]
    refine ⟨ordered.sorted k, by split_ifs <;> simp, fun tag older new later => ?_⟩
    obtain ⟨r, mem, rfl⟩ := mem_map.mp older
    rw [mem_map] at later
    obtain ⟨r', mem', rfl⟩ := later
    exact (ordered.bounded k r mem).trans_eq (only k r' mem').symm
  · rw [appendedTo_append, appended, mem_append] at mem
    rcases mem with mem | mem
    · exact (ordered.bounded k r mem).trans (Nat.lt_succ_self _)
    · exact (only k r mem).trans_lt (Nat.lt_succ_self _)
  · rw [Ledger.gone, resolvedIn_append, resolved, append_nil] at mem
    exact (ordered.past k tag mem).trans (Nat.lt_succ_self _)
  · obtain ⟨handed, ended⟩ := handedIn_ashore ashore k
    rw [handedIn_append, endedIn_append, handed, ended]
    exact ordered.flights k
  · exact Runs.throughout_append.mpr ⟨ordered.wire, Ledger.throughout_ashore ashore⟩

theorem Effect.inOrder {l l' : Ledger} (effect : Effect p l l') (ordered : l.InOrder) :
    l'.InOrder := by
  cases effect with
  | silent free events silent =>
    have unmoving := unmoving_silent silent
    exact ordered.ashore rfl unmoving.appended (ashore_silent silent) le_rfl rfl
      (ordered.stay (fun _ => rfl) rfl unmoving rfl)
  | refuse free key record waiter error =>
    have unmoving : Unmoving [.arrived key record, .answered key record waiter (.error error)] :=
      ⟨fun _ => rfl, fun _ => rfl⟩
    exact ordered.ashore rfl unmoving.appended (by simp [Event.Ashore]) (Nat.le_succ _) rfl
      (ordered.stay (fun _ => rfl) rfl unmoving rfl)
  | accept free key record waiter size generation record_tag waiter_tag place =>
    exact inOrder_accept ordered record_tag place
  | take free key parts order =>
    refine ordered.ashore (append_nil _).symm (fun _ => rfl) (by simp) le_rfl rfl
      (ordered.leave rfl parts order (fun _ => rfl) fun k tag => ?_)
    rw [Ledger.gone, tagsOf_append, ← append_assoc, mem_append]
    refine or_congr_right ?_
    by_cases here : key = k
    · subst here
      simp [tagsOf_map_self]
    · simp [tagsOf_map_other (Ne.symm here), here]
  | fail free error first =>
    refine ordered.ashore rfl (fun k => appendedTo_cons_answers ..)
      (forall_mem_cons.mpr ⟨trivial, ashore_answers⟩) le_rfl rfl
      (ordered.keep (fun _ => rfl) (fun k => ?_) fun k tag => ?_)
    · rw [appendedTo_append, appendedTo_cons_answers]
      exact append_nil _
    · simp only [Ledger.gone, resolvedIn_append, resolvedIn_cons_answers, first, tagsOf,
        flatMap_cons, mem_append, Event.resolves, Batch.tags]
      tauto
  | answer free error head =>
    exact ordered.ashore rfl (unmoving_answers ..).appended ashore_answers le_rfl rfl
      (ordered.rewrite head rfl rfl rfl (unmoving_answers ..) rfl)
  | handOut free clear broker sent slot head records =>
    exact ordered.handOut clear slot head records rfl rfl rfl ⟨fun _ => rfl, fun _ => rfl⟩
      (forall_mem_nil _) rfl rfl rfl
  | @stampOut free clear batch back broker sent stamp slot head records =>
    have ashore : ∀ event ∈ [Event.stamped sent.key stamp batch.records], event.Ashore := by
      simp [Event.Ashore]
    exact ordered.handOut clear slot head records rfl rfl rfl ⟨fun _ => rfl, fun _ => rfl⟩ ashore rfl
      rfl rfl
  | @endAttempt free key batch back encoded outcome head flying =>
    have unmoving : Unmoving [.ended key batch.records batch.stamp outcome] :=
      ⟨fun _ => rfl, fun _ => rfl⟩
    refine ordered.next rfl unmoving.appended le_rfl
      (ordered.rewrite head rfl (by rw [flatMap_cons, Batch.marked_records]) rfl unmoving rfl)
      (fun k => ?_) (Runs.throughout_of_forall (by simp [HandedAtHead]))
    rw [handedIn_append, endedIn_append, handedIn_ended, endedIn_ended, ordered.flights]
    by_cases here : k = key
    · simp [here, flying]
    · simp [here, Ne.symm here]
  | acknowledge result held head =>
    refine ordered.ashore rfl (fun k => appendedTo_cons_answers ..)
      (forall_mem_cons.mpr ⟨trivial, ashore_answers⟩) le_rfl rfl
      (ordered.leaveHead head rfl (fun k => ?_) fun k tag => ?_)
    · rw [appendedTo_append, appendedTo_cons_answers]
      exact append_nil _
    · simp only [Ledger.gone, resolvedIn_append, resolvedIn_cons_answers, mem_append,
        Event.resolves, Batch.tags, mem_ite_nil_right]
      exact or_right_comm
  | condemn held head =>
    refine ordered.ashore (append_nil _).symm (fun _ => rfl) (by simp) le_rfl rfl
      (ordered.leaveHead head rfl (fun _ => rfl) fun k tag => ?_)
    simp only [Ledger.gone, tagsOf_append, mem_append]
    simp [tagsOf, or_assoc]
  | retry error held head =>
    exact ordered.ashore (append_nil _).symm (fun _ => rfl) (by simp) le_rfl rfl
      (ordered.rewrite head rfl rfl (append_nil _).symm ⟨fun _ => rfl, fun _ => rfl⟩ rfl)
  | restamp held head =>
    exact ordered.ashore rfl (unmoving_of_stamp ..).appended ashore_of_stamp le_rfl rfl
      (ordered.rewrite head rfl rfl rfl (unmoving_of_stamp ..) rfl)
  | split held head live halves =>
    refine ordered.ashore rfl (unmoving_of_stamp ..).appended ashore_of_stamp le_rfl rfl
      (ordered.rewrite head rfl ?_ rfl (unmoving_of_stamp ..) rfl)
    rw [flatMap_cons, flatMap_cons, ← append_assoc, split_records halves]

/-! Runs -/

theorem spawn_inOrder (config : EngineConfig) : (Custody.rest (spawn config)).ledger.InOrder :=
  ⟨fun _ => rfl, fun _ => List.Pairwise.nil, fun _ _ => nofun, fun _ _ => nofun, fun _ => rfl,
    Runs.throughout_nil _⟩

theorem run_inOrder (config : EngineConfig) (inputs : List Input) :
    (Custody.rest (run config inputs)).ledger.InOrder :=
  run_ledger Ledger.InOrder (fun _ _ effect => effect.inOrder) (spawn_inOrder config)
    (along_any _ inputs)

theorem HandedAtHead.no_overtaking {before : List Event} {broker : Int} {sent : WireBatch}
    (handed : HandedAtHead before (.handed broker sent))
    (sorted : ((appendedTo sent.key before).map (·.tag)).Pairwise (· < ·)) {earlier record : RecordData}
    (pending : earlier ∈ pendingIn sent.key before) (carried : record ∈ sent.records)
    (order : earlier.tag < record.tag) : earlier ∈ sent.records := by
  obtain ⟨rest, split⟩ := handed.2
  have sorted : ((sent.records ++ rest).map (·.tag)).Pairwise (· < ·) := by
    rw [split]
    exact sorted.sublist (filter_sublist.map _)
  rw [← split] at pending
  rcases mem_append.mp pending with here | later
  · exact here
  · rw [map_append, pairwise_append] at sorted
    have := sorted.2.2 _ (mem_map_of_mem carried) _ (mem_map_of_mem later)
    omega

/-- The records appended to a partition are those of its appends, in the order of the inputs and
without those that came when the engine was lost. In every state the records in flight, sealed and
open are those appended and not yet resolved, in append order; a batch goes out from the front,
alone of its partition; so no record overtakes an earlier one of another batch. -/
theorem records_keep_append_order (config : EngineConfig) (inputs : List Input) :
    (∀ key, appendedTo key (run config inputs).trace =
      ((spawn config).taken inputs).zipIdx.flatMap fun a =>
        if a.1.append.key = key ∧ a.1.refused = false then [{ a.1.append.data with tag := a.2 }]
        else []) ∧
    (∀ key, (((run config inputs).queue key).inFlight.toList ++
        ((run config inputs).queue key).sealed ++
        ((run config inputs).queue key).openBatch.toList).flatMap Batch.records =
      pendingIn key (run config inputs).trace) ∧
    Runs.Throughout HandedAtHead (run config inputs).trace ∧
    Runs.Throughout (fun before event => ∀ broker sent, event = .handed broker sent →
      ∀ earlier ∈ pendingIn sent.key before, ∀ record ∈ sent.records, earlier.tag < record.tag →
        earlier ∈ sent.records) (run config inputs).trace := by
  have ordered := run_inOrder config inputs
  refine ⟨fun key => ?_, fun key => ?_, ordered.wire, ?_⟩
  · have others (event : Event) : event.isIntake = false → event.appendedTo key = [] := by
      cases event <;> simp [Event.isIntake, Event.appendedTo]
    rw [appendedTo, flatMap_intake others]
    refine congrArg (List.flatMap · _) (funext fun a => ?_)
    cases refused : a.1.refused <;> simp [Arrival.told, Event.appendedTo, refused]
  · rw [append_assoc]
    exact (ordered.pending rfl key).symm
  · rintro before event after history broker sent rfl earlier pending record carried order
    refine (ordered.wire before _ after history).no_overtaking ?_ pending carried order
    have sorted := ordered.sorted sent.key
    rw [show (Custody.rest (run config inputs)).ledger.trace = _ from history, appendedTo_append,
      map_append] at sorted
    exact (pairwise_append.mp sorted).1

/-- The first record is acknowledged, the next two are in flight and the last one waits. -/
def sampleBacklog : List Input :=
  [sampleAppend, sampleDrain, sampleDone 0 (.answer .none 5 (-1) (-1)), sampleAppend, sampleAppend,
    sampleDrain, sampleAppend]

theorem backlog_keeps_append_order :
    ((appendedTo sampleKey (run (sampleConfig .plain) sampleBacklog).trace).map (·.tag) =
      [0, 1, 2, 3]) ∧
    ((((run (sampleConfig .plain) sampleBacklog).queue sampleKey).inFlight.toList ++
        ((run (sampleConfig .plain) sampleBacklog).queue sampleKey).sealed ++
        ((run (sampleConfig .plain) sampleBacklog).queue sampleKey).openBatch.toList).flatMap
          Batch.records).map (·.tag) = [1, 2, 3] ∧
    handedIn sampleKey (run (sampleConfig .plain) sampleBacklog).trace = 2 := by
  obtain ⟨appended, queued, -⟩ := records_keep_append_order (sampleConfig .plain) sampleBacklog
  rw [appended, queued]
  exact ⟨by decide, by decide, by decide⟩

end Krafka.Producer
