import Krafka.Producer.Records

/-! Every record's caller is answered once, or its waiter is still held beside the record. -/

namespace Krafka.Producer

open List Function Engine

def Event.arrivals (key : PartitionKey) : Event → List Nat
  | .arrived k record => if k = key then [record.tag] else []
  | _ => []

def Event.answers (key : PartitionKey) : Event → List Nat
  | .answered k _ waiter _ => if k = key then [waiter.tag] else []
  | _ => []

def arrivedIn (key : PartitionKey) (history : List Event) : List Nat :=
  history.flatMap (Event.arrivals key)

def answeredIn (key : PartitionKey) (history : List Event) : List Nat :=
  history.flatMap (Event.answers key)

def heldOf (key : PartitionKey) (batches : List (PartitionKey × Batch)) : List Nat :=
  batches.flatMap fun entry => if entry.1 = key then entry.2.held else []

/-- Each waiter stands at the index of its record; where the waiters are gone, they were
answered. -/
def Batch.Aligned (answered : List Nat) (batch : Batch) : Prop :=
  match batch.waiters with
  | some waiters => waiters.map (·.tag) = batch.tags
  | none => ∀ tag ∈ batch.tags, tag ∈ answered

section History

variable (key : PartitionKey) (history more : List Event)

theorem arrivedIn_append :
    arrivedIn key (history ++ more) = arrivedIn key history ++ arrivedIn key more :=
  flatMap_append

theorem answeredIn_append :
    answeredIn key (history ++ more) = answeredIn key history ++ answeredIn key more :=
  flatMap_append

end History

variable {batch : Batch} {answered : List Nat}

theorem Batch.Aligned.length_le
    (aligned : batch.Aligned answered) : (batch.waiters.getD []).length ≤ batch.records.length := by
  unfold Batch.Aligned at aligned
  split at aligned
  next waiters held =>
    have := congrArg List.length aligned
    simp only [length_map, Batch.tags] at this
    simp [held, this]
  next held => simp [held]

theorem answeredIn_answers (aligned : batch.Aligned answered)
    (k key : PartitionKey) (result : Nat → RecordData → Result RecordMetadata) :
    answeredIn k (answers key batch result) = if key = k then batch.held else [] := by
  have each : answeredIn k (answers key batch result) =
      ((batch.waiters.getD []).zip batch.records).zipIdx.flatMap fun entry =>
        if key = k then [entry.1.1.tag] else [] := by
    simp only [answeredIn, answers, flatMap_map]
    rfl
  rw [each]
  split_ifs with here
  · have whole := map_fst_zip aligned.length_le
    calc ((batch.waiters.getD []).zip batch.records).zipIdx.flatMap (fun entry => [entry.1.1.tag])
        = (((batch.waiters.getD []).zip batch.records).zipIdx.map Prod.fst).map (·.1.tag) := by
          rw [map_map, map_eq_flatMap]
          rfl
      _ = (((batch.waiters.getD []).zip batch.records).map Prod.fst).map (·.tag) := by
          rw [zipIdx_map_fst, map_map]
          rfl
      _ = batch.held := by
          rw [whole]
          rfl
  · simp

theorem arrivedIn_answers (k key : PartitionKey) (batch : Batch)
    (result : Nat → RecordData → Result RecordMetadata) :
    arrivedIn k (answers key batch result) = [] :=
  flatMap_eq_nil_iff.mpr (forall_answers fun _ _ _ _ => rfl)

theorem Batch.Aligned.mono {answered' : List Nat}
    (aligned : batch.Aligned answered) (more : answered ⊆ answered') : batch.Aligned answered' := by
  unfold Batch.Aligned at aligned ⊢
  split at aligned
  · exact aligned
  · exact fun tag mem => more (aligned tag mem)

theorem Batch.Aligned.congr {batch' : Batch}
    (aligned : batch.Aligned answered) (records : batch'.records = batch.records)
    (waiters : batch'.waiters = batch.waiters) : batch'.Aligned answered := by
  unfold Batch.Aligned Batch.tags at aligned ⊢
  rwa [records, waiters]

theorem Batch.held_congr {batch' : Batch} (waiters : batch'.waiters = batch.waiters) :
    batch'.held = batch.held := by
  rw [Batch.held, waiters, Batch.held]

theorem Batch.Aligned.tags_eq
    (aligned : batch.Aligned answered) (live : batch.waiters.isSome) : batch.held = batch.tags := by
  obtain ⟨waiters, held⟩ := Option.isSome_iff_exists.mp live
  simp only [Batch.Aligned, held] at aligned
  simpa [Batch.held, held] using aligned

theorem Batch.aligned_of_some {waiters : List Waiter}
    (held : batch.waiters = some waiters) (tags : waiters.map (·.tag) = batch.tags) :
    batch.Aligned answered := by
  simpa only [Batch.Aligned, held] using tags

theorem Batch.Aligned.dismissed
    (aligned : batch.Aligned answered) :
    Batch.Aligned (answered ++ batch.held) { batch with waiters := none } := by
  intro tag mem
  cases waiters : batch.waiters with
  | none =>
    simp only [Batch.Aligned, waiters] at aligned
    exact mem_append_left _ (aligned tag mem)
  | some =>
    rw [aligned.tags_eq (by simp [waiters])]
    exact mem_append_right _ mem

variable {record : RecordData} {waiter : Waiter}

theorem Batch.Aligned.push {last : Batch} (fresh : last.Fresh)
    (aligned : last.Aligned answered) (size generation : Nat) (same : waiter.tag = record.tag) :
    (last.push record size generation waiter).Aligned answered ∧
      (last.push record size generation waiter).held = last.held ++ [record.tag] := by
  obtain ⟨waiters, held⟩ := Option.isSome_iff_exists.mp fresh.waiters
  have tags := aligned.tags_eq fresh.waiters
  simp only [Batch.held, Batch.tags, held, Option.getD_some] at tags
  have pushed : (last.push record size generation waiter).waiters = some (waiters ++ [waiter]) := by
    simp [Batch.push, held]
  refine ⟨Batch.aligned_of_some pushed ?_, ?_⟩
  · simp [Batch.push, Batch.tags, tags, same]
  · simp [Batch.push, Batch.held, held, same]

theorem Batch.Aligned.split {first second : Batch}
    (aligned : batch.Aligned answered) (live : batch.waiters.isSome)
    (halves : batch.split = some (first, second)) :
    first.Aligned answered ∧ second.Aligned answered ∧ first.held ++ second.held = batch.held := by
  obtain ⟨rfl, rfl⟩ := Batch.split_eq halves
  have tags := aligned.tags_eq live
  have length : (batch.waiters.getD []).length = batch.records.length := by
    simpa [Batch.held, Batch.tags] using congrArg List.length tags
  have cut : min (batch.len / 2) (batch.waiters.getD []).length = batch.len / 2 := by
    rw [length]
    exact min_eq_left (Nat.div_le_self ..)
  rw [cut]
  refine ⟨Batch.aligned_of_some rfl ?_, Batch.aligned_of_some rfl ?_, ?_⟩
  · rw [map_take]
    exact (congrArg (List.take _) tags).trans map_take.symm
  · rw [map_drop]
    exact (congrArg (List.drop _) tags).trans map_drop.symm
  · show ((batch.waiters.getD []).take _).map _ ++ ((batch.waiters.getD []).drop _).map _ = _
    rw [← map_append, take_append_drop]
    rfl

theorem heldOf_append (key : PartitionKey) (front back : List (PartitionKey × Batch)) :
    heldOf key (front ++ back) = heldOf key front ++ heldOf key back := flatMap_append

theorem heldOf_map (key k : PartitionKey) (batches : List Batch) :
    heldOf k (batches.map (key, ·)) = if key = k then batches.flatMap Batch.held else [] := by
  split_ifs with here <;> simp [heldOf, flatMap_map, here]

variable {p : Policy}

namespace Ledger

structure Owes (l : Ledger) : Prop where
  balance : ∀ key tag, (arrivedIn key l.trace).count tag = (answeredIn key l.trace).count tag +
    ((l.line key).flatMap Batch.held).count tag + (heldOf key l.doomed).count tag
  aligned : ∀ key, ∀ batch ∈ l.line key, batch.Aligned (answeredIn key l.trace)
  doomed : ∀ entry ∈ l.doomed, entry.2.Aligned (answeredIn entry.1 l.trace)
  sorted : ∀ key, (arrivedIn key l.trace).Pairwise (· < ·)
  bounded : ∀ key, ∀ tag ∈ arrivedIn key l.trace, tag < l.arrivals

variable {l l' : Ledger} {events : List Event}

structure Arriving (l l' : Ledger) (events : List Event) : Prop where
  sorted : ∀ key, (arrivedIn key events).Pairwise (· < ·)
  fresh : ∀ key, ∀ tag ∈ arrivedIn key events, l.arrivals ≤ tag ∧ tag < l'.arrivals
  monotone : l.arrivals ≤ l'.arrivals

theorem Arriving.none (arrived : ∀ key, arrivedIn key events = []) (same : l'.arrivals = l.arrivals) :
    Arriving l l' events :=
  ⟨fun key => by simp [arrived], fun key => by simp [arrived], same.ge⟩

theorem Owes.next (owes : l.Owes) (trace : l'.trace = l.trace ++ events)
    (arriving : Arriving l l' events) (balance : ∀ key tag, (arrivedIn key events).count tag +
        ((l.line key).flatMap Batch.held).count tag + (heldOf key l.doomed).count tag =
      (answeredIn key events).count tag + ((l'.line key).flatMap Batch.held).count tag +
        (heldOf key l'.doomed).count tag) (aligned :
    ∀ key, ∀ batch ∈ l'.line key,
      batch ∈ l.line key ∨ batch.Aligned (answeredIn key l'.trace))
    (doomed : ∀ entry ∈ l'.doomed, entry ∈ l.doomed ∨ entry.2 ∈ l.line entry.1) : l'.Owes where
  balance key tag := by
    have before := owes.balance key tag
    have moved := balance key tag
    rw [trace, arrivedIn_append, answeredIn_append, count_append, count_append]
    omega
  aligned key batch mem := by
    rcases aligned key batch mem with older | new
    · rw [trace, answeredIn_append]
      exact (owes.aligned key batch older).mono (subset_append_left ..)
    · exact new
  doomed entry mem := by
    rw [trace, answeredIn_append]
    refine Batch.Aligned.mono ?_ (subset_append_left ..)
    rcases doomed entry mem with older | taken
    · exact owes.doomed entry older
    · exact owes.aligned entry.1 entry.2 taken
  sorted key := by
    rw [trace, arrivedIn_append, pairwise_append]
    exact ⟨owes.sorted key, arriving.sorted key, fun older before newer after =>
      (owes.bounded key older before).trans_le (arriving.fresh key newer after).1⟩
  bounded key tag mem := by
    rw [trace, arrivedIn_append, mem_append] at mem
    rcases mem with before | new
    · exact (owes.bounded key tag before).trans_le arriving.monotone
    · exact (arriving.fresh key tag new).2

theorem Owes.replace (owes : l.Owes) {key : PartitionKey} {new : List Batch}
    (gone taken : List Nat) (line : l'.line = update l.line key new)
    (trace : l'.trace = l.trace ++ events) (arrived : ∀ k, arrivedIn k events = [])
    (arrivals : l'.arrivals = l.arrivals)
    (answered : ∀ k, answeredIn k events = if key = k then gone else [])
    (held : ∀ k, heldOf k l'.doomed = heldOf k l.doomed ++ if key = k then taken else [])
    (parts : ((l.line key).flatMap Batch.held).Perm (gone ++ taken ++ new.flatMap Batch.held))
    (aligned : ∀ batch ∈ new, batch ∈ l.line key ∨ batch.Aligned (answeredIn key l.trace ++ gone))
    (doomed : ∀ entry ∈ l'.doomed, entry ∈ l.doomed ∨ entry.2 ∈ l.line entry.1) : l'.Owes := by
  refine owes.next trace (.none arrived arrivals) (fun k tag => ?_) (fun k batch mem => ?_) doomed
  · rw [arrived, answered, held, line]
    by_cases here : key = k
    · subst here
      have counted := parts.count_eq tag
      simp only [count_append] at counted
      simp only [update_self, if_true, count_append, count_nil]
      omega
    · simp only [update_of_ne (Ne.symm here), if_neg here, count_nil, append_nil]
  · rw [line] at mem
    rw [trace, answeredIn_append, answered]
    by_cases here : key = k
    · subst here
      rw [update_self] at mem
      simpa only [if_true] using aligned batch mem
    · rw [update_of_ne (Ne.symm here)] at mem
      exact .inl mem

theorem Owes.rewrite (owes : l.Owes) {key : PartitionKey} {batch : Batch} {back : List Batch}
    (front : List Batch) (head : l.line key = batch :: back)
    (line : l'.line = update l.line key (front ++ back))
    (trace : l'.trace = l.trace ++ events) (arrived : ∀ k, arrivedIn k events = [])
    (answered : ∀ k, answeredIn k events = []) (arrivals : l'.arrivals = l.arrivals)
    (same : front.flatMap Batch.held = batch.held)
    (aligned : ∀ new ∈ front, new.Aligned (answeredIn key l.trace))
    (doomed : l'.doomed = l.doomed) : l'.Owes := by
  refine owes.replace [] [] line trace arrived arrivals (fun k => by simp [answered])
    (fun k => by simp [doomed]) ?_ (fun new mem => ?_) fun entry mem => .inl (doomed ▸ mem)
  · rw [head, flatMap_cons, flatMap_append, same]
    exact List.Perm.refl _
  · rw [append_nil, head]
    rcases mem_append.mp mem with mem | mem
    · exact .inr (aligned new mem)
    · exact .inl (mem_cons_of_mem _ mem)

end Ledger

section Answers

variable {k : PartitionKey} {batch : Batch} {answered : List Nat}

theorem answeredIn_cons_answers (aligned : batch.Aligned answered) (key : PartitionKey)
    (event : Event) (result : Nat → RecordData → Result RecordMetadata)
    (first : event.answers k = []) :
    answeredIn k (event :: answers key batch result) = if key = k then batch.held else [] := by
  rw [answeredIn, flatMap_cons, first, nil_append]
  exact answeredIn_answers aligned k key result

theorem arrivedIn_cons_answers (key : PartitionKey) (event : Event)
    (result : Nat → RecordData → Result RecordMetadata)
    (first : event.arrivals k = []) : arrivedIn k (event :: answers key batch result) = [] := by
  rw [arrivedIn, flatMap_cons, first, nil_append]
  exact arrivedIn_answers k key batch result

theorem untold_silent {events : List Event} (silent : ∀ event ∈ events, event.Silent) :
    arrivedIn k events = [] ∧ answeredIn k events = [] := by
  constructor <;>
  · refine flatMap_eq_nil_iff.mpr fun event he => ?_
    have := silent event he
    cases event <;> simp_all [Event.Silent, Event.arrivals, Event.answers]

theorem untold_of_stamp (key : PartitionKey) (batch : Batch) :
    arrivedIn k (batch.stamp.toList.map fun stamp => .retracted key stamp batch.records) = [] ∧
      answeredIn k (batch.stamp.toList.map fun stamp => .retracted key stamp batch.records) = [] := by
  constructor <;> cases batch.stamp <;> rfl

end Answers

variable {l : Ledger}

theorem owes_refuse {key : PartitionKey}
    {error : KrafkaError} (owes : l.Owes) (record_tag : record.tag = l.arrivals)
    (waiter_tag : waiter.tag = l.arrivals) :
    ({ l with
      arrivals := l.arrivals + 1
      trace := l.trace ++ [Event.arrived key record, .answered key record waiter (.error error)] } :
        Ledger).Owes := by
  have told (k : PartitionKey) :
      arrivedIn k [.arrived key record, .answered key record waiter (.error error)] =
        (if key = k then [l.arrivals] else []) ∧
      answeredIn k [.arrived key record, .answered key record waiter (.error error)] =
        if key = k then [l.arrivals] else [] := by
    by_cases here : key = k <;>
      simp [arrivedIn, answeredIn, Event.arrivals, Event.answers, here, record_tag, waiter_tag]
  refine owes.next rfl ⟨fun k => ?_, fun k tag mem => ?_, Nat.le_succ _⟩ (fun k tag => ?_)
    (fun _ _ => .inl) fun _ => .inl
  · rw [(told k).1]
    split_ifs <;> simp
  · rw [(told k).1] at mem
    split_ifs at mem <;> simp_all
  · rw [(told k).1, (told k).2]

theorem owes_accept {key : PartitionKey}
    {size generation : Nat} {older : List Batch} {last : Batch} (owes : l.Owes)
    (record_tag : record.tag = l.arrivals) (waiter_tag : waiter.tag = l.arrivals)
    (place : l.line key = older ++ [last] ∨
      l.line key = older ∧ ∃ now deadline, last = Batch.new now deadline) (fresh :
    last.Fresh) :
    ({ l with
      line := update l.line key (older ++ [last.push record size generation waiter])
      arrivals := l.arrivals + 1
      trace := l.trace ++ [Event.arrived key record, .appended key record] } : Ledger).Owes := by
  have arrived (k : PartitionKey) : arrivedIn k [.arrived key record, .appended key record] =
      if key = k then [l.arrivals] else [] := by
    by_cases here : key = k <;> simp [arrivedIn, Event.arrivals, here, record_tag]
  have aligned : last.Aligned (answeredIn key l.trace) := by
    rcases place with queued | ⟨_, now, deadline, rfl⟩
    · exact owes.aligned key last (by simp [queued])
    · exact Batch.aligned_of_some rfl rfl
  have before : (l.line key).flatMap Batch.held = (older ++ [last]).flatMap Batch.held := by
    rcases place with queued | ⟨queued, now, deadline, rfl⟩
    · rw [queued]
    · simp [queued, Batch.new, Batch.held]
  obtain ⟨pushed, held⟩ := aligned.push fresh size generation (waiter_tag.trans record_tag.symm)
  refine owes.next rfl ⟨fun k => ?_, fun k tag mem => ?_, Nat.le_succ _⟩ (fun k tag => ?_)
    (fun k batch mem => ?_) fun _ => .inl
  · rw [arrived]
    split_ifs <;> simp
  · rw [arrived] at mem
    split_ifs at mem <;> simp_all
  · rw [arrived, show answeredIn k [.arrived key record, .appended key record] = [] from rfl]
    by_cases here : key = k
    · subst here
      simp only [if_true, before, update_self, flatMap_append, flatMap_cons, held,
        flatMap_nil, append_nil, count_append, record_tag, count_nil]
      omega
    · simp [here, Ne.symm here]
  · dsimp only at mem ⊢
    rcases Lists.mem_update mem with ⟨rfl, placed⟩ | ⟨-, mem⟩
    · rw [mem_append, mem_singleton] at placed
      rcases placed with mem | rfl
      · rcases place with queued | ⟨queued, _⟩
        · exact .inl (by simp [queued, mem])
        · exact .inl (by rwa [queued])
      · rw [answeredIn_append]
        exact .inr (pushed.mono (subset_append_left ..))
    · exact .inl mem

theorem Effect.owes {l' : Ledger} (effect : Effect p l l') (owes : l.Owes) : l'.Owes := by
  cases effect with
  | silent free events silent =>
    refine owes.next rfl (.none (fun _ => (untold_silent silent).1) rfl) (fun k tag => ?_)
      (fun _ _ => .inl) fun _ => .inl
    rw [(untold_silent silent).1, (untold_silent silent).2]
  | refuse free key record waiter error record_tag waiter_tag =>
    exact owes_refuse owes record_tag waiter_tag
  | accept free key record waiter size generation record_tag waiter_tag place fresh =>
    exact owes_accept owes record_tag waiter_tag place fresh
  | @take free key kept removed stamps parts order =>
    refine owes.replace [] (removed.flatMap Batch.held) rfl (append_nil _).symm (fun _ => rfl) rfl
      (fun k => by simp [answeredIn]) (fun k => by rw [heldOf_append, heldOf_map]) ?_
      (fun batch mem => .inl (order.subset mem)) fun entry mem => ?_
    · rw [nil_append, ← flatMap_append]
      exact parts.flatMap_right _
    · rcases mem_append.mp mem with mem | mem
      · exact .inl mem
      · obtain ⟨batch, taken, rfl⟩ := mem_map.mp mem
        exact .inr (parts.mem_iff.mpr (mem_append_left _ taken))
  | @fail free key batch doomed error first =>
    have aligned := owes.doomed (key, batch) (by simp [first])
    refine owes.next rfl (.none (fun k => arrivedIn_cons_answers _ _ _ rfl) rfl) (fun k tag => ?_)
      (fun _ _ => .inl) fun entry mem => .inl (by rw [first]; exact mem_cons_of_mem _ mem)
    rw [arrivedIn_cons_answers _ _ _ rfl, answeredIn_cons_answers aligned _ _ _ rfl, first]
    simp only [heldOf, flatMap_cons, count_append, count_nil]
    omega
  | @answer free key batch back error head =>
    have aligned := owes.aligned key batch (by simp [head])
    refine owes.replace batch.held [] rfl rfl (fun k => arrivedIn_answers ..) rfl
      (fun k => answeredIn_answers aligned ..) (fun k => by simp) ?_ (fun new mem => ?_) fun _ => .inl
    · rw [head, flatMap_cons, flatMap_cons, append_nil]
      exact List.Perm.refl _
    · rcases mem_cons.mp mem with rfl | mem
      · exact .inr aligned.dismissed
      · exact .inl (by rw [head]; exact mem_cons_of_mem _ mem)
  | @handOut free clear batch back broker sent slot head
  | @stampOut free clear batch back broker sent stamp slot head =>
    have aligned := owes.aligned sent.key batch (by simp [head])
    exact owes.rewrite [_] head rfl rfl (fun _ => rfl) (fun _ => rfl) rfl (append_nil _)
      (forall_mem_singleton.mpr (aligned.congr rfl rfl)) rfl
  | @endAttempt free key batch back encoded outcome head =>
    have aligned := owes.aligned key batch (by simp [head])
    refine owes.rewrite [_] head rfl rfl (fun _ => rfl) (fun _ => rfl) rfl ?_
      (forall_mem_singleton.mpr (aligned.congr ?_ ?_)) rfl
    · rw [flatMap_singleton]
      exact Batch.held_congr (Batch.marked_waiters ..)
    · exact Batch.marked_records ..
    · exact Batch.marked_waiters ..
  | @acknowledge key batch back outcome stamps result held head =>
    have aligned := owes.aligned key batch (by simp [head])
    refine owes.replace batch.held [] rfl rfl (fun k => arrivedIn_cons_answers _ _ _ rfl) rfl
      (fun k => answeredIn_cons_answers aligned _ _ _ rfl) (fun k => by simp) ?_
      (fun new mem => .inl (by rw [head]; exact mem_cons_of_mem _ mem)) fun _ => .inl
    rw [head, flatMap_cons, append_nil]
  | @condemn key batch back outcome stamps held head =>
    refine owes.replace [] batch.held rfl (append_nil _).symm (fun _ => rfl) rfl
      (fun k => by simp [answeredIn]) (fun k => ?_) ?_
      (fun new mem => .inl (by rw [head]; exact mem_cons_of_mem _ mem)) fun entry mem => ?_
    · rw [heldOf_append]
      simp [heldOf]
    · rw [head, flatMap_cons, nil_append]
    · rcases mem_append.mp mem with mem | mem
      · exact .inl mem
      · cases mem_singleton.mp mem
        exact .inr (by simp [head])
  | @retry key batch back outcome error held head =>
    have aligned := owes.aligned key batch (by simp [head])
    exact owes.rewrite [_] head rfl (append_nil _).symm (fun _ => rfl) (fun _ => rfl) rfl
      (append_nil _) (forall_mem_singleton.mpr (aligned.congr rfl rfl)) rfl
  | @restamp key batch back outcome stamps held head =>
    have aligned := owes.aligned key batch (by simp [head])
    exact owes.rewrite [_] head rfl rfl (fun _ => (untold_of_stamp ..).1)
      (fun _ => (untold_of_stamp ..).2) rfl (append_nil _)
      (forall_mem_singleton.mpr (aligned.congr rfl rfl)) rfl
  | @split key batch first second back outcome stamps held head live halves =>
    have aligned := owes.aligned key batch (by simp [head])
    have whole : batch.unstamp.Aligned (answeredIn key l.trace) := aligned.congr rfl rfl
    obtain ⟨one, two, both⟩ := whole.split live halves
    refine owes.rewrite [first, second] head rfl rfl (fun _ => (untold_of_stamp ..).1)
      (fun _ => (untold_of_stamp ..).2) rfl ?_ ?_ rfl
    · rw [flatMap_cons, flatMap_singleton]
      exact both
    · simp [one, two]

/-! Runs -/

theorem run_owes (config : EngineConfig) (inputs : List Input) :
    (Custody.rest (run config inputs)).ledger.Owes := by
  refine run_ledger Ledger.Owes (fun _ _ effect => effect.owes) ?_ (along_any _ inputs)
  exact ⟨fun _ _ => rfl, fun _ _ => nofun, fun _ => nofun, fun _ => List.Pairwise.nil, fun _ _ => nofun⟩

/-- The records that came in are those of the appends, numbered in the order of the inputs. Each was
answered once or its waiter is held once, at the record's index, in a batch of its partition; a
batch without waiters has no caller left to answer. -/
theorem waiters_answered_once (config : EngineConfig) (inputs : List Input) (key : PartitionKey) :
    (arrivedIn key (run config inputs).trace =
      ((spawn config).taken inputs).zipIdx.flatMap fun a =>
        if a.1.append.key = key then [a.2] else []) ∧
    (arrivedIn key (run config inputs).trace).Nodup ∧
    (arrivedIn key (run config inputs).trace).Perm
      (answeredIn key (run config inputs).trace ++
        ((run config inputs).queue key).batches.flatMap Batch.held) ∧
    ∀ batch ∈ ((run config inputs).queue key).batches,
      batch.Aligned (answeredIn key (run config inputs).trace) := by
  have owes := run_owes config inputs
  refine ⟨?_, (owes.sorted key).imp Nat.ne_of_lt, perm_iff_count.mpr fun tag => ?_,
    owes.aligned key⟩
  · have others (event : Event) : event.isIntake = false → event.arrivals key = [] := by
      cases event <;> simp [Event.isIntake, Event.arrivals]
    rw [arrivedIn, flatMap_intake others]
    refine congrArg (List.flatMap · _) (funext fun a => ?_)
    cases refused : a.1.refused <;> simp [Arrival.told, Event.arrivals, refused]
  · rw [count_append]
    exact owes.balance key tag

theorem backlog_is_answered_once :
    arrivedIn sampleKey (run (sampleConfig .plain) sampleBacklog).trace = [0, 1, 2, 3] ∧
    answeredIn sampleKey (run (sampleConfig .plain) sampleBacklog).trace = [0] ∧
    [0, 1, 2, 3].Perm ([0] ++
      ((run (sampleConfig .plain) sampleBacklog).queue sampleKey).batches.flatMap Batch.held) := by
  obtain ⟨numbered, -, balance, -⟩ :=
    waiters_answered_once (sampleConfig .plain) sampleBacklog sampleKey
  have arrived : arrivedIn sampleKey (run (sampleConfig .plain) sampleBacklog).trace =
      [0, 1, 2, 3] := by
    rw [numbered]
    decide
  have answered : answeredIn sampleKey (run (sampleConfig .plain) sampleBacklog).trace = [0] := by
    decide
  exact ⟨arrived, answered, arrived ▸ answered ▸ balance⟩

end Krafka.Producer
