import Krafka.Producer.Records

/-! What a batch remembers of its attempts: once one of them may have reached the log, the
records must not go out under another stamp, and no caller may be told they were never
written. -/

namespace Krafka.Producer

open List Function Engine

variable {p : Policy}

def BatchOutcome.Uncertain : BatchOutcome → Prop
  | .noAnswer _ | .unacknowledged => True
  | .answer code _ _ _ => isDefinitiveNonAppend code = false
  | .notWritten _ | .tooLarge => False

def Doubtful (history : List Event) (key : PartitionKey) (tag : Nat)
    (stamp : Option BatchIdentity) : Prop :=
  ∃ records outcome, .ended key records stamp outcome ∈ history ∧ outcome.Uncertain ∧
    tag ∈ records.map (·.tag)

def Event.lift (key : PartitionKey) (aloft : Option (List RecordData)) :
    Event → Option (List RecordData)
  | .handed _ sent => if sent.key = key then some sent.records else aloft
  | .ended k _ _ _ => if k = key then none else aloft
  | _ => aloft

def aloft (key : PartitionKey) (history : List Event) : Option (List RecordData) :=
  history.foldl (Event.lift key) none

section History

variable {history more : List Event} {key : PartitionKey} {tag : Nat}
  {stamp : Option BatchIdentity}

theorem doubtful_append : Doubtful (history ++ more) key tag stamp ↔
    Doubtful history key tag stamp ∨ Doubtful more key tag stamp := by
  constructor
  · rintro ⟨records, outcome, mem, doubt⟩
    exact (mem_append.mp mem).imp (⟨records, outcome, ·, doubt⟩) (⟨records, outcome, ·, doubt⟩)
  · rintro (⟨records, outcome, mem, doubt⟩ | ⟨records, outcome, mem, doubt⟩)
    · exact ⟨records, outcome, mem_append_left _ mem, doubt⟩
    · exact ⟨records, outcome, mem_append_right _ mem, doubt⟩

theorem not_doubtful (ended : endedIn key more = 0) : ¬Doubtful more key tag stamp := by
  rintro ⟨records, outcome, mem, _⟩
  simpa [Event.ends] using countP_eq_zero.mp ended _ mem

theorem doubtful_before (ended : endedIn key more = 0) :
    Doubtful (history ++ more) key tag stamp → Doubtful history key tag stamp :=
  fun doubt => (doubtful_append.mp doubt).resolve_right (not_doubtful ended)

theorem aloft_append : aloft key (history ++ more) = more.foldl (Event.lift key) (aloft key history) :=
  foldl_append

theorem aloft_ashore (ashore : ∀ event ∈ more, event.Ashore) :
    aloft key (history ++ more) = aloft key history := by
  rw [aloft_append]
  generalize aloft key history = start
  induction more generalizing start with
  | nil => rfl
  | cons event more ih =>
    have same : event.lift key start = start := by
      have := ashore event mem_cons_self
      cases event <;> first | rfl | exact this.elim
    rw [foldl_cons, same]
    exact ih (fun event mem => ashore event (mem_cons_of_mem _ mem)) start

end History

namespace Ledger

variable {l l' : Ledger} {key : PartitionKey}

/-! What order says about tags -/

theorem InOrder.distinct (ordered : l.InOrder) (key : PartitionKey) :
    ((l.recordsOf key).map RecordData.tag).Nodup := by
  rw [ordered.queued]
  exact ((ordered.sorted key).imp Nat.ne_of_lt).sublist (filter_sublist.map _)

variable {batch : Batch} {tag : Nat}

theorem InOrder.apart (ordered : l.InOrder) {back : List Batch}
    (head : l.line key = batch :: back) (mem : tag ∈ batch.tags) : ∀ later ∈ back, tag ∉ later.tags := by
  intro later queued held
  have distinct := ordered.distinct key
  rw [recordsOf, head, flatMap_cons, map_append, nodup_append] at distinct
  refine distinct.2.2 tag mem tag ?_ rfl
  obtain ⟨record, carried, rfl⟩ := mem_map.mp held
  exact mem_map_of_mem (mem_flatMap.mpr ⟨later, queued, carried⟩)

theorem InOrder.standing (ordered : l.InOrder)
    (queued : batch ∈ l.line key) (mem : tag ∈ batch.tags) : tag ∉ l.gone key ∧ tag < l.arrivals := by
  have here := tags_mem_recordsOf queued mem
  rw [ordered.queued] at here
  obtain ⟨record, pending, rfl⟩ := mem_map.mp here
  obtain ⟨appended, stays⟩ := Lists.mem_without.mp pending
  exact ⟨stays, ordered.bounded key record appended⟩

theorem mem_gone_of_doomed (taken : (key, batch) ∈ l.doomed)
    (mem : tag ∈ batch.tags) : tag ∈ l.gone key :=
  mem_append_right _ (mem_flatMap.mpr ⟨(key, batch), taken, by simpa using mem⟩)

end Ledger

/-! What is on the wire -/

structure Ledger.Airborne (l : Ledger) : Prop where
  aloft : ∀ key, aloft key l.trace =
    if l.flight key then (l.line key).head?.map Batch.records else none
  grounded : ∀ key outcome, l.hand = some (key, outcome) → l.flight key = false

namespace Ledger

variable {l l' : Ledger} {events : List Event}

theorem Airborne.ashore (airborne : l.Airborne) (trace : l'.trace = l.trace ++ events)
    (ashore : ∀ event ∈ events, event.Ashore) (flight : l'.flight = l.flight)
    (hand : l'.hand = none) (same : ∀ key, l.flight key →
      (l'.line key).head?.map Batch.records = (l.line key).head?.map Batch.records) :
    l'.Airborne where
  aloft key := by
    rw [trace, aloft_ashore ashore, airborne.aloft, flight]
    split_ifs with flying
    · exact (same key flying).symm
    · rfl
  grounded key outcome held := nomatch hand.symm.trans held

theorem head_update {key : PartitionKey} {new : List Batch} (same : l.flight key →
      new.head?.map Batch.records = (l.line key).head?.map Batch.records) (k : PartitionKey)
    (flying : l.flight k) : (update l.line key new k).head?.map Batch.records =
      (l.line k).head?.map Batch.records := by
  by_cases here : k = key
  · subst here
    rw [update_self, same flying]
  · rw [update_of_ne here]

theorem Airborne.held (airborne : l.Airborne) {key : PartitionKey} {outcome : BatchOutcome}
    {new : List Batch} (held : l.hand = some (key, outcome)) (k : PartitionKey)
    (flying : l.flight k) :
    (update l.line key new k).head?.map Batch.records =
      (l.line k).head?.map Batch.records :=
  head_update (fun up => nomatch (airborne.grounded key outcome held).symm.trans up) k flying

theorem Airborne.handOut (airborne : l.Airborne) {broker : Int} {sent : WireBatch}
    {batch batch' : Batch} {back : List Batch} (records : sent.records = batch.records)
    (line : l'.line = update l.line sent.key (batch' :: back))
    (same : batch'.records = batch.records) (flight : l'.flight = update l.flight sent.key true)
    (hand : l'.hand = none) (ashore : ∀ event ∈ events, event.Ashore)
    (trace : l'.trace = l.trace ++ (events ++ [Event.handed broker sent])) : l'.Airborne where
  aloft key := by
    rw [trace, ← append_assoc, aloft_append, aloft_ashore ashore, flight, line]
    by_cases here : sent.key = key
    · subst here
      simp [Event.lift, records, same]
    · simp [Event.lift, here, Ne.symm here, airborne.aloft]
  grounded key outcome held := nomatch hand.symm.trans held

end Ledger

variable {l l' : Ledger}

theorem Effect.airborne (effect : Effect p l l') (airborne : l.Airborne) : l'.Airborne := by
  have nothing : ∀ event ∈ ([] : List Event), event.Ashore := forall_mem_nil _
  cases effect with
  | silent free events silent =>
    exact airborne.ashore rfl (ashore_silent silent) rfl free fun _ _ => rfl
  | refuse free => exact airborne.ashore rfl (by simp [Event.Ashore]) rfl free fun _ _ => rfl
  | @accept free key record waiter size generation older last record_tag waiter_tag place fresh behind =>
    refine airborne.ashore rfl (by simp [Event.Ashore]) rfl free
      (Ledger.head_update fun flying => ?_)
    obtain ⟨first, rest, rfl⟩ := exists_cons_of_ne_nil (behind flying)
    rcases place with place | ⟨place, _⟩ <;> simp [place]
  | take free key parts order count stays =>
    refine airborne.ashore (append_nil _).symm nothing rfl free
      (Ledger.head_update fun flying => ?_)
    obtain ⟨batch, back, rest, line, rfl⟩ := stays flying
    simp [line]
  | fail free =>
    exact airborne.ashore rfl (forall_mem_cons.mpr ⟨trivial, ashore_answers⟩) rfl free
      fun _ _ => rfl
  | answer free error head =>
    exact airborne.ashore rfl ashore_answers rfl free (Ledger.head_update fun _ => by simp [head])
  | handOut free clear broker sent slot head records =>
    exact airborne.handOut records rfl rfl rfl free nothing rfl
  | @stampOut free clear batch back broker sent stamp slot head records =>
    have ashore : ∀ event ∈ [Event.stamped sent.key stamp batch.records], event.Ashore := by
      simp [Event.Ashore]
    exact airborne.handOut records rfl rfl rfl free ashore rfl
  | @endAttempt free key batch back encoded outcome =>
    refine ⟨fun k => ?_, fun k outcome held => ?_⟩
    · rw [aloft_append]
      by_cases here : key = k
      · subst here
        simp [Event.lift]
      · simp [Event.lift, here, Ne.symm here, airborne.aloft]
    · cases held
      exact update_self ..
  | acknowledge result held =>
    exact airborne.ashore rfl (forall_mem_cons.mpr ⟨trivial, ashore_answers⟩) rfl rfl
      (airborne.held held)
  | condemn held | retry error held =>
    exact airborne.ashore (append_nil _).symm nothing rfl rfl (airborne.held held)
  | restamp held | split held =>
    exact airborne.ashore rfl ashore_of_stamp rfl rfl (airborne.held held)

/-! What is remembered of an attempt in doubt -/

structure Batch.Recalls (bound : Prop) (stamp : Option BatchIdentity) (batch : Batch) : Prop where
  flag : batch.maybeAppended = true
  stamp : bound → stamp.isSome → batch.stamp = stamp

variable {bound : Prop} {batch : Batch}

theorem Batch.Recalls.congr {stamp : Option BatchIdentity} {batch' : Batch}
    (recalls : batch.Recalls bound stamp) (flag : batch'.maybeAppended = batch.maybeAppended)
    (same : batch'.stamp = batch.stamp) : batch'.Recalls bound stamp :=
  ⟨flag.trans recalls.flag, fun h some => same.trans (recalls.stamp h some)⟩

theorem Batch.marked_maybeAppended {outcome : BatchOutcome}
    (doubt : outcome.Uncertain) (unsettled : ¬outcome.Settles) :
    (batch.marked outcome).maybeAppended := by
  cases outcome with
  | noAnswer => rfl
  | answer => simp_all [Batch.marked, BatchOutcome.Uncertain, BatchOutcome.Settles]
  | unacknowledged => exact absurd trivial unsettled
  | notWritten | tooLarge => exact doubt.elim

theorem Batch.Recalls.marked {stamp : Option BatchIdentity}
    (recalls : batch.Recalls bound stamp) (outcome : BatchOutcome) :
    (batch.marked outcome).Recalls bound stamp := by
  refine ⟨?_, fun h some => (Batch.marked_stamp ..).trans (recalls.stamp h some)⟩
  cases outcome <;> simp [Batch.marked, recalls.flag]

namespace Ledger

variable (bound : Prop) (l : Ledger)

def Knows (key : PartitionKey) (batch : Batch) : Prop :=
  ∀ tag ∈ batch.tags, ∀ stamp, Doubtful l.trace key tag stamp → batch.Recalls bound stamp

def Settling (key : PartitionKey) (batch : Batch) : Prop :=
  ∃ outcome back, l.hand = some (key, outcome) ∧ outcome.Settles ∧ l.line key = batch :: back

structure Recalls : Prop where
  line : ∀ key, ∀ batch ∈ l.line key, l.Knows bound key batch ∨ l.Settling key batch
  doomed : ∀ key batch, (key, batch) ∈ l.doomed → l.Knows bound key batch
  past : ∀ key tag stamp, Doubtful l.trace key tag stamp → tag < l.arrivals

variable {bound l} {l' : Ledger} {events : List Event}

variable {key : PartitionKey} {batch : Batch}

theorem Recalls.calm (recalls : l.Recalls bound)
    (calm : ∀ key outcome, l.hand = some (key, outcome) → ¬outcome.Settles)
    (queued : batch ∈ l.line key) : l.Knows bound key batch := by
  rcases recalls.line key batch queued with knows | ⟨outcome, _, held, settles, _⟩
  · exact knows
  · exact absurd settles (calm key outcome held)

theorem Recalls.free (recalls : l.Recalls bound) (free : l.hand = none)
    (queued : batch ∈ l.line key) : l.Knows bound key batch :=
  recalls.calm (fun _ _ held => nomatch free.symm.trans held) queued

theorem Recalls.unsettled (recalls : l.Recalls bound) {outcome : BatchOutcome}
    (held : l.hand = some (key, outcome)) (unsettled : ¬outcome.Settles) {k : PartitionKey}
    (queued : batch ∈ l.line k) : l.Knows bound k batch := by
  refine recalls.calm (fun key' outcome' held' => ?_) queued
  cases held.symm.trans held'
  exact unsettled

theorem Knows.congr {batch' : Batch} (knows : l.Knows bound key batch)
    (tags : batch'.tags ⊆ batch.tags) (flag : batch'.maybeAppended = batch.maybeAppended)
    (stamp : batch'.stamp = batch.stamp) : l.Knows bound key batch' :=
  fun tag mem _ doubt => (knows tag (tags mem) _ doubt).congr flag stamp

theorem Knows.certain {batch' : Batch} (knows : l.Knows bound key batch)
    (certain : batch.maybeAppended = false) (tags : batch'.tags ⊆ batch.tags) :
    l.Knows bound key batch' := by
  intro tag mem stamp doubt
  exact nomatch certain.symm.trans (knows tag (tags mem) stamp doubt).flag

theorem Recalls.next (recalls : l.Recalls bound) (trace : l'.trace = l.trace ++ events)
    (ended : ∀ key, endedIn key events = 0) (arrivals : l.arrivals ≤ l'.arrivals)
    (line : ∀ key, ∀ batch ∈ l'.line key, l.Knows bound key batch)
    (doomed : ∀ key batch, (key, batch) ∈ l'.doomed → l.Knows bound key batch) :
    l'.Recalls bound := by
  have before {key : PartitionKey} {tag : Nat} {stamp : Option BatchIdentity}
      (doubt : Doubtful l'.trace key tag stamp) : Doubtful l.trace key tag stamp :=
    doubtful_before (ended key) (trace ▸ doubt)
  exact ⟨fun key batch mem => .inl fun tag held stamp doubt =>
      line key batch mem tag held stamp (before doubt),
    fun key batch mem tag held stamp doubt => doomed key batch mem tag held stamp (before doubt),
    fun key tag stamp doubt => (recalls.past key tag stamp (before doubt)).trans_le arrivals⟩

theorem Recalls.replace (recalls : l.Recalls bound) {back : List Batch} (front : List Batch)
    (calm : ∀ {k batch}, batch ∈ l.line k → l.Knows bound k batch)
    (head : l.line key = batch :: back) (line : l'.line = update l.line key (front ++ back))
    (trace : l'.trace = l.trace ++ events) (ended : ∀ key, endedIn key events = 0)
    (arrivals : l'.arrivals = l.arrivals)
    (new : ∀ new ∈ front, l.Knows bound key batch → l.Knows bound key new)
    (doomed : ∀ entry ∈ l'.doomed, entry ∈ l.doomed ∨ entry = (key, batch)) : l'.Recalls bound := by
  refine recalls.next trace ended arrivals.ge (fun k found mem => ?_) fun k found mem => ?_
  · rw [line] at mem
    rcases Lists.mem_update mem with ⟨rfl, placed⟩ | ⟨-, mem⟩
    · rcases mem_append.mp placed with mem | mem
      · exact new found mem (calm (by simp [head]))
      · exact calm (by rw [head]; exact mem_cons_of_mem _ mem)
    · exact calm mem
  · rcases doomed _ mem with mem | taken
    · exact recalls.doomed k found mem
    · obtain ⟨rfl, rfl⟩ := Prod.mk.inj taken
      exact calm (by simp [head])

end Ledger

variable {key : PartitionKey}

theorem recalls_endAttempt
    {back : List Batch} (ordered : l.InOrder) (recalls : l.Recalls bound) (free : l.hand = none)
    (encoded : Option Bytes) (outcome : BatchOutcome) (head : l.line key = batch :: back) :
    ({ l with
      line := update l.line key ({ batch with encoded }.marked outcome :: back)
      flight := update l.flight key false
      hand := some (key, outcome)
      trace := l.trace ++ [Event.ended key batch.records batch.stamp outcome] } : Ledger).Recalls
        bound := by
  have queued : batch ∈ l.line key := by simp [head]
  have split {k : PartitionKey} {tag : Nat} {stamp : Option BatchIdentity}
      (doubt : Doubtful (l.trace ++ [Event.ended key batch.records batch.stamp outcome]) k tag
        stamp) :
      Doubtful l.trace k tag stamp ∨
        k = key ∧ stamp = batch.stamp ∧ outcome.Uncertain ∧ tag ∈ batch.tags := by
    refine (doubtful_append.mp doubt).imp_right ?_
    rintro ⟨records, outcome', mem, doubt⟩
    cases mem_singleton.mp mem
    exact ⟨rfl, rfl, doubt⟩
  refine ⟨fun k found mem => ?_, fun k found mem tag held stamp doubt => ?_,
    fun k tag stamp doubt => ?_⟩
  · -- a batch other than the head shares no record with it
    have other (known : l.Knows bound k found) (apart : k = key → ∀ tag ∈ batch.tags, tag ∉ found.tags) :
        ∀ tag ∈ found.tags, ∀ stamp,
          Doubtful (l.trace ++ [Event.ended key batch.records batch.stamp outcome]) k tag stamp →
          found.Recalls bound stamp := by
      intro tag held stamp doubt
      rcases split doubt with older | ⟨rfl, _, _, shared⟩
      · exact known tag held stamp older
      · exact absurd held (apart rfl tag shared)
    rcases Lists.mem_update mem with ⟨rfl, placed⟩ | ⟨here, mem⟩
    · rcases mem_cons.mp placed with rfl | mem
      · by_cases settles : outcome.Settles
        · exact .inr ⟨outcome, back, rfl, settles, update_self ..⟩
        · refine .inl fun tag held stamp doubt => ?_
          rw [Batch.tags, Batch.marked_records] at held
          rcases split doubt with older | ⟨_, rfl, doubt, _⟩
          · have kept : Batch.Recalls bound stamp { batch with encoded } :=
              (recalls.free free queued tag held stamp older).congr rfl rfl
            exact kept.marked outcome
          · exact ⟨Batch.marked_maybeAppended doubt settles, fun _ _ => Batch.marked_stamp ..⟩
      · refine .inl (other (recalls.free free ?_) fun _ tag shared => ordered.apart head shared _ mem)
        rw [head]
        exact mem_cons_of_mem _ mem
    · exact .inl (other (recalls.free free mem) fun same => absurd same here)
  · rcases split doubt with older | ⟨rfl, _, _, shared⟩
    · exact recalls.doomed k found mem tag held stamp older
    · exact absurd (Ledger.mem_gone_of_doomed (l := l) mem held) (ordered.standing queued shared).1
  · rcases split doubt with older | ⟨rfl, _, _, shared⟩
    · exact recalls.past k tag stamp older
    · exact (ordered.standing queued shared).2

theorem Effect.recalls (effect : Effect p l l') (ordered : l.InOrder) (recalls : l.Recalls bound)
    (splits : ∀ s key batch outcome, p.split s key batch outcome → batch.maybeAppended = false)
    (restamps : bound → ∀ s key batch outcome, p.restamp s key batch outcome →
      batch.maybeAppended = false) : l'.Recalls bound := by
  have stay : ∀ key, endedIn key [] = 0 := fun _ => rfl
  have answered {event : Event} {key : PartitionKey} {batch : Batch}
      {result : Nat → RecordData → Result RecordMetadata} (k : PartitionKey)
      (ashore : event.Ashore) : endedIn k (event :: answers key batch result) = 0 :=
    (handedIn_ashore (forall_mem_cons.mpr ⟨ashore, ashore_answers⟩) k).2
  have alike {key : PartitionKey} {batch batch' : Batch} (records : batch'.records = batch.records)
      (flag : batch'.maybeAppended = batch.maybeAppended) (stamp : batch'.stamp = batch.stamp) :
      ∀ new ∈ [batch'], l.Knows bound key batch → l.Knows bound key new := by
    rintro new mem knows
    rw [mem_singleton.mp mem]
    exact knows.congr (by rw [Batch.tags, records]; exact List.Subset.refl _) flag stamp
  cases effect with
  | silent free events silent =>
    exact recalls.next rfl (fun k => (handedIn_ashore (ashore_silent silent) k).2) le_rfl
      (fun _ _ => recalls.free free) recalls.doomed
  | refuse free =>
    exact recalls.next rfl (fun _ => rfl) (Nat.le_succ _) (fun _ _ => recalls.free free)
      recalls.doomed
  | @accept free key record waiter size generation older last record_tag waiter_tag place fresh =>
    refine recalls.next rfl (fun _ => rfl) (Nat.le_succ _) (fun k found mem => ?_) recalls.doomed
    rcases Lists.mem_update mem with ⟨rfl, placed⟩ | ⟨-, mem⟩
    · rw [mem_append, mem_singleton] at placed
      rcases placed with mem | rfl
      · rcases place with place | ⟨place, _⟩
        · exact recalls.free free (by simp [place, mem])
        · exact recalls.free free (place ▸ mem)
      · have older : l.Knows bound k last := by
          rcases place with place | ⟨_, _, _, rfl⟩
          · exact recalls.free free (by simp [place])
          · exact fun tag held => by cases held
        intro tag held stamp doubt
        -- the open batch was never on the wire, and the new record is newer than any doubt
        rw [Batch.tags, show (last.push record size generation waiter).records =
          last.records ++ [record] from rfl, map_append, mem_append] at held
        rcases held with held | held
        · cases fresh.flag.symm.trans (older tag held stamp doubt).flag
        · have new : tag = l.arrivals := (mem_singleton.mp held).trans record_tag
          exact absurd (recalls.past k tag stamp doubt) (by omega)
    · exact recalls.free free mem
  | @take free key kept removed stamps parts order =>
    refine recalls.next (append_nil _).symm stay le_rfl (fun k found mem => ?_)
      fun k found mem => ?_
    · rcases Lists.mem_update mem with ⟨rfl, placed⟩ | ⟨-, mem⟩
      · exact recalls.free free (order.subset placed)
      · exact recalls.free free mem
    · rcases mem_append.mp mem with mem | mem
      · exact recalls.doomed k found mem
      · obtain ⟨_, taken, same⟩ := mem_map.mp mem
        obtain ⟨rfl, rfl⟩ := Prod.mk.inj same
        exact recalls.free free (parts.mem_iff.mpr (mem_append_left _ taken))
  | fail free error first =>
    refine recalls.next rfl (answered · trivial) le_rfl
      (fun _ _ => recalls.free free) fun k found mem => recalls.doomed k found ?_
    rw [first]
    exact mem_cons_of_mem _ mem
  | answer free error head =>
    exact recalls.replace [_] (recalls.free free) head rfl rfl
      (fun k => (handedIn_ashore ashore_answers k).2) rfl (alike rfl rfl rfl) fun _ => .inl
  | handOut free clear broker sent slot head =>
    exact recalls.replace [_] (recalls.free free) head rfl rfl (fun _ => rfl) rfl (alike rfl rfl rfl)
      fun _ => .inl
  | @stampOut free clear batch back broker sent stamp slot head records fresh =>
    refine recalls.replace [_] (recalls.free free) head rfl rfl (fun _ => rfl) rfl ?_ fun _ => .inl
    intro new mem knows tag held older doubt
    obtain rfl := mem_singleton.mp mem
    have recalled := knows tag held older doubt
    refine ⟨recalled.flag, fun h stamped => ?_⟩
    -- a batch bound to a stamp still carries it
    rw [← recalled.stamp h stamped, fresh] at stamped
    cases stamped
  | endAttempt free encoded outcome head =>
    exact recalls_endAttempt ordered recalls free encoded outcome head
  | @acknowledge key batch back outcome stamps result held head =>
    refine recalls.next rfl (answered · trivial) le_rfl (fun k found mem => ?_) recalls.doomed
    rcases Lists.mem_update mem with ⟨rfl, placed⟩ | ⟨here, mem⟩
    · rcases recalls.line k found (by rw [head]; exact mem_cons_of_mem _ placed) with
        knows | ⟨_, _, _, _, first⟩
      · exact knows
      · obtain ⟨rfl, _⟩ := List.cons.inj (head.symm.trans first)
        exact fun tag shared => absurd shared (ordered.apart head shared batch placed)
    · rcases recalls.line k found mem with knows | ⟨_, _, held', _⟩
      · exact knows
      · cases held.symm.trans held'
        exact absurd rfl here
  | condemn held head unsettled =>
    refine recalls.replace [] (recalls.unsettled held unsettled) head rfl (append_nil _).symm stay
      rfl (by simp) fun entry mem => (mem_append.mp mem).imp_right mem_singleton.mp
  | retry error held head unsettled =>
    exact recalls.replace [_] (recalls.unsettled held unsettled) head rfl (append_nil _).symm stay
      rfl (alike rfl rfl rfl) fun _ => .inl
  | restamp held head unsettled allowed =>
    refine recalls.replace [_] (recalls.unsettled held unsettled) head rfl rfl
      (fun k => (handedIn_ashore ashore_of_stamp k).2) rfl ?_ fun _ => .inl
    intro new mem knows tag held older doubt
    obtain rfl := mem_singleton.mp mem
    have recalled := knows tag held older doubt
    obtain ⟨s, allowed⟩ := allowed
    exact ⟨recalled.flag, fun h _ => by cases (restamps h s _ _ _ allowed).symm.trans recalled.flag⟩
  | split held head live halves unsettled allowed =>
    refine recalls.replace [_, _] (recalls.unsettled held unsettled) head rfl rfl
      (fun k => (handedIn_ashore ashore_of_stamp k).2) rfl ?_ fun _ => .inl
    intro new mem knows
    obtain ⟨s, allowed⟩ := allowed
    refine knows.certain (splits s _ _ _ allowed) ?_
    have whole := congrArg (List.map RecordData.tag) (split_records halves)
    rw [map_append] at whole
    rw [Batch.tags, Batch.tags, ← whole]
    rcases mem_pair.mp mem with rfl | rfl
    · exact subset_append_left ..
    · exact subset_append_right ..

/-! Under which stamp records go out -/

/-- A record whose attempt ended in doubt goes out under the stamp of that attempt only. -/
def KeepsStamp (before : List Event) : Event → Prop
  | .handed _ sent => ∀ tag ∈ sent.records.map (·.tag), ∀ stamp,
      Doubtful before sent.key tag (some stamp) → sent.stamp = some stamp
  | _ => True

theorem keepsStamp_of_not_handed {before : List Event} {event : Event}
    {events : List Event} (mem : event ∈ events) (none : ∀ key, handedIn key events = 0) :
    KeepsStamp before event := by
  cases event with
  | handed broker sent =>
    simpa [Event.hands] using countP_eq_zero.mp (none sent.key) _ mem
  | _ => trivial

theorem Effect.hands (effect : Effect p l l') :
    (∃ events, l'.trace = l.trace ++ events ∧ ∀ key, handedIn key events = 0) ∨
    ∃ broker sent batch events, l'.trace = l.trace ++ (events ++ [Event.handed broker sent]) ∧
      (∀ event ∈ events, event.Ashore) ∧ l.hand = none ∧ batch ∈ l.line sent.key ∧
      sent.records = batch.records ∧ (sent.stamp = batch.stamp ∨ batch.stamp = none) := by
  have ashore {events : List Event} (trace : l'.trace = l.trace ++ events)
      (ashore : ∀ event ∈ events, event.Ashore) :
      ∃ events, l'.trace = l.trace ++ events ∧ ∀ key, handedIn key events = 0 :=
    ⟨events, trace, fun key => (handedIn_ashore ashore key).1⟩
  cases effect with
  | silent free events silent => exact .inl (ashore rfl (ashore_silent silent))
  | refuse | accept => exact .inl (ashore rfl (by simp [Event.Ashore]))
  | take | condemn | retry => exact .inl ⟨[], (append_nil _).symm, fun _ => rfl⟩
  | fail | acknowledge =>
    exact .inl (ashore rfl (forall_mem_cons.mpr ⟨trivial, ashore_answers⟩))
  | answer => exact .inl (ashore rfl ashore_answers)
  | @handOut free clear batch back broker sent slot head records stamp =>
    exact .inr ⟨broker, sent, batch, [], rfl, forall_mem_nil _, free, by simp [head], records,
      .inl stamp⟩
  | @stampOut free clear batch back broker sent stamp slot head records fresh =>
    exact .inr ⟨broker, sent, batch, [_], rfl, by simp [Event.Ashore], free, by simp [head], records,
      .inr fresh⟩
  | endAttempt => exact .inl ⟨[_], rfl, fun _ => rfl⟩
  | restamp | split => exact .inl (ashore rfl ashore_of_stamp)

theorem Effect.keepsStamp (effect : Effect p l l') (recalls : l.Recalls True)
    (before : Runs.Throughout KeepsStamp l.trace) : Runs.Throughout KeepsStamp l'.trace := by
  rcases effect.hands with ⟨events, trace, none⟩ |
    ⟨broker, sent, batch, events, trace, ashore, free, queued, records, stamp⟩
  · rw [trace]
    exact Runs.throughout_append.mpr ⟨before, Runs.throughout_of_forall fun event mem _ =>
      keepsStamp_of_not_handed mem none⟩
  · rw [trace, ← append_assoc]
    refine Runs.throughout_concat.mpr ⟨Runs.throughout_append.mpr ⟨before, ?_⟩, ?_⟩
    · exact Runs.throughout_of_forall fun event mem _ =>
        keepsStamp_of_not_handed mem fun key => (handedIn_ashore ashore key).1
    · intro tag mem older doubt
      rw [records] at mem
      have doubt := doubtful_before (handedIn_ashore ashore sent.key).2 doubt
      have recalled := (recalls.free free queued tag mem _ doubt).stamp trivial rfl
      rcases stamp with same | fresh
      · exact same.trans recalled
      · exact nomatch fresh.symm.trans recalled

/-- No batch with an attempt in doubt is split or stamped afresh. -/
def cautious : Policy where
  restamp := fun _ _ batch _ => batch.maybeAppended = false
  split := fun _ _ batch _ => batch.maybeAppended = false

theorem spawn_recalls (bound : Prop) (config : EngineConfig) :
    (Custody.rest (spawn config)).ledger.Recalls bound := by
  refine ⟨fun _ _ => nofun, fun _ _ => nofun, ?_⟩
  rintro key tag stamp ⟨_, _, mem, _⟩
  exact nomatch mem

/-- In a run that splits and restamps no batch with an attempt in doubt, the records of such an
attempt never go out under another stamp. -/
theorem doubtful_records_keep_stamp (config : EngineConfig) (inputs : List Input)
    (allowed : Runs.Along step cautious.Allows (spawn config) inputs) :
    Runs.Throughout KeepsStamp (run config inputs).trace := by
  have kept := run_ledger
    (fun l => l.InOrder ∧ l.Recalls True ∧ Runs.Throughout KeepsStamp l.trace)
    (fun l l' effect ⟨ordered, recalls, before⟩ => ⟨effect.inOrder ordered,
      effect.recalls ordered recalls (fun _ _ _ _ h => h) (fun _ _ _ _ _ h => h),
      effect.keepsStamp recalls before⟩)
    ⟨spawn_inOrder config, spawn_recalls True config, Runs.throughout_nil _⟩ allowed
  exact kept.2.2

theorem doubtful_record_retried : Runs.Throughout KeepsStamp (run (sampleConfig .idempotent)
    [sampleAppend, sampleDrain, sampleDone 0 (.noAnswer (.timeout "produce")), sampleDrain,
      sampleDone 1 (.answer .none 5 (-1) (-1))]).trace := by
  refine doubtful_records_keep_stamp _ _ ⟨trivial, trivial, ?_, trivial, ?_, trivial⟩
  · exact fun _ => ⟨by simp [Policy.AllowsError, cautious], ⟨fun _ => trivial, trivial⟩, trivial⟩
  · exact fun _ => ⟨by simp [Policy.AllowsError, cautious], ⟨trivial, trivial⟩, trivial⟩

def restampAfterDoubt : List Input :=
  [sampleAppend, sampleDrain, sampleDone 0 (.noAnswer (.timeout "produce")), sampleDrain,
    sampleDone 1 (.answer .unknownProducerId (-1) (-1) (-1)), sampleDrain]

theorem doubtful_record_restamped :
    ¬Runs.Throughout KeepsStamp (run (sampleConfig .idempotent) restampAfterDoubt).trace := by
  intro kept
  have last := kept ((run (sampleConfig .idempotent) restampAfterDoubt).trace.take 10)
    (.handed 1 ⟨sampleKey, [{}], some ⟨7, 1, 0, 2⟩, none, 1⟩) [] rfl
  have doubt : Doubtful ((run (sampleConfig .idempotent) restampAfterDoubt).trace.take 10)
      sampleKey 0 (some ⟨7, 0, 0, 1⟩) :=
    ⟨[{}], .noAnswer (.timeout "produce"), mem_of_getElem? (i := 4) rfl, trivial, by decide⟩
  exact absurd (last 0 (by decide) _ doubt) (by decide)

/-! What the callers are told -/

/-- A caller is told that its record was not written only where no attempt of it is on the
wire and none ended in doubt. -/
def Truthful (before : List Event) : Event → Prop
  | .answered key record _ (.error (.deliveryTimeout false _)) =>
    (∀ records, aloft key before = some records → record.tag ∉ records.map (·.tag)) ∧
      ∀ stamp, ¬Doubtful before key record.tag stamp
  | _ => True

section Told

variable {history : List Event} {event : Event}

theorem truthful_answered {key : PartitionKey} {record : RecordData} {waiter : Waiter}
    {result : Result RecordMetadata}
    (told : ∀ message, result = .error (.deliveryTimeout false message) →
      (∀ records, aloft key history = some records → record.tag ∉ records.map (·.tag)) ∧
        ∀ stamp, ¬Doubtful history key record.tag stamp) :
    Truthful history (.answered key record waiter result) := by
  unfold Truthful
  split
  next same =>
    cases same
    exact told _ rfl
  next => trivial

theorem Truthful.after {more : List Event} (ashore : ∀ event ∈ more, event.Ashore)
    (truthful : Truthful history event) : Truthful (history ++ more) event := by
  unfold Truthful at truthful ⊢
  split
  next key record _ _ =>
    rw [aloft_ashore ashore]
    exact ⟨truthful.1, fun stamp doubt =>
      truthful.2 stamp (doubtful_before (handedIn_ashore ashore key).2 doubt)⟩
  next => trivial

theorem throughout_truthful {events : List Event} (before : Runs.Throughout Truthful history)
    (ashore : ∀ event ∈ events, event.Ashore) (truthful : ∀ event ∈ events, Truthful history event) :
    Runs.Throughout Truthful (history ++ events) := by
  refine Runs.throughout_append.mpr ⟨before, ?_⟩
  rintro earlier event later rfl
  exact (truthful event (by simp)).after fun other mem => ashore other (mem_append_left _ mem)

end Told

theorem not_aloft (airborne : l.Airborne) {tag : Nat}
    (absent : ∀ batch ∈ l.line key, tag ∉ batch.tags) (records : List RecordData)
    (up : aloft key l.trace = some records) : tag ∉ records.map (·.tag) := by
  rw [airborne.aloft] at up
  split_ifs at up with flying
  obtain ⟨batch, head, rfl⟩ := Option.map_eq_some_iff.mp up
  exact absent batch (mem_of_mem_head? head)

theorem mem_answers_records
    {result : Nat → RecordData → Result RecordMetadata} {event : Event}
    (told : event ∈ answers key batch result) :
    ∃ record waiter index, event = .answered key record waiter (result index record) ∧
      record ∈ batch.records := by
  obtain ⟨⟨⟨waiter, record⟩, index⟩, mem, rfl⟩ := mem_map.mp told
  exact ⟨record, waiter, index, rfl,
    (of_mem_zip (fst_mem_of_mem_zipIdx mem)).2⟩

/-- Batches are split only where no attempt is in doubt, and no error from outside denies a
write. -/
def splitsCertain : Policy where
  error := fun error => ∀ message, error ≠ .deliveryTimeout false message
  split := fun _ _ batch _ => batch.maybeAppended = false

theorem Effect.truthful (effect : Effect splitsCertain l l')
    (ordered : l.InOrder) (recalls : l.Recalls bound) (airborne : l.Airborne)
    (before : Runs.Throughout Truthful l.trace) : Runs.Throughout Truthful l'.trace := by
  have away {events : List Event} (told : ∀ event ∈ events, ∀ before, Truthful before event) :
      Runs.Throughout Truthful (l.trace ++ events) :=
    Runs.throughout_append.mpr ⟨before, Runs.throughout_of_forall fun event mem _ => told event mem _⟩
  cases effect with
  | silent free events silent =>
    refine away fun event mem _ => ?_
    have := silent event mem
    cases event <;> trivial
  | @refuse free key record =>
    refine throughout_truthful before (by simp [Event.Ashore]) ?_
    refine forall_mem_cons.mpr ⟨trivial, forall_mem_singleton.mpr ?_⟩
    -- the record has just come in
    refine truthful_answered fun _ _ => ⟨not_aloft airborne fun batch queued held => ?_,
      fun stamp doubt => ?_⟩
    · exact absurd (ordered.standing queued held).2 (by omega)
    · exact absurd (recalls.past key _ stamp doubt) (by omega)
  | accept | handOut | stampOut | endAttempt => exact away (by simp [Truthful])
  | take | condemn | retry => exact before
  | @fail free key batch doomed error first honest =>
    have taken : (key, batch) ∈ l.doomed := by simp [first]
    refine throughout_truthful before (forall_mem_cons.mpr ⟨trivial, ashore_answers⟩) ?_
    refine forall_mem_cons.mpr ⟨trivial, fun event mem => ?_⟩
    obtain ⟨record, waiter, index, rfl, held⟩ := mem_answers_records mem
    refine truthful_answered fun message same => ?_
    obtain rfl : error = .deliveryTimeout false message := by simpa using same
    have certain : batch.maybeAppended = false :=
      honest.elim (fun external => absurd rfl (external message)) fun honest => honest message rfl
    have tagged : record.tag ∈ batch.tags := mem_map_of_mem held
    refine ⟨not_aloft airborne fun other queued shared => ?_, fun stamp doubt => ?_⟩
    · exact (ordered.standing queued shared).1 (Ledger.mem_gone_of_doomed taken tagged)
    · cases certain.symm.trans (recalls.doomed key batch taken _ tagged stamp doubt).flag
  | answer free error head flying credible =>
    refine away fun event mem _ => ?_
    obtain ⟨record, waiter, index, rfl, _⟩ := mem_answers_records mem
    refine truthful_answered fun message same => ?_
    obtain rfl : error = .deliveryTimeout false message := by simpa using same
    exact absurd rfl (credible.elim (fun external => external message) fun other => other message)
  | acknowledge =>
    refine away (forall_mem_cons.mpr ⟨fun _ => trivial, fun event mem _ => ?_⟩)
    obtain ⟨record, waiter, index, rfl, _⟩ := mem_answers_records mem
    exact truthful_answered fun _ same => by cases same
  | restamp | split =>
    refine away fun event mem _ => ?_
    obtain ⟨_, _, rfl⟩ := mem_map.mp mem
    trivial

theorem spawn_airborne (config : EngineConfig) : (Custody.rest (spawn config)).ledger.Airborne :=
  ⟨fun _ => rfl, fun _ _ held => nomatch held⟩

/-- In a run that splits no batch with an attempt in doubt, a caller told
`DeliveryTimeout { possibly_written: false }` is told the truth. -/
theorem denied_records_not_written (config : EngineConfig) (inputs : List Input)
    (allowed : Runs.Along step splitsCertain.Allows (spawn config) inputs) :
    Runs.Throughout Truthful (run config inputs).trace := by
  have kept := run_ledger
    (fun l => l.InOrder ∧ l.Recalls False ∧ l.Airborne ∧ Runs.Throughout Truthful l.trace)
    (fun l l' effect ⟨ordered, recalls, airborne, before⟩ => ⟨effect.inOrder ordered,
      effect.recalls ordered recalls (fun _ _ _ _ h => h) (fun h => h.elim),
      effect.airborne airborne, effect.truthful ordered recalls airborne before⟩)
    ⟨spawn_inOrder config, spawn_recalls False config, spawn_airborne config,
      Runs.throughout_nil _⟩ allowed
  exact kept.2.2.2

theorem rejected_record_denied : Runs.Throughout Truthful (run (sampleConfig .idempotent)
    [sampleAppend, sampleDrain, sampleDone 0 (.answer .notLeaderForPartition (-1) (-1) (-1)),
      .expire 100]).trace := by
  refine denied_records_not_written _ _ ⟨trivial, trivial, ?_, trivial, trivial⟩
  exact fun _ => ⟨by simp [Policy.AllowsError, splitsCertain], ⟨fun _ => trivial, trivial⟩, trivial⟩

def splitAfterDoubt : List Input :=
  [sampleAppend, sampleAppend, sampleDrain, sampleDone 0 (.noAnswer (.timeout "produce")),
    sampleDrain, sampleDone 1 .tooLarge, .expire 100]

theorem doubtful_record_denied :
    ¬Runs.Throughout Truthful (run (sampleConfig .idempotent) splitAfterDoubt).trace := by
  intro told
  have denied := told ((run (sampleConfig .idempotent) splitAfterDoubt).trace.take 11)
    (.answered sampleKey {} ⟨0, false⟩
      (.error (deliveryTimeout { created := 0, deadline := 0 } false))) _ rfl
  exact denied.2 (some ⟨7, 0, 0, 1⟩) ⟨_, .noAnswer (.timeout "produce"),
    mem_of_getElem? (i := 6) rfl, trivial, by decide⟩

end Krafka.Producer
