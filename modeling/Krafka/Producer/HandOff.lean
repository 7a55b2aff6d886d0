import Krafka.Library.Lists
import Krafka.Producer.SendPath

/-! What one step of a call does with the record's context and with the memory it has reserved,
and what the engine has of the records that were sent to it. -/

namespace Krafka.Producer

open List Function Engine SendObligation

/-! ## Waiters over all partitions -/

def Engine.held (s : Engine) : List Nat :=
  s.partitions.entries.flatMap fun entry => entry.2.batches.flatMap Batch.held

variable {key : PartitionKey}

theorem mem_arrivedIn {tag : Nat} {history : List Event} :
    tag ∈ arrivedIn key history ↔ (key, tag) ∈ receivedIn history := by
  rw [← count_pos_iff, ← count_pos_iff, count_receivedIn]

theorem run_numbered (config : EngineConfig) (inputs : List Input) :
    (receivedIn (run config inputs).trace).map (·.2) = List.range (run config inputs).arrivals :=
  run_ledger Ledger.Numbered (fun _ _ effect => effect.numbered) rfl (along_any _ inputs)

section Tags

variable {config : EngineConfig} {inputs : List Input} {key : PartitionKey} {tag : Nat}

theorem count_arrivedIn (config : EngineConfig) (inputs : List Input) (key : PartitionKey)
    (tag : Nat) : (arrivedIn key (run config inputs).trace).count tag =
      (answeredIn key (run config inputs).trace).count tag +
        (((run config inputs).queue key).batches.flatMap Batch.held).count tag :=
  (run_owes config inputs).balance key tag

theorem arrivedIn_key {other : PartitionKey} (here : tag ∈ arrivedIn key (run config inputs).trace)
    (there : tag ∈ arrivedIn other (run config inputs).trace) : other = key := by
  have numbered := run_numbered config inputs
  have distinct := numbered ▸ nodup_range
  have same := inj_on_of_nodup_map distinct (mem_arrivedIn.mp there) (mem_arrivedIn.mp here) rfl
  exact congrArg Prod.fst same

theorem elsewhere {other : PartitionKey} (here : tag ∈ arrivedIn key (run config inputs).trace)
    (apart : other ≠ key) : (answeredIn other (run config inputs).trace).count tag = 0 ∧
      (((run config inputs).queue other).batches.flatMap Batch.held).count tag = 0 := by
  have balance := count_arrivedIn config inputs other tag
  have absent : (arrivedIn other (run config inputs).trace).count tag = 0 :=
    count_eq_zero.mpr fun there => apart (arrivedIn_key here there)
  omega

theorem count_answer (here : tag ∈ arrivedIn key (run config inputs).trace) :
    (answeredTags (run config inputs).trace).count tag =
      (answeredIn key (run config inputs).trace).count tag := by
  rw [← count_settledIn, answeredTags, List.count, countP_map]
  refine countP_congr fun entry member => ?_
  have only (same : entry.2 = tag) : entry.1 = key := by
    by_contra apart
    have absent := (elsewhere here apart).1
    rw [← count_settledIn, ← same] at absent
    exact count_eq_zero.mp absent member
  simp only [Function.comp_apply, beq_iff_eq]
  exact ⟨fun same => Prod.ext (only same) same, congrArg Prod.snd⟩

theorem count_held (here : tag ∈ arrivedIn key (run config inputs).trace) :
    (run config inputs).held.count tag =
      (((run config inputs).queue key).batches.flatMap Batch.held).count tag := by
  have total : (run config inputs).held.count tag = (run config inputs).partitions.total
      fun _ queue => (queue.batches.flatMap Batch.held).count tag := by
    rw [Engine.held, count_flatMap]
    rfl
  rw [total, AList.total_eq_weight key]
  · rw [AList.weight, Engine.queue]
    cases (run config inputs).partitions.lookup key <;> rfl
  · intro other queue found apart
    have present : (run config inputs).queue other = queue := by rw [Engine.queue, found]; rfl
    exact present ▸ (elsewhere here apart).2

theorem arrived_of_held (held : tag ∈ (run config inputs).held) :
    ∃ key, tag ∈ arrivedIn key (run config inputs).trace := by
  obtain ⟨⟨key, queue⟩, member, waits⟩ := mem_flatMap.mp held
  have present : (run config inputs).queue key = queue := by
    have found : (run config inputs).partitions.lookup key = some queue :=
      mem_dlookup (run config inputs).partitions.nodupKeys member
    rw [Engine.queue, found]
    rfl
  have counted := count_arrivedIn config inputs key tag
  rw [present] at counted
  have positive : 0 < (queue.batches.flatMap Batch.held).count tag := count_pos_iff.mpr waits
  exact ⟨key, count_pos_iff.mp (by omega)⟩

theorem arrived_of_answer (answered : tag ∈ answeredTags (run config inputs).trace) :
    ∃ key, tag ∈ arrivedIn key (run config inputs).trace := by
  obtain ⟨⟨key, other⟩, member, same⟩ := mem_map.mp answered
  have positive := count_pos_iff.mpr member
  rw [count_settledIn, show other = tag from same] at positive
  have counted := count_arrivedIn config inputs key tag
  exact ⟨key, count_pos_iff.mp (by omega)⟩

theorem tags_accounted (config : EngineConfig) (inputs : List Input) :
    ((run config inputs).held ++ answeredTags (run config inputs).trace).Perm
      (List.range (run config inputs).arrivals) := by
  have numbered := run_numbered config inputs
  refine perm_iff_count.mpr fun tag => ?_
  rw [count_append]
  by_cases known : tag ∈ List.range (run config inputs).arrivals
  · obtain ⟨⟨key, tag⟩, entry, rfl⟩ := mem_map.mp (numbered ▸ known)
    have here := mem_arrivedIn.mpr entry
    have once : (arrivedIn key (run config inputs).trace).count tag = 1 :=
      count_eq_one_of_mem (((run_owes config inputs).sorted key).imp Nat.ne_of_lt) here
    have balance := count_arrivedIn config inputs key tag
    rw [count_held here, count_answer here, count_eq_one_of_mem nodup_range known]
    omega
  · have stranger : ¬ ∃ key, tag ∈ arrivedIn key (run config inputs).trace := by
      rintro ⟨key, here⟩
      exact known (numbered ▸ mem_map_of_mem (mem_arrivedIn.mp here))
    rw [count_eq_zero.mpr known, count_eq_zero.mpr (stranger ∘ arrived_of_held),
      count_eq_zero.mpr (stranger ∘ arrived_of_answer)]

end Tags

theorem step_grows {s : Engine} (sound : (Custody.rest s).Sound) (input : Input) :
    ∃ events, (s.step input).trace = s.trace ++ events := by
  have grown := invariant_of_step (p := {})
    (fun c => c.Sound ∧ ∃ events, c.engine.trace = s.trace ++ events)
    (fun c c' move ⟨sound, events, trace⟩ => ?_) (allows_any s input)
    ⟨sound, [], (append_nil _).symm⟩
  · exact grown.2
  · obtain ⟨more, later⟩ := (move.effect sound).grows
    refine ⟨move.sound sound, events ++ more, ?_⟩
    rw [← append_assoc, ← trace]
    exact later

theorem arrived_of_step {config : EngineConfig} {inputs : List Input} {input : Input}
    {record : RecordData} (arrived : .arrived key record ∈ ((run config inputs).step input).trace) :
    .arrived key record ∈ (run config inputs).trace ∨
      ∃ now append, input = .command now (.append append) ∧ key = append.key ∧
        record = { append.data with tag := (run config inputs).arrivals } := by
  have listed := mem_filter.mpr ⟨arrived, (rfl : Event.isIntake (.arrived key record))⟩
  rw [intake_step (run_sound config inputs), mem_append] at listed
  refine listed.imp mem_of_mem_filter fun new => ?_
  obtain ⟨⟨arrival, tag⟩, taken, told⟩ := mem_flatMap.mp new
  obtain ⟨now, rfl, opened⟩ := of_mem_takes (fst_mem_of_mem_zipIdx taken)
  simp only [takes, opened, Bool.false_eq_true, if_false, zipIdx_singleton,
    mem_singleton, Prod.mk.injEq] at taken
  refine ⟨now, arrival.append, rfl, ?_⟩
  rcases mem_cons.mp told with same | appended
  · cases same
    exact ⟨rfl, taken.2 ▸ rfl⟩
  · split at appended <;> simp at appended

/-! ## One step of a call -/

abbrev contextOf (call : Nat) : RecordContext := { filledBy := some call }

namespace SendStage

def contexts : SendStage → List RecordContext
  | .route send _ | .register send _ | .memory send _ | .reserved send _ _ =>
    send.obligation.context.toList
  | .hand send waiter _ => send.obligation.context.toList ++ [waiter.context]
  | .rejected send _ rejection => send.obligation.context.toList ++ [rejection.context]
  | _ => []

def bytes : SendStage → Nat
  | .reserved _ _ bytes => bytes
  | .hand _ waiter _ => waiter.bytes
  | _ => 0

def fresh : SendStage → Bool
  | .check _ | .reinit _ | .refuse _ _ | .enqueue _ _ => true
  | _ => false

end SendStage

def Append.Priced (append : Append) : Prop :=
  append.size = append.data.estimatedSize append.topic

structure Send.Open (send : Send) (call : Nat) : Prop where
  context : send.obligation.context = some (contextOf call)
  priced : send.size = (send.record.data 0).estimatedSize send.obligation.topic

def SendStage.Sound (call : Nat) : SendStage → Prop
  | .route send _ | .register send _ => send.Open call
  -- the size was checked
  | .memory send _ => send.Open call ∧ send.size ≤ semaphoreLimit
  | .reserved send _ bytes => send.Open call ∧ bytes = send.size
  | .hand send waiter append =>
    send.obligation.context = none ∧ waiter.context = contextOf call ∧
      waiter.bytes = append.size ∧ append.Priced
  | .rejected send _ rejection =>
    send.obligation.context = none ∧ rejection.context = contextOf call
  | _ => True

def Fate.context : Fate → RecordContext
  | .acknowledged ack => ack.context
  | .abandoned context => context

def Fate.isReport : Fate → Bool
  | .acknowledged _ => true
  | .abandoned _ => false

namespace Polled

variable (polled : Polled)

def contexts : List RecordContext :=
  polled.stage.contexts ++ polled.told.map Fate.context ++
    polled.posted.toList.map (·.1.context)

def bytes : Nat := polled.stage.bytes + (polled.posted.map (·.1.bytes)).getD 0

structure Good (call held free : Nat) (opened : Bool := false) : Prop where
  opened : polled.opened = opened
  sound : polled.stage.Sound call
  begun : polled.stage.fresh = false
  contexts : polled.contexts = [contextOf call]
  memory : held + polled.taken = polled.bytes + polled.freed
  funded : polled.taken ≤ free
  reported : ∀ fate ∈ polled.told, fate.isReport = true
  priced : ∀ parcel append, polled.posted = some (parcel, append) →
    parcel.bytes = append.size ∧ append.Priced

structure Follows (stage : SendStage) (call free : Nat) (unwinds : Bool := false) : Prop where
  sound : polled.stage.Sound call
  contexts : polled.contexts =
    stage.contexts ++ if polled.opened then [contextOf call] else []
  memory : stage.bytes + polled.taken = polled.bytes + polled.freed
  funded : polled.taken ≤ free
  reported : unwinds = false → ∀ fate ∈ polled.told, fate.isReport = true
  priced : ∀ parcel append, polled.posted = some (parcel, append) →
    parcel.bytes = append.size ∧ append.Priced
  begins : polled.opened → stage.fresh = true
  begun : polled.stage.fresh → stage.fresh ∧ polled.opened = false
  ended : stage.finished → polled.stage = stage ∧ polled.posted = none

end Polled

variable {obligation : SendObligation} {call : Nat}

theorem SendObligation.context_fail
    (context : obligation.context = some (contextOf call)) (partition : Int)
    (headers : List (String × Option Bytes)) (error : KrafkaError) :
    (obligation.fail partition headers error).map Fate.context = [contextOf call] := by
  rw [fail, context]
  rfl

theorem SendObligation.reported_fail {partition : Int}
    {headers : List (String × Option Bytes)} {error : KrafkaError} :
    ∀ fate ∈ obligation.fail partition headers error, fate.isReport := by
  intro fate told
  obtain ⟨context, -, rfl⟩ := Option.map_eq_some_iff.mp (Option.mem_toList.mp told)
  rfl

theorem good_of_stage {stage : SendStage} {held free taken freed : Nat} {opened : Bool}
    (sound : stage.Sound call) (begun : stage.fresh = false)
    (contexts : stage.contexts = [contextOf call])
    (memory : held + taken = stage.bytes + freed := by rfl)
    (funded : taken ≤ free := by exact Nat.zero_le _) :
    ({ stage, taken, freed, opened } : Polled).Good call held free opened where
  opened := rfl
  sound := sound
  begun := begun
  contexts := by simpa [Polled.contexts] using contexts
  memory := memory
  funded := funded
  reported _ told := nomatch told
  priced _ _ posted := nomatch posted

namespace Send.Open

variable {send : Send} {call free : Nat} {partition : Int}

theorem resume (opened : send.Open call) : send.resume.Open call := ⟨opened.context, opened.priced⟩

theorem holds (opened : send.Open call) : send.obligation.context.toList = [contextOf call] := by
  rw [opened.context, Option.toList_some]

theorem suspend (opened : send.Open call) : send.suspend.Open call := ⟨opened.context, opened.priced⟩

theorem fail (opened : send.Open call) (error : KrafkaError) :
    (send.fail partition error).Good call 0 free where
  opened := rfl
  sound := trivial
  begun := rfl
  contexts := by
    simp only [Polled.contexts, Send.fail, SendStage.contexts,
      context_fail opened.context]
    rfl
  memory := rfl
  funded := Nat.zero_le _
  reported := reported_fail
  priced _ _ posted := nomatch posted

theorem rejectReserved (opened : send.Open call) (bytes : Nat) (error : KrafkaError) :
    { send.reject partition error with freed := bytes }.Good call bytes free := by
  refine good_of_stage ⟨rfl, ?_⟩ rfl ?_ (Nat.zero_add _).symm
  · simp only [opened.context, Option.getD_some]
  · simp [Send.reject, SendStage.contexts, takeContext, opened.context]

theorem reject (opened : send.Open call) (error : KrafkaError) :
    (send.reject partition error).Good call 0 free := opened.rejectReserved 0 error

theorem checked {size capacity maximum : Nat}
    (passed : checkRecordAdmission size capacity maximum = .ok ()) : size ≤ semaphoreLimit := by
  unfold checkRecordAdmission at passed
  split_ifs at passed with large
  exact Nat.le_of_not_lt large

theorem accumulate (opened : send.Open call) (limits : Limits) :
    (send.accumulate limits partition).Good call 0 free := by
  unfold Send.accumulate
  split
  · exact opened.reject _
  · split
    · exact opened.reject _
    · next passed => exact good_of_stage ⟨opened.suspend, checked passed⟩ rfl opened.holds

theorem permits_eq (small : send.size ≤ semaphoreLimit) : send.permits = send.size := by
  have bound : semaphoreLimit < 2 ^ 32 := by decide
  exact if_pos (by omega)

theorem reserve (opened : send.Open call) (small : send.size ≤ semaphoreLimit) (limits : Limits)
    (outcome : MemoryOutcome) : (send.reserve limits partition outcome).Good call 0 limits.free := by
  cases outcome with
  | granted =>
    unfold Send.reserve
    dsimp only
    split_ifs with enough
    · refine good_of_stage ⟨opened.resume, rfl⟩ rfl opened.holds ?_ enough
      simp [SendStage.bytes, permits_eq small]
    · exact good_of_stage ⟨opened, small⟩ rfl opened.holds
  | closed | elapsed => exact opened.resume.reject _

theorem proceed (opened : send.Open call) {bytes : Nat} (whole : bytes = send.size)
    (generation : Result Nat) (ticket : Result Unit) (now : Int) :
    (send.proceed partition bytes generation ticket now).Good call bytes free := by
  unfold Send.proceed
  split
  · exact opened.rejectReserved bytes _
  · split
    · exact opened.rejectReserved bytes _
    · refine good_of_stage ⟨rfl, ?_, whole, opened.priced⟩ rfl ?_
      · simp only [opened.context, Option.getD_some]
      · simp [SendStage.contexts, opened.context]

end Send.Open

theorem good_of_told {free : Nat} {told : List Fate} {result : Result Int}
    {opened : Bool} (spent : told.map Fate.context = [contextOf call])
    (reported : ∀ fate ∈ told, fate.isReport) :
    ({ stage := .returned result, told, opened } : Polled).Good call 0 free opened where
  opened := rfl
  sound := trivial
  begun := rfl
  contexts := by simpa [Polled.contexts, SendStage.contexts] using spent
  memory := rfl
  funded := Nat.zero_le _
  reported := reported
  priced _ _ posted := nomatch posted

section Opening

variable {call free : Nat} {record : ProducerRecord} {panicked : Option Nat}

theorem context_onSend {obligation : SendObligation}
    (opened : onSend call record panicked = .ok obligation) :
    obligation.context = some (contextOf call) ∧ obligation.topic = record.topic := by
  cases panicked with
  | none =>
    cases opened
    exact ⟨rfl, rfl⟩
  | some => cases opened

theorem told_onSend {error : KrafkaError} {told : List Fate}
    (failed : onSend call record panicked = .error (error, told)) :
    told.map Fate.context = [contextOf call] ∧ ∀ fate ∈ told, fate.isReport := by
  cases panicked with
  | none => cases failed
  | some =>
    cases failed
    exact ⟨rfl, reported_fail⟩

theorem refuseSend_good (error : KrafkaError) :
    (refuseSend call record panicked error).Good call 0 free true := by
  unfold refuseSend
  split
  · next obligation opened =>
    exact good_of_told (context_fail (context_onSend opened).1 ..)
      reported_fail
  · next failed => exact good_of_told (told_onSend failed).1 (told_onSend failed).2

theorem enqueueRecord_good (txn : Bool) :
    (enqueueRecord call txn record panicked).Good call 0 free true := by
  unfold enqueueRecord
  split
  · next failed => exact good_of_told (told_onSend failed).1 (told_onSend failed).2
  · next obligation opened =>
    obtain ⟨context, topic⟩ := context_onSend opened
    dsimp only
    split
    · exact good_of_told (context_fail context ..)
        reported_fail
    · refine good_of_stage ⟨context, ?_⟩ rfl ?_
      · exact congrArg (fun topic => RecordData.estimatedSize topic _) topic.symm
      · simp [SendStage.contexts, Send.suspend, context]

end Opening

namespace Polled

variable {stage : SendStage} {call free : Nat} {polled : Polled}

theorem Good.follows (good : polled.Good call stage.bytes free)
    (contexts : stage.contexts = [contextOf call]) (going : stage.finished = false) :
    polled.Follows stage call free where
  sound := good.sound
  contexts := by simpa [contexts, good.opened] using good.contexts
  memory := good.memory
  funded := good.funded
  reported _ := good.reported
  priced := good.priced
  begins opened := nomatch good.opened.symm.trans opened
  begun fresh := nomatch good.begun.symm.trans fresh
  ended finished := nomatch going.symm.trans finished

theorem Good.opens (good : polled.Good call 0 free true) (fresh : stage.fresh) :
    polled.Follows stage call free where
  sound := good.sound
  contexts := by
    have none : stage.contexts = [] := by cases stage <;> first | rfl | cases fresh
    simpa [none, good.opened] using good.contexts
  memory := by
    have none : stage.bytes = 0 := by cases stage <;> first | rfl | cases fresh
    exact none ▸ good.memory
  funded := good.funded
  reported _ := good.reported
  priced := good.priced
  begins _ := fresh
  begun still := nomatch good.begun.symm.trans still
  ended finished := by cases stage <;> first | cases finished; done | cases fresh

theorem follows_of_same {next : SendStage} (sound : next.Sound call)
    (contexts : next.contexts = stage.contexts) (bytes : next.bytes = stage.bytes)
    (fresh : next.fresh = stage.fresh) (ended : stage.finished → next = stage) :
    ({ stage := next } : Polled).Follows stage call free where
  sound := sound
  contexts := by simp [Polled.contexts, contexts]
  memory := by simp [Polled.bytes, bytes]
  funded := Nat.zero_le _
  reported _ _ told := nomatch told
  priced _ _ posted := nomatch posted
  begins opened := nomatch opened
  begun still := ⟨fresh.symm.trans still, rfl⟩
  ended finished := ⟨ended finished, rfl⟩

end Polled

open Polled in
theorem SendStage.follows_poll {stage : SendStage} (sound : stage.Sound call)
    (limits : Limits) (answer : SendAnswer) :
    (stage.poll limits call answer).Follows stage call limits.free := by
  have stays : ({ stage } : Polled).Follows stage call limits.free :=
    follows_of_same sound rfl rfl rfl fun _ => rfl
  cases stage with
  | check | reinit =>
    cases answer with
    | done result => cases result <;> exact follows_of_same trivial rfl rfl rfl (fun done => Bool.noConfusion done)
    | _ => exact stays
  | refuse record error =>
    cases answer with
    | hook => exact (refuseSend_good error).opens rfl
    | _ => exact stays
  | enqueue txn =>
    cases answer with
    | hook => exact (enqueueRecord_good txn).opens rfl
    | _ => exact stays
  | route send =>
    have opened : send.Open call := sound
    cases answer with
    | partitions =>
      simp only [SendStage.poll]
      split
      · exact (opened.resume.fail _).follows opened.holds rfl
      · next partition _ =>
        have next : (SendStage.register send partition).Sound call := opened
        exact (good_of_stage next rfl opened.holds).follows opened.holds rfl
    | _ => exact stays
  | register send =>
    have opened : send.Open call := sound
    cases answer with
    | done =>
      simp only [SendStage.poll]
      split
      · exact (opened.resume.fail _).follows opened.holds rfl
      · exact (opened.resume.accumulate limits).follows opened.holds rfl
    | _ => exact stays
  | memory send =>
    obtain ⟨opened, small⟩ : send.Open call ∧ send.size ≤ semaphoreLimit := sound
    cases answer with
    | memory outcome =>
      exact (opened.reserve small limits outcome).follows opened.holds rfl
    | _ => exact stays
  | reserved send partition bytes =>
    obtain ⟨opened, whole⟩ : send.Open call ∧ bytes = send.size := sound
    cases answer with
    | admission generation ticket now =>
      exact (opened.proceed whole generation ticket now).follows opened.holds rfl
    | _ => exact stays
  | hand send waiter append =>
    obtain ⟨spent, context, bytes, priced⟩ := sound
    have holds : (SendStage.hand send waiter append).contexts = [contextOf call] := by
      simp [SendStage.contexts, spent, context]
    cases answer with
    | sent accepted =>
      cases accepted with
      | true =>
        refine Good.follows ⟨rfl, trivial, rfl, ?_, ?_, Nat.zero_le _,
          (fun _ told => nomatch told), ?_⟩ holds rfl
        · simp [SendStage.poll, Polled.contexts, SendStage.contexts, context]
        · simp [SendStage.poll, Polled.bytes, SendStage.bytes]
        · rintro _ _ ⟨⟩
          exact ⟨bytes, priced⟩
      | false =>
        refine Good.follows (good_of_stage ⟨spent, context⟩ rfl ?_ (Nat.zero_add _).symm) holds rfl
        simp [SendStage.contexts, spent, context]
    | _ => exact stays
  | rejected send partition rejection =>
    obtain ⟨spent, context⟩ := sound
    have holds : (SendStage.rejected send partition rejection).contexts = [contextOf call] := by
      simp [SendStage.contexts, spent, context]
    cases answer with
    | go =>
      refine (good_of_told ?_ reported_fail).follows holds rfl
      exact context_fail (congrArg some context) ..
    | _ => exact stays
  | returned | dropped => exact stays

theorem SendObligation.context_drop
    (context : obligation.context = some (contextOf call)) (panicking : Bool) :
    (obligation.drop panicking).map Fate.context = [contextOf call] := by
  cases panicking with
  | true =>
    rw [drop, context]
    rfl
  | false => exact context_fail context ..

theorem SendObligation.reported_drop (obligation : SendObligation) {panicking : Bool}
    (calm : panicking = false) : ∀ fate ∈ obligation.drop panicking, fate.isReport := by
  subst calm
  exact reported_fail

theorem SendStage.follows_drop {stage : SendStage} {free : Nat} (sound : stage.Sound call)
    (awaits : stage.awaits) (panicking : Bool) :
    ({ stage := .dropped, told := stage.fates panicking } : Polled).Follows stage call free
      panicking := by
  have leaves (contexts : (stage.fates panicking).map Fate.context = stage.contexts)
      (reported : panicking = false → ∀ fate ∈ stage.fates panicking, fate.isReport)
      (bytes : stage.bytes = 0) (going : stage.finished = false) :
      ({ stage := .dropped, told := stage.fates panicking } : Polled).Follows stage call free
        panicking :=
    { sound := trivial
      contexts := by
        rw [Polled.contexts, contexts]
        exact congrArg (· ++ []) (nil_append _)
      memory := by
        rw [bytes]
        rfl
      funded := Nat.zero_le _
      reported := reported
      priced := fun _ _ posted => nomatch posted
      begins := fun opened => Bool.noConfusion opened
      begun := fun fresh => Bool.noConfusion fresh
      ended := fun finished => nomatch going.symm.trans finished }
  have spends {send : Send} (opened : send.Open call) :
      (send.obligation.drop panicking).map Fate.context = send.obligation.context.toList :=
    (context_drop opened.context panicking).trans opened.holds.symm
  cases stage with
  | check | reinit | enqueue => exact leaves rfl (fun _ _ told => nomatch told) rfl rfl
  | route send | register send =>
    exact leaves (spends sound) (reported_drop send.obligation) rfl rfl
  | memory send =>
    exact leaves (spends sound.1) (reported_drop send.obligation) rfl rfl
  | _ => cases awaits

/-! ## Steps of the whole -/

namespace Sends

inductive Move (s : Sends) (unwinds : Bool) : Sends → Prop
  | idle : Move s unwinds s
  | call (stage : SendStage) (fresh : stage.fresh) (opened : s.engine.channelClosed = false) :
      Move s unwinds { s with calls := s.calls ++ [stage] }
  | poll {call : Nat} {stage : SendStage} (answer : SendAnswer)
      (there : s.calls[call]? = some stage) :
      Move s unwinds (s.settle call (stage.poll s.limits call answer))
  | drop {call : Nat} {stage : SendStage} (panicking : Bool) (there : s.calls[call]? = some stage)
      (awaits : stage.awaits) (said : panicking = unwinds) :
      Move s unwinds (s.settle call { stage := .dropped, told := stage.fates panicking })
  | post (command : Command) (opened : s.engine.channelClosed = false)
      (other : command.isAppend = false) :
      Move s unwinds { s with channel := s.channel ++ [command] }
  | receive (now : Instant) {command : Command} {channel : List Command}
      (first : s.channel = command :: channel) :
      Move s unwinds ({ s with channel }.advance (.command now command))
  | engine (input : Input) (own : ∀ now command, input ≠ .command now command)
      (closes : input = .closed → s.released) : Move s unwinds (s.advance input)

theorem move_step (s : Sends) (input : SendInput) : s.Move input.unwinds (s.step input) := by
  cases input with
  | call txn record =>
    simp only [step]
    split_ifs with closed transactional
    · exact .idle
    · exact .call (.check record) rfl (by simpa using closed)
    · exact .call (.enqueue false record) rfl (by simpa using closed)
  | poll call answer =>
    simp only [step]
    split
    · next stage there => exact .poll answer there
    · exact .idle
  | drop call panicking =>
    simp only [step]
    split
    · next stage there =>
      split_ifs with awaits
      · exact .drop panicking there awaits rfl
      · exact .idle
    · exact .idle
  | post command =>
    simp only [step]
    split_ifs with refused
    · exact .idle
    · obtain ⟨opened, other⟩ := not_or.mp (mt (Bool.or_eq_true ..).mpr refused)
      exact .post command (by simpa using opened) (by simpa using other)
  | receive now =>
    simp only [step]
    split
    · exact .idle
    · next command channel first => exact .receive now first
  | engine input =>
    simp only [step]
    split
    · exact .idle
    · split_ifs with released
      · exact .engine .closed nofun fun _ => released
      · exact .idle
    · next own closed => exact .engine input own fun same => (closed same).elim

theorem run_concat (config : EngineConfig) (bufferMemory : Nat) (inputs : List SendInput)
    (input : SendInput) :
    run config bufferMemory (inputs ++ [input]) = (run config bufferMemory inputs).step input :=
  foldl_concat ..

structure Linked (config : EngineConfig) (s : Sends) : Prop where
  engine : ∃ inputs, s.engine = Engine.run config inputs
  counted : s.handed.length = s.engine.arrivals + s.channel.countP Command.isAppend
  closed : s.engine.channelClosed → s.released = true
  sound : ∀ call (stage : SendStage), s.calls[call]? = some stage → stage.Sound call

section Linked

variable {config : EngineConfig} {s : Sends}

theorem Linked.settle (linked : s.Linked config) {call : Nat} {stage : SendStage} {polled : Polled}
    (there : s.calls[call]? = some stage) {unwinds : Bool}
    (follows : polled.Follows stage call s.free unwinds) :
    (s.settle call polled).Linked config where
  engine := linked.engine
  counted := by
    have before := linked.counted
    cases posted : polled.posted with
    | none => simpa [Sends.settle, posted] using before
    | some =>
      simp only [Sends.settle, posted, Option.toList_some, map_singleton, length_append,
        length_singleton, countP_append]
      simp only [countP_singleton, Command.isAppend, if_true]
      omega
  closed closed := by
    have released := linked.closed closed
    have still : stage.finished := by
      simp only [Sends.released, Bool.and_eq_true, all_eq_true] at released
      exact released.2 stage (mem_of_getElem? there)
    obtain ⟨same, quiet⟩ := follows.ended still
    have calls : s.calls.set call stage = s.calls := by
      obtain ⟨bound, value⟩ := List.getElem?_eq_some_iff.mp there
      rw [← value, set_getElem_self]
    simpa [Sends.released, Sends.settle, same, quiet, calls] using released
  sound other next found := by
    by_cases same : other = call
    · subst same
      have inside := (List.getElem?_eq_some_iff.mp there).1
      have put : (s.calls.set other polled.stage)[other]? = some next := found
      rw [List.getElem?_set_self inside] at put
      exact Option.some.inj put ▸ follows.sound
    · exact linked.sound other next ((List.getElem?_set_ne (Ne.symm same)).symm.trans found)

theorem linked_advance {input : Input} (engine : ∃ inputs, s.engine = Engine.run config inputs)
    (arrives : s.handed.length = (s.engine.step input).arrivals + s.channel.countP Command.isAppend)
    (closes : (s.engine.step input).channelClosed → s.released)
    (sound : ∀ call (stage : SendStage), s.calls[call]? = some stage → stage.Sound call) :
    (s.advance input).Linked config where
  engine := by
    obtain ⟨inputs, reached⟩ := engine
    refine ⟨inputs ++ [input], ?_⟩
    rw [Engine.run_append, ← reached]
    rfl
  counted := arrives
  closed := closes
  sound := sound

theorem arrivals_of_own {input : Input} (own : ∀ now command, input ≠ .command now command) :
    (s.engine.step input).arrivals = s.engine.arrivals := by
  have none : s.engine.arrival input = none := by
    cases input with
    | command now command => exact absurd rfl (own now command)
    | _ => rfl
  rw [arrivals_counted, none]
  rfl

theorem Linked.opened_of_channel (linked : s.Linked config) {command : Command}
    {channel : List Command} (first : s.channel = command :: channel) :
    s.engine.channelClosed = false := by
  by_contra closed
  have released := linked.closed (by simpa using closed)
  simp [Sends.released, first] at released

theorem Linked.move (linked : s.Linked config) {s' : Sends} {unwinds : Bool}
    (move : s.Move unwinds s') : s'.Linked config := by
  cases move with
  | idle => exact linked
  | call stage fresh opened =>
    refine ⟨linked.engine, linked.counted, (fun closed => nomatch opened.symm.trans closed), ?_⟩
    intro call next found
    rw [List.getElem?_append] at found
    split_ifs at found with before
    · exact linked.sound call next found
    · have same := mem_singleton.mp (mem_of_getElem? found)
      rw [same]
      cases stage <;> first | exact trivial | cases fresh
  | poll answer there =>
    exact linked.settle there (SendStage.follows_poll (linked.sound _ _ there) s.limits answer)
  | drop panicking there awaits =>
    exact linked.settle there (SendStage.follows_drop (linked.sound _ _ there) awaits panicking)
  | post command opened other =>
    refine ⟨linked.engine, ?_, (fun closed => nomatch opened.symm.trans closed), linked.sound⟩
    rw [countP_append, countP_singleton, other]
    exact linked.counted
  | @receive now command channel first =>
    have opened := linked.opened_of_channel first
    refine linked_advance linked.engine ?_ (fun closed => ?_) linked.sound
    · have before := linked.counted
      rw [first, countP_cons] at before
      rw [arrivals_counted]
      cases command <;> simpa [Engine.arrival, opened, Command.isAppend, Nat.add_assoc, Nat.add_comm,
        Nat.add_left_comm] using before
    · cases closed_of_step opened closed
  | engine input own closes =>
    refine linked_advance linked.engine ?_ (fun closed => ?_) linked.sound
    · rw [arrivals_of_own own]
      exact linked.counted
    · cases before : s.engine.channelClosed with
      | true => exact linked.closed before
      | false => exact closes (closed_of_step before closed)

theorem run_linked (config : EngineConfig) (bufferMemory : Nat) (inputs : List SendInput) :
    (run config bufferMemory inputs).Linked config := by
  induction inputs using List.reverseRecOn with
  | nil =>
    refine ⟨⟨[], rfl⟩, rfl, fun closed => Bool.noConfusion closed, fun call stage found => ?_⟩
    have none : (run config bufferMemory []).calls[call]? = none := List.getElem?_nil
    cases none.symm.trans found
  | append_singleton inputs input ih =>
    rw [run_concat]
    exact ih.move (move_step _ input)

theorem Linked.handed_perm (linked : s.Linked config) :
    (s.engine.held.filterMap (s.handed[·]?) ++
      (answeredTags s.engine.trace).filterMap (s.handed[·]?) ++
      s.handed.drop s.engine.arrivals).Perm s.handed := by
  obtain ⟨inputs, reached⟩ := linked.engine
  have tags := (reached ▸ tags_accounted config inputs).filterMap (s.handed[·]?)
  rw [Lists.filterMap_getElem?_range, filterMap_append] at tags
  have whole := tags.append_right (s.handed.drop s.engine.arrivals)
  rwa [take_append_drop] at whole

end Linked

end Sends

end Krafka.Producer
