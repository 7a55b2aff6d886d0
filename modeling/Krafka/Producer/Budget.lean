import Krafka.Producer.HandOff

/-! The memory budget. The permits of the semaphore and the reservations that are alive, in calls,
in the channel and in the engine, are always the capacity together. -/

namespace Krafka.Producer

namespace Sends

variable (s : Sends)

def bytesOf (tags : List Nat) : Nat :=
  (tags.filterMap fun tag => s.handed[tag]?.map (·.2.bytes)).sum

/-- The reservations that are alive: held by a call, by a waiter in the channel or by a waiter in
the engine. -/
def reserved : Nat :=
  (s.calls.map SendStage.bytes).sum + ((s.handed.drop s.engine.arrivals).map (·.2.bytes)).sum +
    s.bytesOf s.engine.held

variable {s}

theorem bytesOf_eq (tags : List Nat) :
    s.bytesOf tags = ((tags.filterMap (s.handed[·]?)).map (·.2.bytes)).sum := by
  rw [bytesOf, List.map_filterMap]

theorem bytesOf_append (tags more : List Nat) :
    s.bytesOf (tags ++ more) = s.bytesOf tags + s.bytesOf more := by
  rw [bytesOf, List.filterMap_append, List.sum_append]
  rfl

variable {config : EngineConfig}

theorem reserved_add_answered (linked : s.Linked config) :
    s.reserved + s.bytesOf (answeredTags s.engine.trace) =
      (s.calls.map SendStage.bytes).sum + (s.handed.map (·.2.bytes)).sum := by
  have whole := (linked.handed_perm.map (·.2.bytes)).sum_nat
  simp only [List.map_append, List.sum_append] at whole
  rw [reserved, bytesOf_eq, bytesOf_eq]
  omega

theorem answered_lt (linked : s.Linked config) :
    ∀ tag ∈ answeredTags s.engine.trace, tag < s.handed.length := by
  intro tag answered
  obtain ⟨inputs, reached⟩ := linked.engine
  have known := (reached ▸ tags_accounted config inputs).mem_iff.mp (List.mem_append_right _ answered)
  have counted := linked.counted
  have below := List.mem_range.mp known
  omega

def Funded (capacity : Nat) (s : Sends) : Prop :=
  s.free + (s.calls.map SendStage.bytes).sum + (s.handed.map (·.2.bytes)).sum =
    capacity + s.bytesOf (answeredTags s.engine.trace)

variable {capacity : Nat} {unwinds : Bool}

theorem Funded.settle (linked : s.Linked config)
    (funded : s.Funded capacity) {call : Nat} {stage : SendStage} {polled : Polled}
    (there : s.calls[call]? = some stage) (follows : polled.Follows stage call s.free unwinds) :
    (s.settle call polled).Funded capacity := by
  have answered : (s.settle call polled).bytesOf (answeredTags s.engine.trace) =
      s.bytesOf (answeredTags s.engine.trace) := by
    refine congrArg List.sum (List.filterMap_congr fun tag known => ?_)
    have inside := answered_lt linked tag known
    exact congrArg _ (List.getElem?_append_left inside)
  have calls := Lists.sum_map_set SendStage.bytes there polled.stage
  have posted : ((polled.posted.toList.map fun posted => (call, posted.1)).map (·.2.bytes)).sum =
      (polled.posted.map (·.1.bytes)).getD 0 := by
    cases polled.posted <;> rfl
  have memory := follows.memory
  have enough := follows.funded
  have before : s.free + _ + _ = _ := funded
  show s.free - polled.taken + polled.freed + ((s.calls.set call polled.stage).map _).sum +
      ((s.handed ++ polled.posted.toList.map fun posted => (call, posted.1)).map _).sum =
    capacity + _
  rw [List.map_append, List.sum_append, posted]
  rw [Polled.bytes] at memory
  have after : (s.settle call polled).bytesOf (answeredTags (s.settle call polled).engine.trace) =
      s.bytesOf (answeredTags s.engine.trace) := answered
  omega

theorem Funded.advance {input : Input} (sound : (Custody.rest s.engine).Sound)
    (funded : s.Funded capacity) : (s.advance input).Funded capacity := by
  obtain ⟨events, trace⟩ := step_grows sound input
  have answered : (s.advance input).bytesOf (answeredTags (s.advance input).engine.trace) =
      s.bytesOf (answeredTags s.engine.trace) + s.bytesOf (answeredTags events) := by
    rw [show (s.advance input).engine.trace = s.engine.trace ++ events from trace, answeredTags,
      settledIn_append, List.map_append]
    exact bytesOf_append ..
  have freed : (s.advance input).free = s.free + s.bytesOf (answeredTags events) := by
    simp only [Sends.advance, trace, List.drop_left]
    rfl
  have before : s.free + _ + _ = _ := funded
  show (s.advance input).free + _ + _ = capacity + _
  rw [freed, answered]
  have calls : (s.advance input).calls = s.calls := rfl
  have handed : (s.advance input).handed = s.handed := rfl
  rw [calls, handed]
  omega

theorem Funded.move (linked : s.Linked config)
    (funded : s.Funded capacity) {s' : Sends} (move : s.Move unwinds s') : s'.Funded capacity := by
  have sound : (Custody.rest s.engine).Sound := by
    obtain ⟨inputs, reached⟩ := linked.engine
    exact reached ▸ run_sound config inputs
  cases move with
  | idle | post => exact funded
  | call stage fresh =>
    have none : stage.bytes = 0 := by cases stage <;> first | rfl | cases fresh
    show s.free + ((s.calls ++ [stage]).map SendStage.bytes).sum + _ = _
    rw [List.map_append, List.sum_append, List.map_singleton, none]
    exact funded
  | poll answer there =>
    exact funded.settle linked there
      (SendStage.follows_poll (linked.sound _ _ there) s.limits answer)
  | drop panicking there awaits =>
    exact funded.settle linked there
      (SendStage.follows_drop (linked.sound _ _ there) awaits panicking)
  | @receive now command channel =>
    have posted : ({ s with channel } : Sends).Funded capacity := funded
    exact posted.advance sound
  | engine => exact funded.advance sound

theorem run_funded (config : EngineConfig) (bufferMemory : Nat) (inputs : List SendInput) :
    (run config bufferMemory inputs).Funded (effectiveMemoryCapacity bufferMemory) := by
  induction inputs using List.reverseRecOn with
  | nil => rfl
  | append_singleton inputs input ih =>
    rw [run_concat]
    exact ih.move (run_linked config bufferMemory inputs) (move_step _ input)

/-! What a record is charged -/

/-- Each record in the channel, and each that came in, has a waiter whose reservation is the
record's estimated size. -/
structure Priced (s : Sends) : Prop where
  channel : (s.channel.filterMap Command.append?).map
      (fun append => append.data.estimatedSize append.topic) =
    (s.handed.drop s.engine.arrivals).map (·.2.bytes)
  received : ∀ key record, .arrived key record ∈ s.engine.trace →
    ∃ entry, s.handed[record.tag]? = some entry ∧ entry.2.bytes = record.estimatedSize key.1

theorem Priced.settle (linked : s.Linked config) (priced : s.Priced)
    {call : Nat} {stage : SendStage} {polled : Polled}
    (follows : polled.Follows stage call s.free unwinds) : (s.settle call polled).Priced where
  channel := by
    have inside : s.engine.arrivals ≤ s.handed.length := by
      rw [linked.counted]
      exact Nat.le_add_right ..
    have before := priced.channel
    have posted : ((polled.posted.toList.map fun posted => Command.append posted.2).filterMap
          Command.append?).map (fun append => append.data.estimatedSize append.topic) =
        (polled.posted.toList.map fun posted => (call, posted.1)).map (·.2.bytes) := by
      cases equal : polled.posted with
      | none => rfl
      | some posted =>
        obtain ⟨parcel, append⟩ := posted
        obtain ⟨bytes, size⟩ := follows.priced parcel append equal
        exact congrArg (fun n => [n]) (bytes.trans size).symm
    simp only [Sends.settle, List.filterMap_append, List.map_append, before, posted,
      List.drop_append_of_le_length inside]
  received key record arrived := by
    obtain ⟨entry, found, bytes⟩ := priced.received key record arrived
    have inside := (List.getElem?_eq_some_iff.mp found).1
    exact ⟨entry, (List.getElem?_append_left inside).trans found, bytes⟩

theorem Priced.advance (priced : s.Priced) {input : Input}
    (arrivals : (s.engine.step input).arrivals = s.engine.arrivals)
    (none : ∀ key record, .arrived key record ∈ (s.engine.step input).trace →
      .arrived key record ∈ s.engine.trace) : (s.advance input).Priced where
  channel := by
    show _ = (s.handed.drop (s.engine.step input).arrivals).map _
    rw [arrivals]
    exact priced.channel
  received key record arrived := priced.received key record (none key record arrived)

theorem Priced.receive {inputs : List Input} (priced : s.Priced)
    (reached : s.engine = Engine.run config inputs) (opened : s.engine.channelClosed = false)
    (now : Instant) {append : Append} {channel : List Command}
    (first : s.channel = .append append :: channel) :
    ({ s with channel }.advance (.command now (.append append))).Priced := by
  have prices := priced.channel
  rw [first] at prices
  obtain ⟨entry, there, price, rest⟩ : ∃ entry, s.handed[s.engine.arrivals]? = some entry ∧
      entry.2.bytes = append.data.estimatedSize append.topic ∧
      (channel.filterMap Command.append?).map
          (fun append => append.data.estimatedSize append.topic) =
        (s.handed.drop (s.engine.arrivals + 1)).map (·.2.bytes) := by
    cases equal : s.handed.drop s.engine.arrivals with
    | nil =>
      rw [equal] at prices
      cases prices
    | cons entry =>
      rw [equal] at prices
      obtain ⟨price, later⟩ := List.cons.inj prices
      refine ⟨entry, ?_, price.symm, ?_⟩
      · rw [← List.head?_drop, equal]
        rfl
      · rw [← List.tail_drop, equal]
        exact later
  have arrivals : (s.engine.step (.command now (.append append))).arrivals =
      s.engine.arrivals + 1 := by
    rw [arrivals_counted, Engine.arrival, opened]
    rfl
  refine ⟨?_, fun key record arrived => ?_⟩
  · show _ = (s.handed.drop (s.engine.step (.command now (.append append))).arrivals).map _
    rw [arrivals]
    exact rest
  · have told : .arrived key record ∈
        ((Engine.run config inputs).step (.command now (.append append))).trace := reached ▸ arrived
    rcases arrived_of_step told with before | ⟨_, other, same, rfl, rfl⟩
    · exact priced.received key record (reached ▸ before)
    · cases same
      exact ⟨entry, reached ▸ there, price⟩

theorem Priced.move (linked : s.Linked config) (priced : s.Priced)
    {s' : Sends} (move : s.Move unwinds s') : s'.Priced := by
  obtain ⟨inputs, reached⟩ := linked.engine
  have quiet {input : Input} (other : ∀ now append, input ≠ .command now (.append append)) :
      ∀ key record, .arrived key record ∈ (s.engine.step input).trace →
        .arrived key record ∈ s.engine.trace := by
    intro key record arrived
    rw [reached] at arrived ⊢
    refine (arrived_of_step arrived).resolve_right ?_
    rintro ⟨now, append, same, -⟩
    exact other now append same
  cases move with
  | idle => exact priced
  | call => exact ⟨priced.channel, priced.received⟩
  | poll answer there =>
    exact priced.settle linked (SendStage.follows_poll (linked.sound _ _ there) s.limits answer)
  | drop panicking there awaits =>
    exact priced.settle linked (SendStage.follows_drop (linked.sound _ _ there) awaits panicking)
  | post command opened other =>
    refine ⟨?_, priced.received⟩
    have none : Command.append? command = none := by cases command <;> first | rfl | cases other
    rw [List.filterMap_append, List.filterMap_cons, none, List.filterMap_nil, List.append_nil]
    exact priced.channel
  | @receive now command channel first =>
    have opened : s.engine.channelClosed = false := linked.opened_of_channel first
    cases command with
    | append => exact priced.receive reached opened now first
    | _ =>
      have rest : ({ s with channel } : Sends).Priced := by
        refine ⟨?_, priced.received⟩
        have prices := priced.channel
        rw [first] at prices
        exact prices
      refine rest.advance ?_ (quiet nofun)
      rw [arrivals_counted]
      rfl
  | engine input own =>
    exact priced.advance (arrivals_of_own own) (quiet fun now append => own now _)

theorem run_priced (config : EngineConfig) (bufferMemory : Nat) (inputs : List SendInput) :
    (run config bufferMemory inputs).Priced := by
  induction inputs using List.reverseRecOn with
  | nil => exact ⟨rfl, fun _ _ arrived => nomatch arrived⟩
  | append_singleton inputs input ih =>
    rw [run_concat]
    exact ih.move (run_linked config bufferMemory inputs) (move_step _ input)

/-- The free permits and the live reservations are the capacity; a record that is in the channel
or came in was handed over with a reservation of its estimated size, which is alive until its
waiter is answered; so what is charged never exceeds `buffer_memory`. -/
theorem memory_is_conserved (config : EngineConfig) (bufferMemory : Nat) (inputs : List SendInput) :
    (run config bufferMemory inputs).free + (run config bufferMemory inputs).reserved =
        effectiveMemoryCapacity bufferMemory ∧
      (run config bufferMemory inputs).Priced ∧
      ((run config bufferMemory inputs).engine.held ++
        answeredTags (run config bufferMemory inputs).engine.trace).Perm
        (List.range (run config bufferMemory inputs).engine.arrivals) ∧
      (run config bufferMemory inputs).reserved ≤ bufferMemory := by
  have linked := run_linked config bufferMemory inputs
  have funded : _ + _ + _ = _ := run_funded config bufferMemory inputs
  have alive := reserved_add_answered linked
  obtain ⟨engineInputs, reached⟩ := linked.engine
  have conserved : (run config bufferMemory inputs).free +
      (run config bufferMemory inputs).reserved = effectiveMemoryCapacity bufferMemory := by omega
  have clamped : effectiveMemoryCapacity bufferMemory ≤ bufferMemory := Nat.min_le_left ..
  refine ⟨conserved, run_priced config bufferMemory inputs, ?_, by omega⟩
  rw [reached]
  exact tags_accounted config engineInputs

end Sends

end Krafka.Producer
