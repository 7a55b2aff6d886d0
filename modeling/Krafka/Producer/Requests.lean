import Krafka.Producer.Frames
import Krafka.Producer.StepMoves

/-! The requests of the engine. Only `drain` starts them, each for one broker and from the
partitions that are ready for it. -/

namespace Krafka.Producer.Engine

variable {s s' : Engine}

theorem requests_of_sent (same : s'.sent = s.sent) : s'.requests = s.requests :=
  congrArg Prod.fst same

theorem started_of_sent (same : s'.sent = s.sent) : s'.started = s.started :=
  congrArg Prod.snd same

theorem sent_append (s : Engine) (now : Instant) (append : Append) :
    (s.append now append).sent = s.sent := by
  unfold Engine.append
  dsimp only
  split <;> rfl

theorem sent_sealActive (s : Engine) : s.sealActive.sent = s.sent :=
  sent_of_books (books_of_frame (frame_sealActive s))

theorem sent_handle (s : Engine) (now : Instant) (command : Command) :
    (s.handle now command).sent = s.sent := by
  cases command with
  | append append => exact sent_append s now append
  | flush => exact sent_sealActive _
  | failUnsent error => exact sent_of_books (books_of_frame (frame_failUnsent s error))
  | setIdentity producerId epoch tv2 =>
    exact sent_of_books (books_setIdentity s producerId epoch tv2)
  | terminate error => exact sent_of_books (books_terminateAll s error)

/-! What a step starts -/

structure Starts (Q : Request → Prop) (s s' : Engine) : Prop where
  counts : s.started ≤ s'.started
  each : ∀ r ∈ s'.requests, r ∈ s.requests ∨ (s.started ≤ r.serial ∧ r.serial < s'.started ∧ Q r)

namespace Starts

variable {Q Q' : Request → Prop} {s s' s'' : Engine}

theorem of_sent (same : s'.sent = s.sent) : Starts Q s s' :=
  ⟨(started_of_sent same).ge, fun _ there => .inl (requests_of_sent same ▸ there)⟩

theorem trans (first : Starts Q s s') (next : Starts Q s' s'') : Starts Q s s'' := by
  refine ⟨first.counts.trans next.counts, fun r there => ?_⟩
  rcases next.each r there with old | ⟨after, before, holds⟩
  · exact (first.each r old).imp_right fun h => ⟨h.1, h.2.1.trans_le next.counts, h.2.2⟩
  · exact .inr ⟨first.counts.trans after, before, holds⟩

end Starts

def readyFor (ready : List (Int × PartitionKey)) (broker : Int) : List PartitionKey :=
  ((ready.filter (·.1 = broker)).map (·.2)).insertionSort fun a b => a.1 < b.1 ∨ a.1 = b.1 ∧ a.2 ≤ b.2

section Drain

variable {identity : Option Identity} {ready : List (Int × PartitionKey)}

theorem taken_fillRequest {broker : Int} {keys : List PartitionKey} {s : Engine}
    {wire : List WireBatch} {size : Nat} :
    ∃ more, (fillRequest identity broker keys s wire size).2 = wire ++ more ∧
      (more.map (·.key)).Sublist keys := by
  fun_induction fillRequest identity broker keys s wire size with
  | case1 => exact ⟨[], (List.append_nil _).symm, .slnil⟩
  | case2 key keys s wire size absent ih
  | case3 key keys s wire size queue present headBytes headAlone full ih
  | case4 key keys s wire size queue present headBytes headAlone room empty ih =>
    obtain ⟨more, taken, order⟩ := ih
    exact ⟨more, taken, order.cons key⟩
  | case5 key keys s wire size queue present headBytes headAlone room batch left head unstamped
      noIdentity ih =>
    subst noIdentity
    obtain ⟨more, taken, order⟩ := ih
    exact ⟨more, taken, order.cons key⟩
  | case6 key keys s wire size queue present headBytes headAlone room batch left head unstamped id hasId out
  | case8 key keys s wire size queue present headBytes headAlone room batch left head stamped out =>
    exact ⟨[out.2], rfl, List.singleton_sublist.mpr List.mem_cons_self⟩
  | case7 key keys s wire size queue present headBytes headAlone room batch left head unstamped id
      hasId out alone ih =>
    subst hasId
    obtain ⟨more, taken, order⟩ := ih
    exact ⟨out.2 :: more, by rw [taken, List.append_assoc]; rfl, order.cons_cons key⟩
  | case9 key keys s wire size queue present headBytes headAlone room batch left head stamped out
      alone ih =>
    obtain ⟨more, taken, order⟩ := ih
    exact ⟨out.2 :: more, by rw [taken, List.append_assoc]; rfl, order.cons_cons key⟩

def FilledFor (identity : Option Identity) (ready : List (Int × PartitionKey))
    (config : EngineConfig) (r : Request) : Prop :=
  ∃ s broker, s.config = config ∧
    r.wire = (fillRequest identity broker (readyFor ready broker) s [] perBatchOverhead).2

theorem starts_drainBroker (s : Engine) (broker : Int) :
    Starts (FilledFor identity ready s.config) s (drainBroker identity ready s broker) ∧
      (drainBroker identity ready s broker).config = s.config := by
  have books := books_of_frame
    (frame_fillRequest s identity broker (readyFor ready broker) [] perBatchOverhead)
  have sent := sent_of_books books
  have config := config_of_books books
  unfold drainBroker
  dsimp only [readyFor] at sent config ⊢
  split_ifs
  · exact ⟨.of_sent sent, config⟩
  · have count := started_of_sent sent
    refine ⟨⟨count.ge.trans (Nat.le_succ _), fun r there => ?_⟩, config⟩
    rcases List.mem_append.mp there with old | new
    · exact .inl (requests_of_sent sent ▸ old)
    · rw [List.mem_singleton.mp new]
      exact .inr ⟨count.ge, Nat.lt_succ_self _, s, broker, rfl, rfl⟩

theorem starts_drainBrokers (brokers : List Int) (s : Engine) :
    Starts (FilledFor identity ready s.config) s (brokers.foldl (drainBroker identity ready) s) := by
  induction brokers generalizing s with
  | nil => exact .of_sent rfl
  | cons broker brokers ih =>
    obtain ⟨first, config⟩ := @starts_drainBroker identity ready s broker
    exact first.trans (config ▸ ih _)

end Drain

theorem starts_drain (s : Engine) (now : Instant) (leader : PartitionKey → Option Int)
    (delay : Nat → Duration) :
    Starts (FilledFor s.applyBump.identity.identity? (s.applyBump.readyKeys now leader) s.config) s
      (s.drain now leader delay) := by
  have books : (s.applyBump.requestRefresh (s.applyBump.leaderless now leader) now delay).books =
      s.books :=
    (books_of_frame (frame_requestRefresh s.applyBump now delay _)).trans (books_applyBump s)
  have filled := @starts_drainBrokers s.applyBump.identity.identity?
    (s.applyBump.readyKeys now leader) (((s.applyBump.readyKeys now leader).map (·.1)).dedup.insertionSort (· ≤ ·))
    (s.applyBump.requestRefresh (s.applyBump.leaderless now leader) now delay)
  rw [config_of_books books] at filled
  exact (Starts.of_sent (sent_of_books books)).trans filled

theorem starts_step {input : Input} (other : ∀ now leader delay, input ≠ .drain now leader delay) :
    Starts (fun _ => False) s (s.step input) := by
  cases input with
  | command now command =>
    simp only [step]
    split_ifs
    · exact .of_sent rfl
    · exact .of_sent (sent_handle s now command)
  | expire now => exact .of_sent (sent_of_books (books_of_frame (frame_expire s now)))
  | drain now leader delay => exact absurd rfl (other now leader delay)
  | complete now delay =>
    simp only [step, finish]
    split
    · exact .of_sent rfl
    · next request found =>
      split_ifs
      · have erased : Starts (fun _ => False) s { s with requests := s.requests.erase request } :=
          ⟨Nat.le_refl _, fun r there => .inl (List.mem_of_mem_erase there)⟩
        exact erased.trans (.of_sent (sent_of_books (books_complete _ now delay _)))
      · exact .of_sent rfl
  | refreshed | reordered => exact .of_sent rfl
  | reinitialised result =>
    simp only [step]
    split_ifs
    · exact .of_sent (sent_of_books (books_reinitialised s result))
    · exact .of_sent rfl
  | closed =>
    simp only [step]
    split_ifs
    · exact .of_sent rfl
    · exact .of_sent (sent_sealActive _)

def Numbered (s : Engine) : Prop := ∀ r ∈ s.requests, r.serial < s.started

theorem Numbered.starts {Q : Request → Prop} (numbered : s.Numbered)
    (starts : Starts Q s s') : s'.Numbered := fun r there =>
  (starts.each r there).elim (fun old => (numbered r old).trans_le starts.counts) fun h => h.2.1

theorem numbered_run (config : EngineConfig) (inputs : List Input) :
    (run config inputs).Numbered := by
  refine List.foldlRecOn inputs step (motive := Numbered) (fun _ none => nomatch none)
    fun s numbered input _ => ?_
  by_cases drains : ∃ now leader delay, input = .drain now leader delay
  · obtain ⟨now, leader, delay, rfl⟩ := drains
    exact numbered.starts (s.starts_drain now leader delay)
  · exact numbered.starts (starts_step fun now leader delay same => drains ⟨now, leader, delay, same⟩)

/-! A request that was refused for its size -/

def refusedResults (sendable : List (PartitionKey × Bytes)) : List BatchResult :=
  sendable.map fun (key, bytes) =>
    { key, encoded := some bytes
      outcome :=
        if sendable.length = 1 then .tooLarge
        else .notWritten (.protocol .malformed
          ("coalesced produce request exceeded max_request_size; resending " ++
            "its batches separately")) }

/-- At a drain, one of the partitions that is ready is the only one ready for its broker. -/
def Lone (keys : List PartitionKey) (s : Engine) : Input → Prop
  | .drain now leader _ => ∀ broker key, (broker, key) ∈ s.applyBump.readyKeys now leader →
      key ∈ keys → ∀ other, (broker, other) ∈ s.applyBump.readyKeys now leader → other = key
  | _ => True

/-- A batch of one of the partitions is the only one of the request. -/
def Single (keys : List PartitionKey) (r : Request) : Prop :=
  ∀ sent ∈ r.wire, sent.key ∈ keys → r.wire = [sent]

theorem single_of_lone {keys : List PartitionKey} {now : Instant}
    {leader : PartitionKey → Option Int} {delay : Nat → Duration}
    (lone : Lone keys s (.drain now leader delay)) {r : Request} {identity : Option Identity}
    {config : EngineConfig}
    (filled : FilledFor identity (s.applyBump.readyKeys now leader) config r) : Single keys r := by
  obtain ⟨s₁, broker, -, wire⟩ := filled
  obtain ⟨more, taken, order⟩ := @taken_fillRequest identity broker
    (readyFor (s.applyBump.readyKeys now leader) broker) s₁ [] perBatchOverhead
  rw [List.nil_append] at taken
  rw [taken] at wire
  intro sent there mem
  rw [wire] at there ⊢
  have listed (key : PartitionKey) (asked : key ∈ more.map (·.key)) :
      (broker, key) ∈ s.applyBump.readyKeys now leader := by
    have asked := order.subset asked
    simpa [readyFor, List.mem_insertionSort] using asked
  have distinct : (more.map (·.key)).Nodup := by
    refine List.Nodup.sublist order ((List.perm_insertionSort _ _).nodup_iff.mpr ?_)
    exact (readyKeys_nodup s.applyBump now leader).sublist (List.filter_sublist.map _)
  have only : ∀ key ∈ more.map (·.key), key = sent.key := fun key asked =>
    lone broker sent.key (listed _ (List.mem_map_of_mem there)) mem key (listed key asked)
  have short : more.length ≤ 1 := by
    rwa [List.eq_replicate_of_mem only, List.nodup_replicate, List.length_map] at distinct
  obtain ⟨other, rfl⟩ := List.length_eq_one_iff.mp
    (Nat.le_antisymm short (List.length_pos_of_mem there))
  rw [List.mem_singleton.mp there]

/-- If, from the refusal of a request on, a partition of its batches that is ready is always the
only one ready for its broker, each of the batches is alone in its later requests. -/
theorem refused_batches_go_alone (config : EngineConfig) (before after : List Input)
    (now : Instant) (delay : Nat → Duration) (serial : Nat) (others : List BatchResult)
    (sendable : List (PartitionKey × Bytes))
    (calm : Runs.Along step (Lone (sendable.map (·.1)))
      (run config (before ++ [.complete now delay serial (others ++ refusedResults sendable)]))
      after) :
    ∀ later ∈ (run config (before ++
        .complete now delay serial (others ++ refusedResults sendable) :: after)).requests,
      (run config before).started ≤ later.serial → Single (sendable.map (·.1)) later := by
  rw [List.append_cons, run_append]
  refine calm.invariant (fun s => ∀ later ∈ s.requests, (run config before).started ≤ later.serial →
    Single (sendable.map (·.1)) later) (fun s input lone held later there recent => ?_) ?_
  · by_cases drains : ∃ now leader delay, input = .drain now leader delay
    · obtain ⟨now, leader, delay, rfl⟩ := drains
      rcases (s.starts_drain now leader delay).each later there with old | ⟨-, -, filled⟩
      · exact held later old recent
      · exact single_of_lone lone filled
    · have starts := starts_step (s := s) fun now leader delay same =>
        drains ⟨now, leader, delay, same⟩
      exact held later ((starts.each later there).resolve_right fun h => h.2.2) recent
  · -- What is under way when the refusal comes was started before.
    intro later there recent
    rw [run_append] at there
    have other (now' : Instant) (leader : PartitionKey → Option Int) (delay' : Nat → Duration) :
        Input.complete now delay serial (others ++ refusedResults sendable) ≠
          .drain now' leader delay' := nofun
    have old := ((starts_step other).each later there).resolve_right fun h => h.2.2
    exact absurd (numbered_run config before later old) (Nat.not_lt.mpr recent)

def sampleCoalesced : List Input := [appendTo 0, appendTo 1, sampleDrain]

def sampleRefused : List (PartitionKey × Bytes) := [(("t", 0), []), (("t", 1), [])]

/-- Once each has a leader of its own, they go out alone. -/
theorem sample_batches_go_alone :
    sampleRefused.length = 2 ∧ ∀ later ∈ (run (sampleConfig .plain) (sampleCoalesced ++
        .complete 0 (fun _ => 0) 0 ([] ++ refusedResults sampleRefused) ::
          [.drain 0 (fun key => some key.2) fun _ => 0])).requests,
      1 ≤ later.serial → Single [("t", 0), ("t", 1)] later := by
  have own : ∀ entry ∈ (run (sampleConfig .plain) (sampleCoalesced ++
      [.complete 0 (fun _ => 0) 0 ([] ++ refusedResults sampleRefused)])).applyBump.readyKeys 0
        (fun key => some key.2), entry.2 = ("t", entry.1) := by
    decide +kernel
  refine ⟨rfl, refused_batches_go_alone (sampleConfig .plain) sampleCoalesced _ 0 (fun _ => 0) 0
    [] sampleRefused ⟨?_, trivial⟩⟩
  exact fun broker key there _ other also => (own _ also).trans (own _ there).symm

/-- With one leader for both, the next drain puts them into one request again. -/
theorem refused_batches_coalesce_again :
    (run (sampleConfig .plain) (sampleCoalesced ++
        [.complete 0 (fun _ => 0) 0 (refusedResults sampleRefused), sampleDrain])).requests.map
      (fun r => (r.serial, r.wire.map fun sent => (sent.key, sent.records.map (·.tag)))) =
        [(1, [(("t", 0), [0]), (("t", 1), [1])])] := by
  decide +kernel

end Krafka.Producer.Engine
