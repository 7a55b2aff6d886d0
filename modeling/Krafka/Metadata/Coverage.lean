import Krafka.Metadata.Writer
import Krafka.Library.Runs

/-! What an answered metadata request can rely on. A request is covered by the batch it was
gathered in, the batch by the request the writer builds from it, and a response only counts for
the view its fetch started from. The invariant follows the batch through the writer's stages. -/

namespace Krafka.Metadata

open Runs

def Covers : (asked wanted : Option (List String)) → Prop
  | none, _ => True
  | some _, none => False
  | some names, some topics => topics ⊆ names

def Served (before : List Event) (id : Nat) : Prop :=
  ∃ wanted fetch asked, Covers asked wanted ∧
    [.registered id wanted, .built fetch asked, .applied fetch].Sublist before

def Valid (before : List Event) (fetch : Nat) : Prop :=
  ∃ earlier later asked, before = earlier ++ .started fetch :: later ∧
    .built fetch asked ∈ later ∧ .reset ∉ later

/-- Requests and fetches are numbered, a request is answered `Ok` only once it is served, and a
response is applied only while its fetch is valid. -/
def Ruled (before : List Event) : Event → Prop
  | .registered id _ => ∀ wanted, .registered id wanted ∉ before
  | .started fetch => .started fetch ∉ before
  | .built fetch _ => .started fetch ∈ before ∧ ∀ asked, .built fetch asked ∉ before
  | .applied fetch => Valid before fetch
  | .answered id (.ok ()) => Served before id
  | _ => True

theorem Served.grow {before : List Event} {id : Nat} (served : Served before id)
    (more : List Event) : Served (before ++ more) id := by
  obtain ⟨wanted, fetch, asked, covers, order⟩ := served
  exact ⟨wanted, fetch, asked, covers, order.trans (List.sublist_append_left _ _)⟩

section Requests

variable {trace more : List Event} {p : PendingFetch} {id : Nat} {wanted : Option (List String)}

def Awaited (trace : List Event) (p : PendingFetch) : Prop :=
  ∀ id ∈ p.waiters, ∃ wanted, .registered id wanted ∈ trace ∧ Covers p.asked wanted

theorem awaited_empty (trace : List Event) : Awaited trace {} := by
  intro id waiting
  cases waiting

theorem Awaited.grow (awaited : Awaited trace p) (more : List Event) :
    Awaited (trace ++ more) p := by
  intro id waiting
  obtain ⟨wanted, known, covers⟩ := awaited id waiting
  exact ⟨wanted, List.mem_append_left _ known, covers⟩

theorem mem_foldl_insert (names : List String) (set : KeySet String) (name : String) :
    name ∈ (names.foldl KeySet.insert set).keys ↔ name ∈ names ∨ name ∈ set.keys := by
  induction names generalizing set with
  | nil => simp
  | cons first names ih =>
    rw [List.foldl_cons, ih, KeySet.mem_insert, List.mem_cons]
    tauto

theorem covers_register (p : PendingFetch) (id : Nat) (wanted : Option (List String)) :
    Covers (p.register id wanted).asked wanted := by
  cases wanted with
  | none => trivial
  | some names =>
    show Covers (if p.full then none else some _) (some names)
    split
    · trivial
    · intro name listed
      exact (mem_foldl_insert names p.topics name).mpr (.inl listed)

theorem Covers.register (covers : Covers p.asked wanted) (id : Nat)
    (topics : Option (List String)) : Covers (p.register id topics).asked wanted := by
  cases topics with
  | none => trivial
  | some names =>
    show Covers (if p.full then none else some _) wanted
    unfold PendingFetch.asked at covers
    split
    · trivial
    · rename_i part
      rw [if_neg part] at covers
      cases wanted with
      | none => exact covers
      | some topics =>
        intro name listed
        exact (mem_foldl_insert names p.topics name).mpr (.inr (covers listed))

theorem Awaited.register (awaited : Awaited trace p) (id : Nat) (topics : Option (List String)) :
    Awaited (trace ++ [.registered id topics]) (p.register id topics) := by
  intro other waiting
  have waiters : (p.register id topics).waiters = p.waiters ++ [id] := by cases topics <;> rfl
  rw [waiters, List.mem_append, List.mem_singleton] at waiting
  rcases waiting with old | rfl
  · obtain ⟨wanted, known, covers⟩ := awaited other old
    exact ⟨wanted, List.mem_append_left _ known, covers.register id topics⟩
  · exact ⟨topics, by simp, covers_register p other topics⟩

end Requests

def Begun (trace : List Event) (current fetch resetEpoch : Nat) : Prop :=
  resetEpoch ≤ current ∧ ∃ earlier later, trace = earlier ++ .started fetch :: later ∧
    (resetEpoch = current → .reset ∉ later)

variable {trace : List Event} {current : Nat}

theorem Begun.mem {fetch resetEpoch : Nat}
    (begun : Begun trace current fetch resetEpoch) : .started fetch ∈ trace := by
  obtain ⟨-, earlier, later, rfl, -⟩ := begun
  simp

def Quiet (current next : Nat) (more : List Event) : Prop :=
  (next = current ∧ .reset ∉ more) ∨ current < next

variable {more : List Event}

theorem Begun.grow {next fetch resetEpoch : Nat}
    (begun : Begun trace current fetch resetEpoch) (quiet : Quiet current next more) :
    Begun (trace ++ more) next fetch resetEpoch := by
  obtain ⟨atMost, earlier, later, rfl, clean⟩ := begun
  rcases quiet with ⟨rfl, still⟩ | moved
  · refine ⟨atMost, earlier, later ++ more, by simp, fun same => ?_⟩
    simpa [clean same] using still
  · exact ⟨by omega, earlier, later ++ more, by simp, fun same => by omega⟩

def Staged (trace : List Event) (current : Nat) : WriterStage → Prop
  | .unstarted | .top | .backoff | .stopped => True
  | .requested batch | .taken batch => Awaited trace batch
  | .resetting attempt | .passing attempt => Awaited trace attempt.batch
  | .connecting attempt fetch resetEpoch =>
    Awaited trace attempt.batch ∧ Begun trace current fetch resetEpoch ∧
      ∀ asked, .built fetch asked ∉ trace
  | .waiting attempt fetch resetEpoch =>
    (∀ id ∈ attempt.batch.waiters, ∃ wanted, Covers attempt.batch.asked wanted ∧
      [.registered id wanted, .built fetch attempt.batch.asked].Sublist trace) ∧
    resetEpoch ≤ current ∧ ∃ earlier later, trace = earlier ++ .started fetch :: later ∧
      .built fetch attempt.batch.asked ∈ later ∧ (resetEpoch = current → .reset ∉ later)
  | .answering batch (.ok ()) => ∀ id ∈ batch.waiters, Served trace id
  | .answering _ (.error _) => True

theorem Staged.grow {next : Nat} {stage : WriterStage}
    (staged : Staged trace current stage) (quiet : Quiet current next more)
    (unbuilt : ∀ fetch asked, .built fetch asked ∉ more) : Staged (trace ++ more) next stage := by
  cases stage with
  | unstarted | top | backoff | stopped => trivial
  | requested | taken | resetting | passing =>
    exact Awaited.grow staged more
  | connecting attempt fetch =>
    obtain ⟨awaited, begun, fresh⟩ := staged
    refine ⟨awaited.grow more, begun.grow quiet, fun asked there => ?_⟩
    rcases List.mem_append.mp there with old | new
    · exact fresh asked old
    · exact unbuilt fetch asked new
  | waiting =>
    obtain ⟨asked, atMost, earlier, later, rfl, built, clean⟩ := staged
    refine ⟨fun id waiting => ?_, ?_⟩
    · obtain ⟨wanted, covers, order⟩ := asked id waiting
      exact ⟨wanted, covers, order.trans (List.sublist_append_left _ _)⟩
    · rcases quiet with ⟨rfl, still⟩ | moved
      · refine ⟨atMost, earlier, later ++ more, by simp, by simp [built], fun same => ?_⟩
        simpa [clean same] using still
      · exact ⟨by omega, earlier, later ++ more, by simp, by simp [built], fun same => by omega⟩
  | answering batch result =>
    cases result with
    | error => trivial
    | ok => exact fun id waiting => (staged id waiting).grow more

structure Numbered (trace : List Event) (requests fetches : Nat) : Prop where
  registered : ∀ id wanted, .registered id wanted ∈ trace → id < requests
  started : ∀ fetch, .started fetch ∈ trace → fetch < fetches
  built : ∀ fetch asked, .built fetch asked ∈ trace → fetch < fetches

theorem Numbered.grow {requests fetches requests' fetches' : Nat}
    (numbered : Numbered trace requests fetches) (later : requests ≤ requests')
    (further : fetches ≤ fetches') (new : Numbered more requests' fetches') :
    Numbered (trace ++ more) requests' fetches' := by
  constructor
  · intro id wanted there
    rcases List.mem_append.mp there with old | late
    · exact (numbered.registered id wanted old).trans_le later
    · exact new.registered id wanted late
  · intro fetch there
    rcases List.mem_append.mp there with old | late
    · exact (numbered.started fetch old).trans_le further
    · exact new.started fetch late
  · intro fetch asked there
    rcases List.mem_append.mp there with old | late
    · exact (numbered.built fetch asked old).trans_le further
    · exact new.built fetch asked late

structure Covered (m : ClusterMetadata) : Prop where
  ruled : Throughout Ruled m.trace
  numbered : Numbered m.trace m.requests m.fetches
  pending : Awaited m.trace m.pending
  staged : Staged m.trace m.cache.resetEpoch m.writer

section Steps

variable {m : ClusterMetadata}

theorem resetEpoch_touchTopics (c : MetadataCache) (topicTtl : Option Duration)
    (topics : List String) (nowMs : Nat) :
    (c.touchTopics topicTtl topics nowMs).resetEpoch = c.resetEpoch := by
  cases topicTtl <;> rfl

theorem resetEpoch_applyLeaderHint (c : MetadataCache) (hint : LeaderHint) :
    ((c.applyLeaderHint hint).getD c).resetEpoch = c.resetEpoch := by
  unfold MetadataCache.applyLeaderHint
  split
  · rfl
  · split <;> rfl

theorem Covered.wakeWriter (covered : Covered m) : Covered m.wakeWriter := by
  unfold ClusterMetadata.wakeWriter
  split
  · exact ⟨covered.ruled, covered.numbered, covered.pending, trivial⟩
  · exact covered

theorem Covered.cached (covered : Covered m) {cache : MetadataCache}
    (same : cache.resetEpoch = m.cache.resetEpoch) : Covered { m with cache } where
  ruled := covered.ruled
  numbered := covered.numbered
  pending := covered.pending
  staged := by
    show Staged m.trace cache.resetEpoch m.writer
    rw [same]
    exact covered.staged

theorem Covered.register (covered : Covered m) (topics : Option (List String)) :
    Covered (m.register topics) := by
  refine Covered.wakeWriter ⟨?_, ?_, ?_, ?_⟩
  · refine throughout_concat.mpr ⟨covered.ruled, fun wanted there => ?_⟩
    exact Nat.lt_irrefl _ (covered.numbered.registered _ wanted there)
  · refine covered.numbered.grow (Nat.le_succ _) (Nat.le_refl _) ?_
    constructor <;> simp
  · exact covered.pending.register m.requests topics
  · exact covered.staged.grow (.inl ⟨rfl, by simp⟩) (by simp)

theorem Covered.request (covered : Covered m) (topics : Option (List String)) (force : Bool)
    (now : Instant) (nowMs : Nat) : Covered (m.request topics force now nowMs) := by
  unfold ClusterMetadata.request
  cases topics with
  | none => exact covered.register none
  | some names =>
    have touched : Covered (m.touchTopics names nowMs) :=
      covered.cached (resetEpoch_touchTopics _ _ _ _)
    dsimp only
    split
    · refine ⟨throughout_concat.mpr ⟨touched.ruled, trivial⟩, ?_, touched.pending.grow _, ?_⟩
      · exact touched.numbered.grow (Nat.le_succ _) (Nat.le_refl _) (by constructor <;> simp)
      · exact touched.staged.grow (.inl ⟨rfl, by simp⟩) (by simp)
    · exact touched.register (some names)

theorem Covered.resetToSeeds (covered : Covered m) (now : Instant) :
    Covered (m.resetToSeeds now) where
  ruled := throughout_concat.mpr ⟨covered.ruled, trivial⟩
  numbered := covered.numbered.grow (Nat.le_refl _) (Nat.le_refl _) (by constructor <;> simp)
  pending := covered.pending.grow _
  staged := covered.staged.grow (.inr (Nat.lt_succ_self _)) (by simp)

theorem Covered.go (covered : Covered m) {stage : WriterStage}
    (staged : Staged m.trace m.cache.resetEpoch stage) : Covered (m.go stage) :=
  ⟨covered.ruled, covered.numbered, covered.pending, staged⟩

theorem Covered.answer (covered : Covered m) (waiters : List Nat) (result : Result Unit)
    (served : result = .ok () → ∀ id ∈ waiters, Served m.trace id) :
    Covered (m.answer waiters result) where
  ruled := by
    refine throughout_append.mpr ⟨covered.ruled, throughout_of_forall ?_⟩
    intro event there before
    obtain ⟨id, waiting, rfl⟩ := List.mem_map.mp there
    cases result with
    | error => trivial
    | ok => exact (served rfl id (List.mem_filter.mp waiting).1).grow before
  numbered := by
    refine covered.numbered.grow (Nat.le_refl _) (Nat.le_refl _) ?_
    constructor <;> simp
  pending := covered.pending.grow _
  staged := covered.staged.grow (.inl ⟨rfl, by simp⟩) (by simp)

variable {attempt : Attempt}

theorem Covered.pass (covered : Covered m)
    (awaited : Awaited m.trace attempt.batch) : Covered (m.pass attempt) := by
  unfold ClusterMetadata.pass
  split
  · have fresh : .started m.fetches ∉ m.trace := fun there =>
      Nat.lt_irrefl _ (covered.numbered.started _ there)
    refine ⟨throughout_concat.mpr ⟨covered.ruled, fresh⟩, ?_, covered.pending.grow _, ?_⟩
    · exact covered.numbered.grow (Nat.le_refl _) (Nat.le_succ _) (by constructor <;> simp)
    · refine ⟨awaited.grow _, ⟨Nat.le_refl _, m.trace, [], rfl, by simp⟩, fun asked there => ?_⟩
      rcases List.mem_append.mp there with old | new
      · exact Nat.lt_irrefl _ (covered.numbered.built _ asked old)
      · simp at new
  · exact covered.go trivial

variable {fetch resetEpoch : Nat}

theorem Covered.build (covered : Covered m)
    (stage : m.writer = .connecting attempt fetch resetEpoch) :
    Covered { m with
      writer := .waiting attempt fetch resetEpoch
      trace := m.trace ++ [.built fetch attempt.batch.asked] } := by
  have staged := covered.staged
  rw [stage] at staged
  obtain ⟨awaited, begun, fresh⟩ := staged
  refine ⟨throughout_concat.mpr ⟨covered.ruled, begun.mem, fresh⟩, ?_, covered.pending.grow _, ?_⟩
  · refine covered.numbered.grow (Nat.le_refl _) (Nat.le_refl _) ⟨by simp, by simp, ?_⟩
    simpa using covered.numbered.started _ begun.mem
  · obtain ⟨atMost, earlier, later, split, clean⟩ := begun
    refine ⟨fun id waiting => ?_, atMost, earlier, later ++ [.built fetch attempt.batch.asked],
      by simp [split], by simp, fun same => by simpa using clean same⟩
    obtain ⟨wanted, known, covers⟩ := awaited id waiting
    exact ⟨wanted, covers, (List.singleton_sublist.mpr known).append (List.Sublist.refl _)⟩

theorem Covered.applied (covered : Covered m)
    (stage : m.writer = .waiting attempt fetch resetEpoch) {cache : MetadataCache}
    (current : m.cache.resetEpoch = resetEpoch) :
    Covered { m with
      cache
      writer := .answering attempt.batch (.ok ())
      trace := m.trace ++ [.applied fetch] } := by
  have staged := covered.staged
  rw [stage] at staged
  obtain ⟨asked, -, earlier, later, split, built, clean⟩ := staged
  have valid : Valid m.trace fetch := ⟨earlier, later, _, split, built, clean current.symm⟩
  refine ⟨throughout_concat.mpr ⟨covered.ruled, valid⟩, ?_, covered.pending.grow _, ?_⟩
  · exact covered.numbered.grow (Nat.le_refl _) (Nat.le_refl _) (by constructor <;> simp)
  · intro id waiting
    obtain ⟨wanted, covers, order⟩ := asked id waiting
    exact ⟨wanted, fetch, _, covers, order.append (List.Sublist.refl [Event.applied fetch])⟩

theorem Covered.respond (covered : Covered m)
    (stage : m.writer = .waiting attempt fetch resetEpoch) (answer : WriterAnswer) :
    Covered (m.write answer) := by
  have staged := covered.staged
  rw [stage] at staged
  -- The batch is still awaited when the fetch is repeated.
  have awaited : Awaited m.trace attempt.batch := by
    intro id waiting
    obtain ⟨wanted, covers, order⟩ := staged.1 id waiting
    exact ⟨wanted, order.subset (by simp), covers⟩
  rw [ClusterMetadata.write, stage]
  dsimp only
  cases answer.response with
  | error => exact covered.go trivial
  | ok =>
    dsimp only
    split
    · exact covered.go awaited
    · split
      · exact covered.go trivial
      · unfold ClusterMetadata.apply
        by_cases current : m.cache.resetEpoch = resetEpoch
        · rw [if_neg (not_not.mpr current)]
          exact covered.applied stage current
        · rw [if_pos current]
          exact covered.go awaited

theorem Covered.write (covered : Covered m) (answer : WriterAnswer) : Covered (m.write answer) := by
  have staged := covered.staged
  by_cases waits : ∃ attempt fetch resetEpoch, m.writer = .waiting attempt fetch resetEpoch
  · obtain ⟨_, _, _, stage⟩ := waits
    exact covered.respond stage answer
  unfold ClusterMetadata.write
  generalize stage : m.writer = writer at staged waits
  cases writer with
  | waiting => exact absurd ⟨_, _, _, rfl⟩ waits
  | unstarted | stopped =>
    exact covered
  | top =>
    dsimp only
    split
    · have told := covered.answer m.pending.waiters
        (.error (.closed "cluster metadata was dropped")) nofun
      exact ⟨told.ruled, told.numbered, awaited_empty _, trivial⟩
    · split
      · exact covered
      · exact covered.go trivial
  | backoff =>
    refine ⟨covered.ruled, covered.numbered, awaited_empty _, ?_⟩
    dsimp only
    split <;> exact covered.pending
  | requested | resetting =>
    exact (covered.resetToSeeds answer.now).go (Awaited.grow staged _)
  | taken =>
    dsimp only
    split
    · exact covered.go trivial
    · split <;> exact covered.go staged
  | passing =>
    exact covered.pass staged
  | connecting =>
    dsimp only
    cases answer.connection with
    | ok => exact covered.build stage
    | error =>
      dsimp only
      split
      · exact covered.go staged.1
      · exact covered.go trivial
  | answering batch result =>
    refine (covered.answer batch.waiters result fun done => ?_).go trivial
    subst done
    exact staged

theorem Covered.step (covered : Covered m) (input : MetadataInput) : Covered (m.step input) := by
  cases input with
  | request topics force now nowMs => exact covered.request topics force now nowMs
  | abandon | drop =>
    exact ⟨covered.ruled, covered.numbered, covered.pending, covered.staged⟩
  | rebootstrap now => exact covered.resetToSeeds now
  | requestRebootstrap =>
    exact Covered.wakeWriter
      ⟨covered.ruled, covered.numbered, covered.pending, covered.staged⟩
  | hint hint nowMs =>
    unfold ClusterMetadata.step
    dsimp only
    split
    · exact covered
    · have touched : Covered (m.touchTopics [hint.topic] nowMs) :=
        covered.cached (resetEpoch_touchTopics _ _ _ _)
      exact touched.cached (resetEpoch_applyLeaderHint _ _)
  | touch => exact covered.cached (resetEpoch_touchTopics _ _ _ _)
  | write answer => exact covered.write answer

end Steps

/-- Every request answered `Ok` was covered by a fetch built after it whose response was applied,
and no response is applied after a rebootstrap that came after its fetch started. -/
theorem refreshes_cover_their_requests (config : MetadataConfig) (inputs : List MetadataInput) :
    Throughout Ruled (ClusterMetadata.run config inputs).trace := by
  have start : Covered { config } := by
    refine ⟨throughout_nil _, ⟨?_, ?_, ?_⟩, awaited_empty _, trivial⟩ <;> simp
  suffices covered : Covered (ClusterMetadata.run config inputs) from covered.ruled
  unfold ClusterMetadata.run
  induction inputs using List.reverseRecOn with
  | nil => exact start
  | append_singleton inputs input ih =>
    rw [List.foldl_append]
    exact ih.step input

-- The first response comes back after a rebootstrap and is fetched again.
example :
    (ClusterMetadata.run {}
      ([.request (some ["t"]) false 0 0] ++ List.replicate 5 (MetadataInput.write {}) ++
        [.rebootstrap 0] ++ List.replicate 5 (MetadataInput.write {}))).trace =
      [.registered 0 (some ["t"]), .started 0, .built 0 (some ["t"]), .reset, .started 1,
        .built 1 (some ["t"]), .applied 1, .answered 0 (.ok ())] := by
  rfl

end Krafka.Metadata
