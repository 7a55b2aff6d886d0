import Krafka.Metadata.Cache
import Krafka.Library.Runs

/-! Leader epochs across snapshots. Two neighbouring snapshots of one topic id are in order
wherever both know the epoch; a snapshot in between that does not know it forgets what the
order is. -/

namespace Krafka.Metadata

open Runs MetadataCache

inductive CacheInput where
  | merge (response : MetadataResponse) (fullRefresh : Bool) (topicTtl : Option Duration)
      (now : Instant) (nowMs : Nat)
  | hint (hint : LeaderHint)
  | touch (topicTtl : Option Duration) (topics : List String) (nowMs : Nat)
  | reset (now : Instant)

namespace MetadataCache

def step (c : MetadataCache) : CacheInput → MetadataCache
  | .merge response fullRefresh topicTtl now nowMs =>
    c.merge response fullRefresh topicTtl now nowMs
  | .hint hint => (c.applyLeaderHint hint).getD c
  | .touch topicTtl topics nowMs => c.touchTopics topicTtl topics nowMs
  | .reset now => c.resetToSeeds now

def run (c : MetadataCache) (inputs : List CacheInput) : MetadataCache := inputs.foldl step c

def topicId (c : MetadataCache) (topic : String) : Option TopicId :=
  (c.topics.lookup topic).map (·.topicId)

end MetadataCache

def MetadataResponse.descriptions (response : MetadataResponse) (topic : String) :
    List MetadataTopicResponse :=
  response.topics.filter fun entry => entry.name = some topic && entry.errorCode = .none

/-- The topic stays in the cache under its id, there is no rebootstrap, and a response that
describes the topic lists the partition. -/
def Steady (topic : String) (id : TopicId) (partition : Int) (c : MetadataCache) :
    CacheInput → Prop
  | .merge response fullRefresh topicTtl now nowMs =>
    (c.merge response fullRefresh topicTtl now nowMs).topicId topic = some id ∧
      ∀ entry ∈ response.descriptions topic, partition ∈ entry.partitions.map (·.partitionIndex)
  | .hint _ | .touch .. => True
  | .reset _ => False

instance (topic : String) (id : TopicId) (partition : Int) (c : MetadataCache) :
    (input : CacheInput) → Decidable (Steady topic id partition c input)
  | .merge .. => inferInstanceAs (Decidable (_ ∧ _))
  | .hint _ | .touch .. => .isTrue trivial
  | .reset _ => .isFalse not_false

/-- A response that describes the topic knows the partition's epoch, if the cache does. -/
def Knows (topic : String) (partition : Int) (c : MetadataCache) : CacheInput → Prop
  | .merge response _ _ _ _ =>
    (c.leaderEpoch topic partition).isSome →
      ∀ entry ∈ response.descriptions topic, ∀ p ∈ entry.partitions,
        p.partitionIndex = partition → p.errorCode = .none ∧ 0 ≤ p.leaderEpoch
  | .hint _ | .touch .. | .reset _ => True

instance (topic : String) (partition : Int) (c : MetadataCache) :
    (input : CacheInput) → Decidable (Knows topic partition c input)
  | .merge .. => inferInstanceAs (Decidable (_ → _))
  | .hint _ | .touch .. | .reset _ => .isTrue trivial

section Merge

variable {c : MetadataCache} {topic : String} {info : TopicInfo} {partition : Int}

variable {entry : MetadataTopicResponse}

theorem mergeTopic_lookup {m : Merging}
    (found : (c.mergeTopic m entry).topics.lookup topic = some info) :
    (m.topics.lookup topic = some info ∨ c.topics.lookup topic = some info) ∨
      entry.name = some topic ∧ entry.errorCode = .none ∧ info = c.describe topic entry := by
  unfold mergeTopic at found
  cases named : entry.name with
  | none =>
    rw [named] at found
    exact .inl (.inl found)
  | some name =>
    simp only [named] at found
    by_cases here : topic = name
    · subst here
      split at found
      · rename_i healthy
        rw [AList.lookup_insert] at found
        exact .inr ⟨rfl, healthy, (Option.some.inj found).symm⟩
      · split at found
        · dsimp only at found
          split at found
          · rename_i cached
            rw [AList.lookup_insert] at found
            exact .inl (.inr (cached.trans found))
          · exact .inl (.inl found)
        · rw [AList.lookup_erase] at found
          cases found
    · split at found
      · exact .inl (.inl ((AList.lookup_insert_ne here).symm.trans found))
      · split at found
        · dsimp only at found
          split at found
          · exact .inl (.inl ((AList.lookup_insert_ne here).symm.trans found))
          · exact .inl (.inl found)
        · exact .inl (.inl ((AList.lookup_erase_ne here).symm.trans found))

theorem mergeTopics_lookup {entries : List MetadataTopicResponse} {m : Merging}
    (found : (entries.foldl c.mergeTopic m).topics.lookup topic = some info) :
    (m.topics.lookup topic = some info ∨ c.topics.lookup topic = some info) ∨
      ∃ entry ∈ entries, entry.name = some topic ∧ entry.errorCode = .none ∧
        info = c.describe topic entry := by
  induction entries generalizing m with
  | nil => exact .inl (.inl found)
  | cons entry entries ih =>
    rcases ih found with (here | kept) | ⟨later, mem, described⟩
    · rcases mergeTopic_lookup here with old | described
      · exact .inl old
      · exact .inr ⟨entry, List.mem_cons_self, described⟩
    · exact .inl (.inr kept)
    · exact .inr ⟨later, List.mem_cons_of_mem _ mem, described⟩

theorem merge_lookup {response : MetadataResponse} {fullRefresh : Bool}
    {topicTtl : Option Duration} {now : Instant} {nowMs : Nat}
    (found : (c.merge response fullRefresh topicTtl now nowMs).topics.lookup topic = some info) :
    c.topics.lookup topic = some info ∨
      ∃ entry ∈ response.descriptions topic, info = c.describe topic entry := by
  rcases mergeTopics_lookup found with (started | kept) | ⟨entry, mem, named, healthy, rfl⟩
  · -- What the merge starts from is part of the cache.
    unfold merging at started
    split_ifs at started
    · cases started
    · rw [AList.lookup_retain] at started
      exact .inl (Option.filter_eq_some_iff.mp started).1
  · exact .inl kept
  · exact .inr ⟨entry, List.mem_filter.mpr ⟨mem, by simp [named, healthy]⟩, rfl⟩

theorem describe_lookup {cached : TopicInfo} {p : PartitionInfo}
    (known : c.topics.lookup topic = some cached)
    (same : (c.describe topic entry).topicId = cached.topicId)
    (found : (c.describe topic entry).partitions.lookup partition = some p) :
    ∃ reported ∈ entry.partitions, reported.partitionIndex = partition ∧
      p = mergePartition (cached.partitions.lookup partition) (reported.incoming topic) := by
  have compared : c.comparable topic (entry.topicId.getD noTopicId) = some cached := by
    have same' : cached.topicId = entry.topicId.getD noTopicId := same.symm
    rw [comparable, known]
    simp [Option.filter, same']
  simp only [describe, compared, Option.bind_some] at found
  rcases AList.mem_of_lookup_insertAll found with listed | none
  · obtain ⟨reported, mem, at_⟩ := List.mem_map.mp listed
    cases at_
    exact ⟨reported, mem, rfl, rfl⟩
  · cases none

theorem describe_lists
    (listed : partition ∈ entry.partitions.map (·.partitionIndex)) :
    ((c.describe topic entry).partitions.lookup partition).isSome := by
  rw [Option.isSome_iff_ne_none]
  intro absent
  refine AList.notMem_of_lookup_insertAll absent ?_
  simpa [Function.comp_def] using listed

theorem mergePartition_le {previous incoming : PartitionInfo} (old : 0 ≤ previous.leaderEpoch)
    (new : 0 ≤ incoming.leaderEpoch) :
    previous.leaderEpoch ≤ (mergePartition (some previous) incoming).leaderEpoch := by
  simp only [mergePartition]
  split_ifs with stale
  · exact Int.le_refl _
  · exact Int.not_lt.mp fun less => stale ⟨old, new, less⟩

end Merge

section Epochs

variable {c : MetadataCache} {topic : String} {id : TopicId} {partition epoch : Int}

theorem leaderEpoch_eq_some :
    c.leaderEpoch topic partition = some epoch ↔
      ∃ info p, c.topics.lookup topic = some info ∧ info.partitions.lookup partition = some p ∧
        p.leaderEpoch = epoch ∧ 0 ≤ epoch := by
  simp only [leaderEpoch, TopicInfo.leaderEpoch, Option.bind_eq_some_iff,
    Option.filter_eq_some_iff, Option.map_eq_some_iff, decide_eq_true_eq]
  constructor
  · rintro ⟨info, cached, ⟨p, found, rfl⟩, known⟩
    exact ⟨info, p, cached, found, rfl, known⟩
  · rintro ⟨info, p, cached, found, rfl, known⟩
    exact ⟨info, cached, ⟨p, found, rfl⟩, known⟩

theorem merge_le {response : MetadataResponse} {fullRefresh : Bool} {topicTtl : Option Duration}
    {now : Instant} {nowMs : Nat} (cached : c.topicId topic = some id)
    (steady : Steady topic id partition c (.merge response fullRefresh topicTtl now nowMs))
    (knows : Knows topic partition c (.merge response fullRefresh topicTtl now nowMs))
    (known : c.leaderEpoch topic partition = some epoch) :
    ∃ epoch', (c.merge response fullRefresh topicTtl now nowMs).leaderEpoch topic partition =
      some epoch' ∧ epoch ≤ epoch' := by
  obtain ⟨stays, lists⟩ := steady
  obtain ⟨info', found, same⟩ := Option.map_eq_some_iff.mp stays
  obtain ⟨info, p, here, at_, rfl, old⟩ := leaderEpoch_eq_some.mp known
  rcases merge_lookup found with kept | ⟨entry, described, rfl⟩
  · refine ⟨_, leaderEpoch_eq_some.mpr ⟨info', p, found, ?_, rfl, old⟩, Int.le_refl _⟩
    rw [here] at kept
    exact Option.some.inj kept ▸ at_
  · obtain ⟨p', listed⟩ := Option.isSome_iff_exists.mp (describe_lists (lists entry described))
    have one : (c.describe topic entry).topicId = info.topicId := by
      rw [topicId, here] at cached
      exact same.trans (Option.some.inj cached).symm
    obtain ⟨reported, mem, rfl, rfl⟩ := describe_lookup here one listed
    obtain ⟨healthy, new⟩ := knows (by rw [known]; rfl) entry described reported mem rfl
    have incoming : 0 ≤ (reported.incoming topic).leaderEpoch := by
      simpa [MetadataPartitionResponse.incoming, healthy] using new
    rw [at_] at listed
    have newer := mergePartition_le old incoming
    exact ⟨_, leaderEpoch_eq_some.mpr ⟨_, _, found, listed, rfl, Int.le_trans old newer⟩, newer⟩

theorem lead_le {hint : LeaderHint} {info : TopicInfo} {p : PartitionInfo}
    (cached : c.topics.lookup hint.topic = some info)
    (at_ : info.partitions.lookup partition = some p) (old : 0 ≤ p.leaderEpoch)
    (newer : c.partitionIsNew hint) :
    ∃ epoch', (∃ info' p', (c.topics.insert hint.topic (info.lead hint)).lookup hint.topic =
        some info' ∧ info'.partitions.lookup partition = some p' ∧
        p'.leaderEpoch = epoch' ∧ 0 ≤ epoch') ∧ p.leaderEpoch ≤ epoch' := by
  have moved : ∃ p', (info.lead hint).partitions.lookup partition = some p' ∧
      p.leaderEpoch ≤ p'.leaderEpoch := by
    unfold TopicInfo.lead
    cases named : info.partitions.lookup hint.partition with
    | none => exact ⟨p, at_, Int.le_refl _⟩
    | some q =>
      by_cases here : partition = hint.partition
      · subst here
        obtain rfl : q = p := Option.some.inj (named.symm.trans at_)
        refine ⟨_, AList.lookup_insert _, ?_⟩
        simp only [partitionIsNew, cached, Option.bind_some, named, Option.any_some,
          Bool.and_eq_true, Bool.or_eq_true, decide_eq_true_eq] at newer
        show q.leaderEpoch ≤ hint.leaderEpoch
        omega
      · exact ⟨p, (AList.lookup_insert_ne here).trans at_, Int.le_refl _⟩
  obtain ⟨p', found, less⟩ := moved
  exact ⟨_, ⟨_, p', AList.lookup_insert _, found, rfl, Int.le_trans old less⟩, less⟩

theorem hint_topics (c : MetadataCache) (hint : LeaderHint) :
    (c.step (.hint hint)).topics = c.topics ∨
      ∃ told, c.topics.lookup hint.topic = some told ∧ c.partitionIsNew hint ∧
        (c.step (.hint hint)).topics = c.topics.insert hint.topic (told.lead hint) := by
  simp only [step, applyLeaderHint]
  split
  · exact .inl rfl
  · split
    · exact .inl rfl
    · simp only [Option.getD_some]
      cases cached : c.topics.lookup hint.topic with
      | none => exact .inl rfl
      | some told =>
        by_cases newer : c.partitionIsNew hint = true
        · exact .inr ⟨told, rfl, newer, if_pos newer⟩
        · exact .inl (if_neg newer)

theorem topicId_hint (hint : LeaderHint) (name : String) :
    (c.step (.hint hint)).topicId name = c.topicId name := by
  rw [topicId, topicId]
  rcases hint_topics c hint with same | ⟨told, here, -, moved⟩
  · rw [same]
  · rw [moved]
    by_cases there : name = hint.topic
    · subst there
      rw [AList.lookup_insert, here]
      unfold TopicInfo.lead
      split <;> rfl
    · rw [AList.lookup_insert_ne there]

theorem hint_le {hint : LeaderHint} (known : c.leaderEpoch topic partition = some epoch) :
    ∃ epoch', (c.step (.hint hint)).leaderEpoch topic partition = some epoch' ∧ epoch ≤ epoch' := by
  obtain ⟨info, p, here, at_, rfl, old⟩ := leaderEpoch_eq_some.mp known
  simp only [leaderEpoch_eq_some]
  rcases hint_topics c hint with same | ⟨told, cached, newer, moved⟩
  · rw [same]
    exact ⟨_, ⟨info, p, here, at_, rfl, old⟩, Int.le_refl _⟩
  · rw [moved]
    by_cases there : topic = hint.topic
    · subst there
      obtain rfl : told = info := Option.some.inj (cached.symm.trans here)
      exact lead_le cached at_ old newer
    · exact ⟨_, ⟨info, p, (AList.lookup_insert_ne there).trans here, at_, rfl, old⟩, Int.le_refl _⟩

theorem touch_topics (c : MetadataCache) (topicTtl : Option Duration) (topics : List String)
    (nowMs : Nat) : (c.touchTopics topicTtl topics nowMs).topics = c.topics := by
  cases topicTtl <;> rfl

theorem step_le {input : CacheInput} (cached : c.topicId topic = some id)
    (steady : Steady topic id partition c input) (knows : Knows topic partition c input)
    (known : c.leaderEpoch topic partition = some epoch) :
    ∃ epoch', (c.step input).leaderEpoch topic partition = some epoch' ∧ epoch ≤ epoch' := by
  cases input with
  | merge => exact merge_le cached steady knows known
  | hint => exact hint_le known
  | touch =>
    refine ⟨epoch, ?_, Int.le_refl _⟩
    rwa [leaderEpoch, step, touch_topics]
  | reset => exact steady.elim

theorem step_topicId {input : CacheInput} (cached : c.topicId topic = some id)
    (steady : Steady topic id partition c input) : (c.step input).topicId topic = some id := by
  cases input with
  | merge => exact steady.1
  | hint =>
    rwa [topicId_hint]
  | touch => rwa [topicId, step, touch_topics]
  | reset => exact steady.elim

/-- While a topic stays in the cache under one id and every response that describes it knows
the epochs the cache knows, a leader epoch that is known is at least every one known before. -/
theorem leader_epochs_never_go_back (topic : String) (id : TopicId) (partition : Int)
    (c : MetadataCache) (earlier later : List CacheInput) (cached : c.topicId topic = some id)
    (steady : Along step (Steady topic id partition) c (earlier ++ later))
    (knows : Along step (Knows topic partition) c (earlier ++ later))
    {before after : Int} (old : (c.run earlier).leaderEpoch topic partition = some before)
    (new : (c.run (earlier ++ later)).leaderEpoch topic partition = some after) :
    before ≤ after := by
  have both := steady.and knows
  rw [along_append] at both
  have here : (c.run earlier).topicId topic = some id :=
    both.1.invariant (fun c => c.topicId topic = some id)
      (fun _ _ meets cached => step_topicId cached meets.1) cached
  -- From the earlier snapshot on, the topic stays and its epoch is known and only grows.
  have kept := both.2.invariant
    (fun c => c.topicId topic = some id ∧ ∃ epoch, c.leaderEpoch topic partition = some epoch ∧
      before ≤ epoch)
    (by
      rintro c input ⟨steady, knows⟩ ⟨cached, epoch, known, less⟩
      obtain ⟨epoch', known', more⟩ := step_le cached steady knows known
      exact ⟨step_topicId cached steady, epoch', known', Int.le_trans less more⟩)
    ⟨here, before, old, Int.le_refl _⟩
  obtain ⟨-, epoch, known, less⟩ := kept
  rw [run, List.foldl_append] at new
  obtain rfl : epoch = after := Option.some.inj (known.symm.trans new)
  exact less

end Epochs

/-! A leader that is not available for a moment -/

def describing (errorCode : ErrorCode) (leaderId leaderEpoch : Int) : CacheInput :=
  .merge
    { topics := [{
        name := some "t", topicId := some 7
        partitions := [{ errorCode, partitionIndex := 0, leaderId, leaderEpoch }] }] }
    false none 0 0

def sampleCache : MetadataCache := run {} [describing .none 1 3]

def sampleHint : CacheInput := .hint ⟨"t", 0, 1, 4, some ⟨1, "h", 9092, none⟩⟩

theorem sampleCache_epochs_grow :
    (sampleCache.run [sampleHint]).leaderEpoch "t" 0 = some 4 ∧
      (sampleCache.run ([sampleHint] ++ [describing .none 1 5])).leaderEpoch "t" 0 = some 5 ∧
      (4 : Int) ≤ 5 :=
  ⟨by decide +kernel, by decide +kernel,
    leader_epochs_never_go_back "t" 7 0 sampleCache [sampleHint] [describing .none 1 5]
      (by decide +kernel) (by decide +kernel) (by decide +kernel) (by decide +kernel)
      (by decide +kernel)⟩

def unavailable : List CacheInput := [describing .leaderNotAvailable 1 3, describing .none 1 2]

theorem leader_epoch_goes_back :
    Along step (Steady "t" 7 0) sampleCache unavailable ∧
      sampleCache.leaderEpoch "t" 0 = some 3 ∧
      (sampleCache.run unavailable).leaderEpoch "t" 0 = some 2 := by
  decide +kernel

end Krafka.Metadata
