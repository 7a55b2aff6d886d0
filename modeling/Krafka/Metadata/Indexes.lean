import Krafka.Library.Lists
import Krafka.Metadata.LeaderEpochs

/-! The indexes of a snapshot. A merge rebuilds them from its topics, whichever of them it kept,
restored or took from the response, but it never compares the ids of two topics: they agree as long
as no id ever stands for two names. -/

namespace Krafka.Metadata

open List MetadataCache AList

/-! What a merge makes of one topic -/

def Merging.of (m : Merging) (name : String) : Option TopicInfo × Option ErrorCode × Bool :=
  (m.topics.lookup name, m.topicErrors.lookup name, decide (name ∈ m.fetched))

section Merge

variable {c : MetadataCache} {name : String} {m : Merging} {entry : MetadataTopicResponse}

theorem of_mergeTopic_of_ne (other : entry.name ≠ some name) :
    (c.mergeTopic m entry).of name = m.of name := by
  cases named : entry.name with
  | none => simp only [mergeTopic, named]
  | some there =>
    have apart : name ≠ there := fun same => other (named.trans (congrArg some same.symm))
    have errors : (m.topicErrors.insert there entry.errorCode).lookup name =
        m.topicErrors.lookup name := lookup_insert_ne apart
    simp only [mergeTopic, named, Merging.of]
    split
    · simp [apart, lookup_insert_ne apart, lookup_erase_ne apart]
    · split
      · have kept : ∀ topics : AList fun _ : String => TopicInfo,
            topics.lookup name = m.topics.lookup name →
            (topics.lookup name, (m.topicErrors.insert there entry.errorCode).lookup name,
              decide (name ∈ if (topics.lookup there).isSome then m.fetched ++ [there]
                else m.fetched)) =
              (m.topics.lookup name, m.topicErrors.lookup name, decide (name ∈ m.fetched)) := by
          intro topics same
          rw [same, errors]
          split <;> simp [apart]
        split
        · exact kept _ (lookup_insert_ne apart)
        · exact kept _ rfl
      · rw [lookup_erase_ne apart, errors]

theorem of_mergeTopics_of_notMem {entries : List MetadataTopicResponse}
    (absent : name ∉ entries.filterMap (·.name)) (m : Merging) :
    (entries.foldl c.mergeTopic m).of name = m.of name := by
  induction entries generalizing m with
  | nil => rfl
  | cons entry entries ih =>
    have other : entry.name ≠ some name := fun named =>
      absent (mem_filterMap.mpr ⟨entry, mem_cons_self, named⟩)
    have later : name ∉ entries.filterMap (·.name) := fun listed => by
      obtain ⟨e, there, named⟩ := mem_filterMap.mp listed
      exact absent (mem_filterMap.mpr ⟨e, mem_cons_of_mem _ there, named⟩)
    exact (ih later _).trans (of_mergeTopic_of_ne other)

theorem of_mergeTopics {entries : List MetadataTopicResponse}
    (distinct : (entries.filterMap (·.name)).Nodup) (there : entry ∈ entries)
    (named : entry.name = some name) (m : Merging) :
    ∃ m', m'.of name = m.of name ∧
      (entries.foldl c.mergeTopic m).of name = (c.mergeTopic m' entry).of name := by
  obtain ⟨front, back, rfl⟩ := append_of_mem there
  rw [filterMap_append, filterMap_cons_some named, nodup_append] at distinct
  obtain ⟨-, rest, apart⟩ := distinct
  refine ⟨front.foldl c.mergeTopic m, of_mergeTopics_of_notMem (fun early => ?_) m, ?_⟩
  · exact apart name early name mem_cons_self rfl
  · rw [foldl_append, foldl_cons]
    exact of_mergeTopics_of_notMem (nodup_cons.mp rest).1 _

theorem of_mergeTopic_healthy (named : entry.name = some name) (healthy : entry.errorCode = .none) :
    (c.mergeTopic m entry).of name = (some (c.describe name entry), none, true) := by
  simp [mergeTopic, named, healthy, Merging.of]

theorem fetched_mergeTopic_failed (named : entry.name = some name)
    (failed : entry.errorCode ≠ .none) (fresh : (m.of name).2.2 = false)
    (fetched : ((c.mergeTopic m entry).of name).2.2 = true) :
    ((c.mergeTopic m entry).of name).1.isSome := by
  have fresh : name ∉ m.fetched := of_decide_eq_false fresh
  simp only [mergeTopic, named, if_neg failed, Merging.of] at fetched ⊢
  split at fetched
  · rename_i transient
    rw [if_pos transient]
    dsimp only at fetched ⊢
    by_contra none
    rw [if_neg none, decide_eq_true_eq] at fetched
    exact fresh fetched
  · exact absurd (of_decide_eq_true fetched) fresh

end Merge

section Snapshot

variable {c : MetadataCache} {response : MetadataResponse} {fullRefresh : Bool}
  {topicTtl : Option Duration} {now : Instant} {nowMs : Nat} {name : String}

theorem fetched_merging : (c.merging fullRefresh topicTtl now nowMs).fetched = [] := by
  unfold merging
  split <;> rfl

theorem fetched_merge (distinct : (response.topics.filterMap (·.name)).Nodup) (name : String) :
    let m := response.topics.foldl c.mergeTopic (c.merging fullRefresh topicTtl now nowMs)
    (name ∈ m.fetched → name ∈ m.topics) ∧ (name ∈ m.topics → name ∈ m.fetched ∨ name ∈ c.topics) := by
  intro m
  have fresh : ((c.merging fullRefresh topicTtl now nowMs).of name).2.2 = false := by
    simp [Merging.of, fetched_merging]
  constructor
  · intro fetched
    have renewed : (m.of name).2.2 = true := decide_eq_true fetched
    by_cases listed : name ∈ response.topics.filterMap (·.name)
    · obtain ⟨entry, there, named⟩ := mem_filterMap.mp listed
      obtain ⟨m', start, same⟩ := of_mergeTopics (c := c) distinct there named
        (c.merging fullRefresh topicTtl now nowMs)
      refine lookup_isSome.mp (?_ : (m.of name).1.isSome = true)
      rw [same] at renewed ⊢
      by_cases healthy : entry.errorCode = .none
      · rw [of_mergeTopic_healthy named healthy]
        rfl
      · exact fetched_mergeTopic_failed named healthy (start ▸ fresh) renewed
    · rw [of_mergeTopics_of_notMem listed, fresh] at renewed
      cases renewed
  · intro cached
    obtain ⟨info, found⟩ := mem_iff_lookup.mp cached
    rcases mergeTopics_lookup found with (started | kept) | ⟨entry, there, named, healthy, -⟩
    · unfold merging at started
      split at started
      · cases started
      · rw [lookup_retain] at started
        exact .inr (mem_of_lookup (Option.filter_eq_some_iff.mp started).1)
    · exact .inr (mem_of_lookup kept)
    · obtain ⟨m', -, same⟩ := of_mergeTopics (c := c) distinct there named
        (c.merging fullRefresh topicTtl now nowMs)
      rw [of_mergeTopic_healthy named healthy] at same
      exact .inl (of_decide_eq_true (congrArg (·.2.2) same))

theorem mem_renewed (fetched : List String) (stamp : Option TopicStamp → TopicStamp)
    (stamps : AList fun _ : String => TopicStamp) :
    name ∈ fetched.foldl (fun stamps name => stamps.insert name (stamp (stamps.lookup name))) stamps ↔
      name ∈ fetched ∨ name ∈ stamps := by
  induction fetched generalizing stamps with
  | nil => simp
  | cons head fetched ih =>
    rw [foldl_cons, ih, mem_insert, mem_cons]
    tauto

theorem mem_topicStamps_merge (distinct : (response.topics.filterMap (·.name)).Nodup)
    (before : name ∈ c.topics → name ∈ c.topicStamps) :
    name ∈ (c.merge response fullRefresh topicTtl now nowMs).topicStamps ↔
      name ∈ (c.merge response fullRefresh topicTtl now nowMs).topics := by
  obtain ⟨has, renews⟩ := fetched_merge (c := c) distinct name
  refine (mem_renewed _ (fun old => ⟨now, (old.map (·.lastUsedMs)).getD 0⟩) _).trans ?_
  rw [← lookup_isSome, lookup_retain]
  change _ ↔ name ∈ (response.topics.foldl c.mergeTopic _).topics
  constructor
  · rintro (fetched | kept)
    · exact has fetched
    · obtain ⟨stamp, kept⟩ := Option.isSome_iff_exists.mp kept
      exact lookup_isSome.mp (Option.filter_eq_some_iff.mp kept).2
  · intro cached
    rcases renews cached with fetched | old
    · exact .inl fetched
    · obtain ⟨stamp, found⟩ := mem_iff_lookup.mp (before old)
      refine .inr ?_
      rw [found, Option.filter_some, if_pos (lookup_isSome.mpr cached)]
      rfl

end Snapshot

/-! The ids -/

def identified (topics : AList fun _ : String => TopicInfo) : List (String × TopicId) :=
  topics.entries.filterMap fun e =>
    if e.2.topicId = noTopicId then none else some (e.1, e.2.topicId)

variable {name : String} {id : TopicId}

theorem mem_identified {topics : AList fun _ : String => TopicInfo} :
    (name, id) ∈ identified topics ↔
      id ≠ noTopicId ∧ (topics.lookup name).map (·.topicId) = some id := by
  simp only [identified, mem_filterMap, Option.map_eq_some_iff]
  constructor
  · rintro ⟨⟨name', info⟩, there, same⟩
    split at same
    · cases same
    · rename_i known
      cases same
      exact ⟨known, info, mem_lookup_iff.mpr there, rfl⟩
  · rintro ⟨known, info, found, rfl⟩
    exact ⟨⟨name, info⟩, mem_lookup_iff.mp found, if_neg known⟩

theorem identified_names (topics : AList fun _ : String => TopicInfo) :
    ((identified topics).map (·.1)).Nodup := by
  refine List.Nodup.sublist ?_ (topics.nodupKeys : topics.entries.keys.Nodup)
  refine Lists.map_filterMap_sublist (fun e : (_ : String) × TopicInfo => e.1)
    (fun pair : String × TopicId => pair.1) ?_ _
  intro e pair same
  split at same <;> cases same
  rfl

theorem identified_ids {topics : AList fun _ : String => TopicInfo}
    (once : ∀ name name' id, (name, id) ∈ identified topics → (name', id) ∈ identified topics →
      name = name') : ((identified topics).map (·.2)).Nodup := by
  refine List.Nodup.map_on ?_ ((identified_names topics).of_map _)
  rintro ⟨name, id⟩ there ⟨name', id'⟩ there' rfl
  rw [once name name' id there there']

/-- The indexes by name and by id hold the topics that have an id, each under its own. -/
structure Indexed (c : MetadataCache) : Prop where
  stamped : ∀ name, name ∈ c.topicStamps ↔ name ∈ c.topics
  byName : ∀ name id, c.nameToTopicId.lookup name = some id ↔
    id ≠ noTopicId ∧ c.topicId name = some id
  byId : ∀ name id, c.topicIds.lookup id = some name ↔ c.nameToTopicId.lookup name = some id

section Index

variable {c : MetadataCache}

theorem Indexed.merge (indexed : Indexed c) {response : MetadataResponse} {fullRefresh : Bool}
    {topicTtl : Option Duration} {now : Instant} {nowMs : Nat}
    (distinct : (response.topics.filterMap (·.name)).Nodup)
    (once : ∀ name name' id, id ≠ noTopicId →
      (c.merge response fullRefresh topicTtl now nowMs).topicId name = some id →
      (c.merge response fullRefresh topicTtl now nowMs).topicId name' = some id → name = name') :
    Indexed (c.merge response fullRefresh topicTtl now nowMs) := by
  set topics := (c.merge response fullRefresh topicTtl now nowMs).topics
  have names (name : String) (id : TopicId) :
      (insertAll ∅ (identified topics)).lookup name = some id ↔ (name, id) ∈ identified topics :=
    lookup_insertAll_empty (identified_names topics)
  have ids (name : String) (id : TopicId) :
      (insertAll ∅ ((identified topics).map Prod.swap)).lookup id = some name ↔
        (name, id) ∈ identified topics := by
    rw [lookup_insertAll_empty]
    · simp
    · rw [map_map]
      refine identified_ids fun name name' id there there' => ?_
      obtain ⟨known, found⟩ := mem_identified.mp there
      exact once name name' id known found (mem_identified.mp there').2
  exact ⟨fun name => mem_topicStamps_merge distinct (indexed.stamped name).mpr,
    fun name id => (names name id).trans mem_identified,
    fun name id => (ids name id).trans (names name id).symm⟩

theorem mem_topics_iff {name : String} : name ∈ c.topics ↔ (c.topicId name).isSome := by
  rw [topicId, Option.isSome_map, lookup_isSome]

theorem indexes_hint (c : MetadataCache) (hint : LeaderHint) :
    (c.step (.hint hint)).topicStamps = c.topicStamps ∧
      (c.step (.hint hint)).nameToTopicId = c.nameToTopicId ∧
      (c.step (.hint hint)).topicIds = c.topicIds ∧
      (c.step (.hint hint)).topicErrors = c.topicErrors := by
  simp only [step, applyLeaderHint]
  split
  · exact ⟨rfl, rfl, rfl, rfl⟩
  · split <;> exact ⟨rfl, rfl, rfl, rfl⟩

theorem Indexed.hint (indexed : Indexed c) (hint : LeaderHint) : Indexed (c.step (.hint hint)) := by
  obtain ⟨stamps, byName, byId, -⟩ := indexes_hint c hint
  constructor
  · intro name
    rw [stamps, indexed.stamped, mem_topics_iff, mem_topics_iff, topicId_hint]
  · intro name id
    rw [byName, topicId_hint]
    exact indexed.byName name id
  · rw [byId, byName]
    exact indexed.byId

theorem mem_touched (topics : List String) (nowMs : Nat) (stamps : AList fun _ : String => TopicStamp)
    (name : String) :
    name ∈ topics.foldl (fun stamps name =>
      match stamps.lookup name with
      | some stamp => stamps.insert name { stamp with lastUsedMs := nowMs }
      | none => stamps) stamps ↔ name ∈ stamps := by
  induction topics generalizing stamps with
  | nil => rfl
  | cons head topics ih =>
    rw [foldl_cons, ih]
    split
    · rename_i stamp found
      exact mem_insert_of_mem (mem_of_lookup found) _
    · rfl

theorem Indexed.touch (indexed : Indexed c) (topicTtl : Option Duration) (topics : List String)
    (nowMs : Nat) : Indexed (c.touchTopics topicTtl topics nowMs) := by
  cases topicTtl with
  | none => exact indexed
  | some =>
    exact ⟨fun name => (mem_touched topics nowMs c.topicStamps name).trans (indexed.stamped name),
      indexed.byName, indexed.byId⟩

theorem indexed_empty (c : MetadataCache) (topics : c.topics = ∅) (ids : c.topicIds = ∅)
    (names : c.nameToTopicId = ∅) (stamps : c.topicStamps = ∅) : Indexed c := by
  constructor
  · simp [stamps, topics]
  · simp [names, topicId, topics]
  · simp [ids, names]

end Index

/-! The errors -/

def CacheInput.entries : CacheInput → List MetadataTopicResponse
  | .merge response _ _ _ _ => response.topics
  | .hint _ | .touch .. | .reset _ => []

def CacheInput.report (input : CacheInput) (name : String) : Option ErrorCode :=
  ((input.entries.filter (·.name = some name)).getLast?).map (·.errorCode)

def lastReport (inputs : List CacheInput) (name : String) : Option ErrorCode :=
  inputs.foldl (fun last input => (input.report name).or last) none

theorem lastReport_concat (inputs : List CacheInput) (input : CacheInput) (name : String) :
    lastReport (inputs ++ [input]) name = (input.report name).or (lastReport inputs name) := by
  rw [lastReport, foldl_append]
  rfl

theorem topicErrors_step {c : MetadataCache} {input : CacheInput}
    (distinct : (input.entries.filterMap (·.name)).Nodup)
    (reports : input.report name = some .none ∨
      input.report name = none ∧ c.topicErrors.lookup name = none) :
    (c.step input).topicErrors.lookup name = none := by
  cases input with
  | merge response fullRefresh topicTtl now nowMs =>
    set start := c.merging fullRefresh topicTtl now nowMs
    show (response.topics.foldl c.mergeTopic start).topicErrors.lookup name = none
    rcases reports with healthy | ⟨unnamed, before⟩
    · obtain ⟨entry, last, healthy⟩ := Option.map_eq_some_iff.mp healthy
      obtain ⟨there, named⟩ := mem_filter.mp (mem_of_getLast? last)
      obtain ⟨m', -, same⟩ := of_mergeTopics (c := c) distinct there (of_decide_eq_true named) start
      rw [of_mergeTopic_healthy (of_decide_eq_true named) healthy] at same
      exact congrArg (·.2.1) same
    · have absent : name ∉ response.topics.filterMap (·.name) := fun listed => by
        obtain ⟨entry, there, named⟩ := mem_filterMap.mp listed
        rw [CacheInput.report, Option.map_eq_none_iff, List.getLast?_eq_none_iff] at unnamed
        exact not_mem_nil (unnamed ▸ mem_filter.mpr ⟨there, decide_eq_true named⟩)
      refine (congrArg (·.2.1) (of_mergeTopics_of_notMem absent start)).trans ?_
      show (c.merging fullRefresh topicTtl now nowMs).topicErrors.lookup name = none
      unfold merging
      split
      · rfl
      · rw [lookup_retain, before]
        rfl
  | hint hint =>
    rw [(indexes_hint c hint).2.2.2]
    exact reports.elim nofun (·.2)
  | touch topicTtl => cases topicTtl <;> exact reports.elim nofun (·.2)
  | reset => rfl

/-! Runs -/

def Describes (inputs : List CacheInput) (name : String) (id : TopicId) : Prop :=
  ∃ input ∈ inputs, ∃ entry ∈ input.entries,
    entry.name = some name ∧ entry.errorCode = .none ∧ entry.topicId.getD noTopicId = id

theorem topicId_step {c : MetadataCache} {input : CacheInput}
    (found : (c.step input).topicId name = some id) :
    c.topicId name = some id ∨ Describes [input] name id := by
  cases input with
  | merge =>
    obtain ⟨info, cached, rfl⟩ := Option.map_eq_some_iff.mp found
    rcases merge_lookup cached with old | ⟨entry, described, rfl⟩
    · exact .inl (by rw [topicId, old]; rfl)
    · obtain ⟨there, named⟩ := mem_filter.mp described
      simp only [Bool.and_eq_true, decide_eq_true_eq] at named
      exact .inr ⟨_, mem_singleton_self _, entry, there, named.1, named.2, rfl⟩
  | hint hint => exact .inl (topicId_hint hint name ▸ found)
  | touch =>
    rw [topicId, step, touch_topics] at found
    exact .inl found
  | reset => cases found

theorem described_of_cached (inputs : List CacheInput)
    (found : (run {} inputs).topicId name = some id) : Describes inputs name id := by
  induction inputs using List.reverseRecOn with
  | nil => cases found
  | append_singleton inputs input ih =>
    rw [run, foldl_append] at found
    rcases topicId_step found with before | ⟨input', here, described⟩
    · obtain ⟨input', there, described⟩ := ih before
      exact ⟨input', mem_append_left _ there, described⟩
    · exact ⟨input', mem_append_right _ here, described⟩

/-- If every response names a topic once, and no id is given to two names, then the topics with a
stamp are those in the cache, the two indexes hold the topics with an id and are inverse to each
other, and a topic has no error that was reported without one in the latest response naming it. -/
theorem metadata_indexes_agree (inputs : List CacheInput)
    (distinct : ∀ input ∈ inputs, (input.entries.filterMap (·.name)).Nodup)
    (once : ∀ name name' id, id ≠ noTopicId → Describes inputs name id →
      Describes inputs name' id → name = name') : Indexed (run {} inputs) ∧
      ∀ name, lastReport inputs name = some .none →
        name ∉ (run {} inputs).topicErrors := by
  -- Each snapshot's ids come from responses up to it, so one id is still one name there.
  have unique (name name' : String) (id : TopicId) (known : id ≠ noTopicId)
      (found : (run {} inputs).topicId name = some id)
      (found' : (run {} inputs).topicId name' = some id) : name = name' :=
    once name name' id known (described_of_cached inputs found) (described_of_cached inputs found')
  induction inputs using List.reverseRecOn with
  | nil => exact ⟨indexed_empty _ rfl rfl rfl rfl, nofun⟩
  | append_singleton inputs input ih =>
    have earlier (name : String) (id : TopicId) (described : Describes inputs name id) :
        Describes (inputs ++ [input]) name id := by
      obtain ⟨input', there, entry⟩ := described
      exact ⟨input', mem_append_left _ there, entry⟩
    have once' (name name' : String) (id : TopicId) (known : id ≠ noTopicId)
        (first : Describes inputs name id) (second : Describes inputs name' id) : name = name' :=
      once name name' id known (earlier name id first) (earlier name' id second)
    obtain ⟨indexed, errors⟩ := ih
      (fun input there => distinct input (mem_append_left _ there)) once'
      fun name name' id known found found' => once' name name' id known
        (described_of_cached inputs found) (described_of_cached inputs found')
    have named := distinct input (mem_append_right _ (mem_singleton_self input))
    rw [run, foldl_append] at unique ⊢
    constructor
    · cases input with
      | merge => exact indexed.merge named unique
      | hint hint => exact indexed.hint hint
      | touch topicTtl topics nowMs => exact indexed.touch topicTtl topics nowMs
      | reset => exact indexed_empty _ rfl rfl rfl rfl
    · intro name last
      rw [lastReport_concat, Option.or_eq_some_iff] at last
      refine lookup_eq_none.mp (topicErrors_step named ?_)
      exact last.imp_right fun later => ⟨later.1, lookup_eq_none.mpr (errors name later.2)⟩

def reporting (name : String) (topicId : TopicId) (errorCode : ErrorCode) : CacheInput :=
  .merge { topics := [{ errorCode, name := some name, topicId := some topicId }] } false none 0 0

def sampleReports : List CacheInput :=
  [reporting "a" 7 .none, reporting "a" 0 .leaderNotAvailable, reporting "b" 8 .none,
    reporting "a" 7 .none]

theorem sampleReports_agree :
    Indexed (run {} sampleReports) ∧
      ∀ name, lastReport sampleReports name = some .none →
        name ∉ (run {} sampleReports).topicErrors := by
  have given (name : String) (id : TopicId) (described : Describes sampleReports name id) :
      name = "a" ∧ id = 7 ∨ name = "b" ∧ id = 8 := by
    simp [Describes, sampleReports, reporting, CacheInput.entries] at described
    grind
  refine metadata_indexes_agree sampleReports (by decide +kernel) fun name name' id _ here there => ?_
  rcases given name id here with ⟨rfl, rfl⟩ | ⟨rfl, rfl⟩ <;> rcases given name' _ there with h | h <;>
    first | exact h.1.symm | exact absurd h.2 (by decide)

def sharedId : List CacheInput := [reporting "a" 7 .none, reporting "b" 7 .none]

theorem shared_id_breaks_indexes :
    (∀ input ∈ sharedId, (input.entries.filterMap (·.name)).Nodup ∧
        (input.entries.filterMap (·.topicId)).Nodup) ∧
      (run {} sharedId).nameToTopicId.lookup "a" = some 7 ∧
      (run {} sharedId).nameToTopicId.lookup "b" = some 7 ∧
      ¬ Indexed (run {} sharedId) := by
  have a : (run {} sharedId).nameToTopicId.lookup "a" = some 7 := by decide +kernel
  have b : (run {} sharedId).nameToTopicId.lookup "b" = some 7 := by decide +kernel
  refine ⟨by decide +kernel, a, b, fun indexed => ?_⟩
  have same : some "a" = some "b" := ((indexed.byId "a" 7).mpr a).symm.trans ((indexed.byId "b" 7).mpr b)
  exact absurd same (by decide)

end Krafka.Metadata
