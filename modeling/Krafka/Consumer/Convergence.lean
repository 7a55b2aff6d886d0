import Krafka.Consumer.Cover
import Krafka.Library.Lists

/-! A cooperative group settles: where every member subscribes to the same topics, the round
after a rebalance moves nothing that was given, and the one after that changes nothing. -/

namespace Krafka.Consumer

open List Function Assignments

def cooperativeRound (members : List MemberSubscription)
    (partitions : TopicMap) : Assignments :=
  withholdTransferringPartitions (assign .cooperativeSticky members partitions) members

def Alike (members : List MemberSubscription) : Prop :=
  ∀ m ∈ members, ∀ m' ∈ members, ∀ topic, m.subscribes topic = m'.subscribes topic

/-- The members come back owning what they were given, in any order and under any
generation. -/
structure Reports (members : List MemberSubscription) (assignments : Assignments)
    (members' : List MemberSubscription) : Prop where
  ids : (members'.map (·.memberId)).Perm (members.map (·.memberId))
  topics : ∀ m ∈ members, ∀ m' ∈ members', m'.memberId = m.memberId →
    ∀ topic, m'.subscribes topic = m.subscribes topic
  owned : ∀ m' ∈ members', ∀ tp, tp ∈ m'.owned ↔ tp ∈ given assignments m'.memberId

/-! Counts -/

namespace Holdings

variable {members : List MemberSubscription} {all : List PartitionKey} {h : Holdings members}
  {kept : Place members → PartitionSet}

theorem mem_byCount (h : Holdings members) (i : Place members) : i ∈ h.byCount :=
  (perm_insertionSort _ _).mem_iff.mpr (mem_finRange i)

theorem count_le_of_key_le {i j : Place members} (below : h.key i ≤ h.key j) :
    h.count i ≤ h.count j := by
  rcases Prod.Lex.toLex_le_toLex.mp below with less | ⟨same, -⟩
  · exact less.le
  · exact same.le

theorem search_of_level (level : Levels.Level h.count) : h.search kept = none := by
  refine List.findSome?_eq_none_iff.mpr fun to_ _ => ?_
  have nobody : (h.byCount.reverse.takeWhile fun from_ => h.count to_ + 2 ≤ h.count from_) = [] := by
    rw [takeWhile_eq_nil_iff]
    intro filled two
    have near := level (h.byCount.reverse.get ⟨0, filled⟩) to_
    have far : h.count to_ + 2 ≤ h.count (h.byCount.reverse.get ⟨0, filled⟩) := by simpa using two
    omega
  rw [nobody]
  rfl

theorem byCount_reverse_sorted (h : Holdings members) :
    h.byCount.reverse.Pairwise fun i j => h.count j ≤ h.count i := by
  rw [pairwise_reverse]
  exact (pairwise_insertionSort _ _).imp count_le_of_key_le

theorem near_of_search_none (stuck : h.search kept = none) {from_ to_ : Place members}
    {tp : PartitionKey} (held : tp ∈ (h.assigned from_).keys)
    (takes : (members.get to_).subscribes tp.1) : h.count from_ ≤ h.count to_ + 1 := by
  by_contra far
  have apart : h.count to_ + 2 ≤ h.count from_ := by omega
  have inner := List.findSome?_eq_none_iff.mp stuck to_ (h.mem_byCount to_)
  have reached : from_ ∈ h.byCount.reverse.takeWhile fun i => h.count to_ + 2 ≤ h.count i := by
    refine Lists.mem_takeWhile (h.byCount_reverse_sorted.imp fun less two => ?_)
      (mem_reverse.mpr (h.mem_byCount from_)) (by simpa using apart)
    exact decide_eq_true ((of_decide_eq_true two).trans less)
  have none := Option.map_eq_none_iff.mp (List.findSome?_eq_none_iff.mp inner from_ reached)
  have nothing := filter_eq_nil_iff.mp (argmax_eq_none.mp none)
  exact nothing tp held takes

theorem exists_held {i : Place members} (some : 0 < h.count i) : ∃ tp, tp ∈ (h.assigned i).keys :=
  exists_mem_of_length_pos some

theorem level_of_search_none
    (common : ∀ i tp, tp ∈ (h.assigned i).keys → ∀ j, (members.get j).subscribes tp.1)
    (stuck : h.search kept = none) : Levels.Level h.count := by
  intro i to_
  rcases Nat.eq_zero_or_pos (h.count i) with none | some
  · omega
  · obtain ⟨tp, held⟩ := exists_held some
    exact near_of_search_none stuck held (common i tp held to_)

theorem search_balance (h : Holdings members) (kept : Place members → PartitionSet) :
    (h.balance kept).search kept = none := by
  induction h using Holdings.balance.induct kept with
  | case1 h from_ to_ tp found => rwa [balance_of_some found]
  | case2 h stuck => rwa [balance_of_none stuck]

theorem fills_foldl (tps : List PartitionKey) (listed : ∀ tp ∈ tps, tp ∈ all)
    (common : ∀ tp ∈ tps, ∀ j : Place members, (members.get j).subscribes tp.1 = true)
    (wanted : ∀ tp ∈ tps, ∃ i : Place members, (members.get i).subscribes tp.1 = true)
    (sound : h.Sound all) : Relation.ReflTransGen Levels.Fill h.count (tps.foldl fill h).count := by
  induction tps generalizing h with
  | nil => exact .refl
  | cons tp tps ih =>
    have rest {h : Holdings members} (sound : h.Sound all) :
        Relation.ReflTransGen Levels.Fill h.count (tps.foldl fill h).count :=
      ih (fun tp mem => listed tp (mem_cons_of_mem _ mem))
        (fun tp mem => common tp (mem_cons_of_mem _ mem))
        (fun tp mem => wanted tp (mem_cons_of_mem _ mem)) sound
    rw [foldl_cons]
    rcases h.fill_cases tp (wanted tp mem_cons_self) with
      ⟨-, same⟩ | ⟨i, free, subscribed, least, same⟩
    · rw [same]
      exact rest sound
    · have fresh := lookup_eq_none free
      have raise : Levels.Fill h.count (h.place tp i).count := by
        refine ⟨i, fun j => count_le_of_key_le (least j (common tp mem_cons_self j)), ?_⟩
        funext j
        by_cases here : j = i
        · subst here
          rw [update_self, count_place_self sound fresh]
        · rw [update_of_ne here, count_place_ne here]
      rw [same]
      exact .head raise (rest (sound.place fresh (listed tp mem_cons_self) subscribed))

theorem sum_count (sound : h.Sound all) : ∑ i, h.count i = h.owner.keys.length := by
  have perm : ((List.finRange members.length).flatMap fun i => (h.assigned i).keys).Perm
      h.owner.keys := by
    refine (perm_ext_iff_of_nodup ?_ (AList.keys_nodup _)).mpr fun tp => ?_
    · refine nodup_flatMap.mpr ⟨fun i _ => (h.assigned i).nodup, ?_⟩
      refine (nodup_finRange _).imp fun {i j} other tp one two => ?_
      have both := ((sound.agrees tp i).mpr one).symm.trans ((sound.agrees tp j).mpr two)
      exact other (Option.some.inj both)
    · rw [← AList.mem_keys, ← AList.lookup_isSome, Option.isSome_iff_exists, mem_flatMap]
      simp [sound.agrees]
  rw [← perm.length_eq, length_flatMap, Fin.sum_univ_def]
  rfl

theorem sum_count_of_owned (sound : h.Sound all) (distinct : all.Nodup)
    (owned : ∀ tp ∈ all, tp ∈ h.owner) : ∑ i, h.count i = all.length := by
  rw [sum_count sound]
  refine ((perm_ext_iff_of_nodup (AList.keys_nodup _) distinct).mpr fun tp => ?_).length_eq
  rw [← AList.mem_keys]
  refine ⟨fun mem => ?_, owned tp⟩
  obtain ⟨i, owner⟩ := AList.mem_iff_lookup.mp mem
  exact (sound.within tp i ((sound.agrees tp i).mp owner)).1

end Holdings

/-! One round -/

section Round

variable {members : List MemberSubscription} {partitions : TopicMap}
  {topics : Topics}

variable {i : Place members}

theorem place_unique (distinct : (members.map (·.memberId)).Nodup) {j : Place members}
    (same : (members.get i).memberId = (members.get j).memberId) : i = j := by
  have lookup (k : Place members) :
      (members.map (·.memberId)).get (k.cast (length_map _).symm) =
        (members.get k).memberId := by simp
  have cast := nodup_iff_injective_get.mp distinct
    ((lookup i).trans (same.trans (lookup j).symm))
  exact Fin.cast_injective _ cast

def ownedAt (owners : Owners members) (i : Place members) :
    List PartitionKey :=
  (owners.filter fun o => o.2 = i).map (·.1)

theorem given_place (distinct : (members.map (·.memberId)).Nodup)
    (owners : Owners members) (i : Place members) :
    (given (collect members owners) (members.get i).memberId).Perm
      (ownedAt owners i) := by
  have same : ownedBy members owners (members.get i).memberId = ownedAt owners i := by
    refine congrArg (List.map _) (filter_congr fun o _ => ?_)
    exact decide_eq_decide.mpr ⟨place_unique distinct, fun same => by rw [same]⟩
  exact same ▸ given_collect members owners _

variable {tp : PartitionKey}

theorem mem_given_sticky (distinct : (members.map (·.memberId)).Nodup) :
    tp ∈ given (collect members (stickyOwners members topics)) (members.get i).memberId ↔
      (stickyBalanced members topics).owner.lookup tp = some i := by
  rw [(given_place distinct _ i).mem_iff, ← mem_stickyOwners]
  simp [ownedAt]

theorem length_given_sticky (distinct : (members.map (·.memberId)).Nodup)
    (wanted : Wanted members topics) (i : Place members) :
    (given (collect members (stickyOwners members topics))
        (members.get i).memberId).length = (stickyBalanced members topics).count i := by
  have keys : (stickyOwners members topics).map (·.1) =
      (stickyBalanced members topics).owner.keys := by
    simp [stickyOwners, AList.keys, List.keys, Function.comp_def]
  have once : (ownedAt (stickyOwners members topics) i).Nodup :=
    (keys ▸ AList.keys_nodup _ : ((stickyOwners members topics).map (·.1)).Nodup).sublist
      (filter_sublist.map _)
  have perm := given_place distinct (stickyOwners members topics) i
  refine (perm.trans ((perm_ext_iff_of_nodup once (TreeSet.nodup _)).mpr fun tp => ?_)).length_eq
  rw [← perm.mem_iff, mem_given_sticky distinct, (stickyBalanced_sound wanted).1.agrees]

theorem length_given_assign (distinct : (members.map (·.memberId)).Nodup) (i : Place members) :
    (given (assign .cooperativeSticky members partitions) (members.get i).memberId).length =
      (stickyBalanced members (sortedTopics members partitions)).count i :=
  length_given_sticky distinct (wanted_sortedTopics members partitions) i

theorem mem_given_balanced (distinct : (members.map (·.memberId)).Nodup) :
    tp ∈ given (assign .cooperativeSticky members partitions) (members.get i).memberId ↔
      tp ∈ ((stickyBalanced members (sortedTopics members partitions)).assigned i).keys :=
  (mem_given_sticky distinct).trans
    ((stickyBalanced_sound (wanted_sortedTopics members partitions)).1.agrees tp i)

theorem Alike.common (alike : Alike members)
    (assignable : Assignable members partitions tp) (i : Place members) :
    (members.get i).subscribes tp.1 := by
  obtain ⟨⟨m, listed, subscribed⟩, -⟩ := assignable
  rw [alike _ (get_mem _ _) m listed]
  exact subscribed

theorem stickyBalanced_level (alike : Alike members) :
    Levels.Level (stickyBalanced members (sortedTopics members partitions)).count := by
  refine Holdings.level_of_search_none (fun i tp held j => ?_) (Holdings.search_balance _ _)
  have sound := (stickyBalanced_sound (wanted_sortedTopics members partitions)).1
  exact alike.common (mem_allPartitions_sortedTopics.mp (sound.within tp i held).1) j

theorem given_unique {strategy : PartitionAssignmentStrategy}
    {one two : String} (mem : tp ∈ given (assign strategy members partitions) one)
    (mem' : tp ∈ given (assign strategy members partitions) two) : one = two := by
  obtain ⟨i, owner, rfl⟩ := mem_given_assign.mp mem
  obtain ⟨j, owner', rfl⟩ := mem_given_assign.mp mem'
  rw [owner_unique owner owner']

theorem given_cooperativeRound {memberId : String}
    (mem : tp ∈ given (cooperativeRound members partitions) memberId) :
    tp ∈ given (assign .cooperativeSticky members partitions) memberId :=
  (mem_given_withhold.mp mem).1

end Round

/-! The next round -/

section Next

variable {members members' : List MemberSubscription}
  {partitions : TopicMap} {assignments : Assignments}

namespace Reports

theorem distinct (reports : Reports members assignments members')
    (distinct : (members.map (·.memberId)).Nodup) : (members'.map (·.memberId)).Nodup :=
  reports.ids.nodup_iff.mpr distinct

theorem before (reports : Reports members assignments members') {m' : MemberSubscription}
    (listed : m' ∈ members') : ∃ m ∈ members, m'.memberId = m.memberId := by
  have mem := reports.ids.mem_iff.mp (mem_map_of_mem (f := (·.memberId)) listed)
  obtain ⟨m, listed, same⟩ := mem_map.mp mem
  exact ⟨m, listed, same.symm⟩

theorem after (reports : Reports members assignments members') {m : MemberSubscription}
    (listed : m ∈ members) : ∃ m' ∈ members', m'.memberId = m.memberId := by
  have mem := reports.ids.mem_iff.mpr (mem_map_of_mem (f := (·.memberId)) listed)
  obtain ⟨m', listed, same⟩ := mem_map.mp mem
  exact ⟨m', listed, same⟩

theorem alike (reports : Reports members assignments members') (alike : Alike members) :
    Alike members' := by
  intro m' listed n' listed' topic
  obtain ⟨m, mem, same⟩ := reports.before listed
  obtain ⟨n, mem', same'⟩ := reports.before listed'
  rw [reports.topics m mem m' listed same, reports.topics n mem' n' listed' same']
  exact alike m mem n mem' topic

variable {tp : PartitionKey}

theorem assignable (reports : Reports members assignments members') :
    Assignable members' partitions tp ↔ Assignable members partitions tp := by
  refine and_congr ⟨?_, ?_⟩ Iff.rfl
  · rintro ⟨m', listed, subscribed⟩
    obtain ⟨m, mem, same⟩ := reports.before listed
    exact ⟨m, mem, by rwa [← reports.topics m mem m' listed same]⟩
  · rintro ⟨m, listed, subscribed⟩
    obtain ⟨m', mem, same⟩ := reports.after listed
    exact ⟨m', mem, by rwa [reports.topics m listed m' mem same]⟩

variable (reports : Reports members (cooperativeRound members partitions) members')
  (distinct : (members.map (·.memberId)).Nodup) (alike : Alike members)

include reports distinct

theorem claims {i : Place members'} :
    (resolveClaims members').lookup tp = some i ↔
      tp ∈ given (cooperativeRound members partitions) (members'.get i).memberId := by
  rw [← reports.owned _ (get_mem _ _)]
  constructor
  · exact owned_of_resolveClaims
  · intro owned
    obtain ⟨j, picked⟩ := exists_resolveClaims (get_mem _ _) owned
    have owned' := owned_of_resolveClaims picked
    rw [reports.owned _ (get_mem _ _)] at owned owned'
    have same := given_unique (given_cooperativeRound owned') (given_cooperativeRound owned)
    rw [picked, place_unique (reports.distinct distinct) same]

theorem kept {i : Place members'} :
    tp ∈ ((stickyKept members' (sortedTopics members' partitions)).assigned i).keys ↔
      tp ∈ given (cooperativeRound members partitions) (members'.get i).memberId := by
  obtain ⟨sound, owners⟩ := stickyKept_sound members' (sortedTopics members' partitions)
  rw [← sound.agrees, owners, Option.filter_eq_some_iff, reports.claims distinct]
  refine and_iff_left_of_imp fun given => ?_
  obtain ⟨j, owner, same⟩ := mem_given_assign.mp (given_cooperativeRound given)
  have assignable := assignable_of_owner owner
  have subscribed := (strategyOwners_shares .cooperativeSticky members partitions).subscribed _ owner
  rw [Bool.and_eq_true, decide_eq_true_eq, mem_allPartitions_sortedTopics,
    reports.assignable, reports.topics _ (get_mem _ _) _ (get_mem _ _) same.symm]
  exact ⟨assignable, subscribed⟩

include alike

theorem filled_level :
    Levels.Level (stickyFilled members' (sortedTopics members' partitions)).count := by
  -- the counts that the round before reached are a level filling above what was kept
  let goal (i : Place members') : Nat := (given
    (assign .cooperativeSticky members partitions) (members'.get i).memberId).length
  have counted (i : Place members') : ∃ j : Place members,
      goal i = (stickyBalanced members (sortedTopics members partitions)).count j := by
    obtain ⟨m, listed, same⟩ := reports.before (get_mem members' i)
    obtain ⟨j, rfl⟩ := get_of_mem listed
    exact ⟨j, by rw [← length_given_assign distinct, ← same]⟩
  have level : Levels.Level goal := by
    intro i k
    obtain ⟨j, one⟩ := counted i
    obtain ⟨l, two⟩ := counted k
    rw [one, two]
    exact stickyBalanced_level alike j l
  have start (i : Place members') :
      (stickyKept members' (sortedTopics members' partitions)).count i ≤ goal i := by
    refine (subperm_of_subset (TreeSet.nodup _) fun tp held => ?_).length_le
    exact given_cooperativeRound ((reports.kept distinct).mp held)
  have wanted := wanted_sortedTopics members' partitions
  obtain ⟨sound, -, owned⟩ := stickyFilled_sound wanted
  have fills := Holdings.fills_foldl (allPartitions (sortedTopics members' partitions))
    (fun _ mem => mem)
    (fun tp mem => (reports.alike alike).common (mem_allPartitions_sortedTopics.mp mem))
    (fun _ => wanted_partition wanted) (stickyKept_sound members' (sortedTopics members' partitions)).1
  refine Levels.level_of_fills level start fills ?_
  have here : ∑ i, (stickyFilled members' (sortedTopics members' partitions)).count i =
      (allPartitions (sortedTopics members' partitions)).length :=
    Holdings.sum_count_of_owned sound nodup_allPartitions_sortedTopics owned
  have there : ∑ i, goal i = (allPartitions (sortedTopics members partitions)).length := by
    have count (ms : List MemberSubscription) :
        ∑ i : Place ms, (given (assign .cooperativeSticky members partitions)
            (ms.get i).memberId).length =
          ((ms.map (·.memberId)).map fun memberId => (given
            (assign .cooperativeSticky members partitions) memberId).length).sum := by
      have all := congrArg (List.map fun m => (given
        (assign .cooperativeSticky members partitions) m.memberId).length) (map_get_finRange ms)
      rw [map_map] at all
      rw [Fin.sum_univ_def, map_map]
      exact congrArg List.sum all
    obtain ⟨sound, owned⟩ :=
      stickyBalanced_sound (wanted_sortedTopics members partitions)
    rw [count members', (reports.ids.map _).sum_eq, ← count members]
    simp only [length_given_assign distinct]
    exact Holdings.sum_count_of_owned sound nodup_allPartitions_sortedTopics fun tp =>
      (owned tp).mpr
  rw [here, there]
  refine ((perm_ext_iff_of_nodup nodup_allPartitions_sortedTopics
    nodup_allPartitions_sortedTopics).mpr fun tp => ?_).length_eq
  rw [mem_allPartitions_sortedTopics, mem_allPartitions_sortedTopics, reports.assignable]

theorem balanced_eq_filled :
    stickyBalanced members' (sortedTopics members' partitions) =
      stickyFilled members' (sortedTopics members' partitions) :=
  Holdings.balance_of_none (Holdings.search_of_level (reports.filled_level distinct alike))

theorem keeps {memberId : String}
    (mem : tp ∈ given (cooperativeRound members partitions) memberId) :
    tp ∈ given (assign .cooperativeSticky members' partitions) memberId := by
  obtain ⟨j, -, rfl⟩ := mem_given_assign.mp (given_cooperativeRound mem)
  obtain ⟨m', listed, same⟩ := reports.after (get_mem members j)
  obtain ⟨i, rfl⟩ := get_of_mem listed
  rw [← same] at mem ⊢
  have held := (reports.kept distinct).mpr mem
  have sound := (stickyKept_sound members' (sortedTopics members' partitions)).1
  obtain ⟨sound', keeps, -⟩ := stickyFilled_sound (wanted_sortedTopics members' partitions)
  rw [mem_given_balanced (reports.distinct distinct), reports.balanced_eq_filled distinct alike]
  exact (sound'.agrees tp i).mp (keeps tp i ((sound.agrees tp i).mpr held))

theorem withholds_nothing {memberId : String} :
    tp ∈ given (cooperativeRound members' partitions) memberId ↔
      tp ∈ given (assign .cooperativeSticky members' partitions) memberId := by
  refine mem_given_withhold.trans (and_iff_left_of_imp fun mem owner picked => ?_)
  have kept := reports.keeps distinct alike ((reports.claims distinct).mp picked)
  exact given_unique kept mem

theorem level {one two : String} (listed : one ∈ members'.map (·.memberId))
    (listed' : two ∈ members'.map (·.memberId)) :
    (given (assign .cooperativeSticky members' partitions) one).length ≤
      (given (assign .cooperativeSticky members' partitions) two).length + 1 := by
  obtain ⟨m, mem, rfl⟩ := mem_map.mp listed
  obtain ⟨n, mem', rfl⟩ := mem_map.mp listed'
  obtain ⟨i, rfl⟩ := get_of_mem mem
  obtain ⟨j, rfl⟩ := get_of_mem mem'
  rw [length_given_assign (reports.distinct distinct),
    length_given_assign (reports.distinct distinct)]
  exact stickyBalanced_level (reports.alike alike) i j

end Reports

end Next

/-- A cooperative group of members with the same subscription settles in two rounds: the second
keeps what the first gave, withholds nothing, gives every partition and leaves level counts;
the third gives what the second gave. -/
theorem cooperative_group_settles (members second third : List MemberSubscription)
    (partitions : AList fun _ : String => List Int)
    (distinct : (members.map (·.memberId)).Nodup) (alike : Alike members)
    (reports : Reports members (cooperativeRound members partitions) second)
    (reports' : Reports second (cooperativeRound second partitions) third) :
    let two := assign .cooperativeSticky second partitions
    (∀ memberId tp, tp ∈ given (cooperativeRound members partitions) memberId →
      tp ∈ given two memberId) ∧
    (∀ memberId tp, tp ∈ given (cooperativeRound second partitions) memberId ↔
      tp ∈ given two memberId) ∧
    (∀ tp, Assignable members partitions tp → ∃ m ∈ second,
      tp ∈ given two m.memberId) ∧
    (∀ m ∈ second, ∀ m' ∈ second, (given two m.memberId).length ≤
      (given two m'.memberId).length + 1) ∧
    ∀ memberId tp, tp ∈ given (cooperativeRound third partitions) memberId ↔
      tp ∈ given two memberId := by
  have distinct' := reports.distinct distinct
  have alike' := reports.alike alike
  have whole {tp : PartitionKey} (assignable : Assignable members partitions tp) : ∃ m ∈ second,
      tp ∈ given (assign .cooperativeSticky second partitions) m.memberId := by
    obtain ⟨i, owner⟩ := owner_exists .cooperativeSticky (reports.assignable.mpr assignable)
    exact ⟨_, get_mem _ _, mem_given_assign.mpr ⟨i, owner, rfl⟩⟩
  refine ⟨fun _ _ => reports.keeps distinct alike,
    fun _ _ => reports.withholds_nothing distinct alike, fun _ => whole,
    fun m listed m' listed' => reports.level distinct alike (mem_map_of_mem listed)
      (mem_map_of_mem listed'), fun memberId tp => ?_⟩
  rw [reports'.withholds_nothing distinct' alike']
  have stays {memberId : String} {tp : PartitionKey}
      (mem : tp ∈ given (assign .cooperativeSticky second partitions) memberId) :
      tp ∈ given (assign .cooperativeSticky third partitions) memberId :=
    reports'.keeps distinct' alike' ((reports.withholds_nothing distinct alike).mpr mem)
  refine ⟨fun mem => ?_, stays⟩
  -- the second round gave it to somebody, who keeps it
  obtain ⟨i, owner, -⟩ := mem_given_assign.mp mem
  have assignable := reports.assignable.mp (reports'.assignable.mp (assignable_of_owner owner))
  obtain ⟨m, -, before⟩ := whole assignable
  rw [given_unique mem (stays before)]
  exact before

def report (assignments : Assignments) (generation : Int) (members : List MemberSubscription) :
    List MemberSubscription :=
  members.map fun m => { m with owned := given assignments m.memberId, generation }

theorem reports_report {members : List MemberSubscription}
    (distinct : (members.map (·.memberId)).Nodup) (assignments : Assignments) (generation : Int) :
    Reports members assignments (report assignments generation members) := by
  have ids : (report assignments generation members).map (·.memberId) =
      members.map (·.memberId) := by
    simp [report, Function.comp_def]
  refine ⟨ids ▸ List.Perm.refl _, fun m listed m' listed' same topic => ?_, fun m' listed tp => ?_⟩
  · obtain ⟨n, mem, rfl⟩ := mem_map.mp listed'
    have one : n = m := inj_on_of_nodup_map distinct mem listed same
    subst one
    rfl
  · obtain ⟨n, -, rfl⟩ := mem_map.mp listed
    rfl

def sampleMember (memberId : String) (owned : List PartitionKey) : MemberSubscription :=
  { memberId, topics := KeySet.empty.insert "t", owned, generation := 3 }

def sampleGroup : List MemberSubscription :=
  [sampleMember "a" [("t", 0), ("t", 1), ("t", 2), ("t", 3)], sampleMember "b" [("t", 3)]]

def samplePartitions : TopicMap := AList.singleton "t" [3, 1, 0, 2]

def sampleSecond : List MemberSubscription :=
  report (cooperativeRound sampleGroup samplePartitions) 4 sampleGroup

def sampleThird : List MemberSubscription :=
  report (cooperativeRound sampleSecond samplePartitions) 5 sampleSecond

theorem sampleGroup_alike : Alike sampleGroup := by
  intro m listed m' listed' topic
  have same : ∀ m ∈ sampleGroup, m.topics = KeySet.empty.insert "t" := by
    simp [sampleGroup, sampleMember]
  rw [MemberSubscription.subscribes, MemberSubscription.subscribes, same m listed, same m' listed']

theorem sampleGroup_settles :
    (sampleGroup.map (·.memberId)).Nodup ∧ Alike sampleGroup ∧
      ∀ memberId tp,
        tp ∈ given (cooperativeRound sampleThird samplePartitions) memberId ↔
          tp ∈ given (assign .cooperativeSticky sampleSecond samplePartitions)
            memberId := by
  have distinct : (sampleGroup.map (·.memberId)).Nodup := by decide
  have reports : Reports sampleGroup (cooperativeRound sampleGroup samplePartitions) sampleSecond :=
    reports_report distinct _ 4
  have reports' : Reports sampleSecond (cooperativeRound sampleSecond samplePartitions)
      sampleThird := reports_report (reports.distinct distinct) _ 5
  exact ⟨distinct, sampleGroup_alike, (cooperative_group_settles sampleGroup sampleSecond
    sampleThird samplePartitions distinct sampleGroup_alike reports reports').2.2.2.2⟩

end Krafka.Consumer
