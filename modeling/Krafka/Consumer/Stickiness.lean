import Krafka.Consumer.Convergence

/-! How few partitions the cooperative-sticky assignor moves. Where all members subscribe to the same
topics, partitions go from a member that has most to one that has least, and only claimed ones do:
what was filled in never made a member rich. -/

namespace Krafka.Consumer

open Function Finset Assignments

namespace Holdings

variable {members : List MemberSubscription} {all : List PartitionKey} {h : Holdings members}
  {kept : Place members → PartitionSet} {from_ to_ : Place members} {tp : PartitionKey}

def Spare (kept : Place members → PartitionSet) (h : Holdings members) (i : Place members) : Prop :=
  ∃ tp ∈ (h.assigned i).keys, tp ∉ (kept i).keys

def Lost (kept : Place members → PartitionSet) (h : Holdings members) (i : Place members) : Prop :=
  ∃ tp ∈ (kept i).keys, tp ∉ (h.assigned i).keys

structure Frugal (kept : Place members → PartitionSet) (h : Holdings members) : Prop where
  spare : ∀ i, h.Spare kept i → ∀ l, h.count i ≤ h.count l + 1
  lost : ∀ i, h.Lost kept i → ∀ l, h.count l ≤ h.count i + 1
  order : ∀ i j, h.Lost kept i → h.Spare kept j → h.count j ≤ h.count i
  apart : ∀ i, h.Lost kept i → ¬ h.Spare kept i

/-! Moves -/

theorem count_move (sound : h.Sound all) (other : from_ ≠ to_)
    (held : tp ∈ (h.assigned from_).keys) (l : Place members) :
    (h.move from_ to_ tp).count l =
      if l = to_ then h.count to_ + 1 else if l = from_ then h.count from_ - 1 else h.count l := by
  have fresh : tp ∉ (h.assigned to_).keys := fun there =>
    other (Option.some.inj (((sound.agrees tp from_).mpr held).symm.trans
      ((sound.agrees tp to_).mpr there)))
  split
  · rename_i here
    subst here
    simp only [move, count, update_self, update_of_ne other.symm]
    exact TreeSet.len_insert fresh
  · rename_i elsewhere
    split
    · rename_i here
      subst here
      have given := count_move_from other held
      omega
    · rename_i apart
      simp [move, count, update_of_ne elsewhere, update_of_ne apart]

theorem Frugal.move (frugal : h.Frugal kept) (sound : h.Sound all)
    (held : tp ∈ (h.assigned from_).keys) (wide : h.count to_ + 2 ≤ h.count from_)
    (least : ∀ l, h.count to_ ≤ h.count l) (most : ∀ l, h.count l ≤ h.count from_) :
    (h.move from_ to_ tp).Frugal kept := by
  have other : from_ ≠ to_ := by
    rintro rfl
    omega
  have counts := count_move sound other held
  have poor : ¬ h.Spare kept from_ := fun spare => by
    have near := frugal.spare from_ spare to_
    omega
  have rich {i : Place members} (lost : h.Lost kept i) : i ≠ to_ := by
    rintro rfl
    have near := frugal.lost i lost from_
    omega
  have spare {j : Place members} (new : (h.move from_ to_ tp).Spare kept j) :
      j = to_ ∨ j ≠ from_ ∧ h.Spare kept j := by
    obtain ⟨tp', has, unkept⟩ := new
    rcases (mem_move other).mp has with ⟨here, -⟩ | ⟨had, -⟩
    · exact .inl here
    · refine .inr ⟨?_, tp', had, unkept⟩
      rintro rfl
      exact poor ⟨tp', had, unkept⟩
  have lost {i : Place members} (new : (h.move from_ to_ tp).Lost kept i) :
      i = from_ ∨ h.Lost kept i := by
    obtain ⟨tp', keeps, gone⟩ := new
    by_cases had : tp' ∈ (h.assigned i).keys
    · by_contra neither
      refine gone ((mem_move other).mpr (.inr ⟨had, fun moved => neither (.inl moved.1)⟩))
    · exact .inr ⟨tp', keeps, had⟩
  refine ⟨fun j new l => ?_, fun i new l => ?_, fun i j new new' => ?_, fun i new new' => ?_⟩
  · have low := least l
    rw [counts, counts]
    rcases spare new with rfl | ⟨away, old⟩
    · split_ifs <;> first | contradiction | omega
    · have near := frugal.spare j old l
      have near' := frugal.spare j old to_
      split_ifs <;> first | contradiction | omega
  · have high := most l
    rw [counts, counts]
    rcases lost new with rfl | old
    · split_ifs <;> first | contradiction | omega
    · have near := frugal.lost i old l
      have near' := frugal.lost i old from_
      have away := rich old
      split_ifs <;> first | contradiction | omega
  · rw [counts, counts]
    rcases lost new with rfl | old <;> rcases spare new' with rfl | ⟨away, old'⟩
    · split_ifs <;> first | contradiction | omega
    · have near := frugal.spare j old' to_
      split_ifs <;> first | contradiction | omega
    · have near := frugal.lost i old from_
      have away := rich old
      split_ifs <;> first | contradiction | omega
    · have below := frugal.order i j old old'
      have near := frugal.spare j old' to_
      have near' := frugal.lost i old from_
      have away := rich old
      split_ifs <;> first | contradiction | omega
  · rcases lost new with rfl | old <;> rcases spare new' with rfl | ⟨away, old'⟩
    · exact other rfl
    · exact away rfl
    · exact rich old rfl
    · exact frugal.apart i old old'

theorem extremes_of_search
    (common : ∀ i tp, tp ∈ (h.assigned i).keys → ∀ j, (members.get j).subscribes tp.1)
    (found : h.search kept = some (from_, to_, tp)) :
    (∀ l, h.count to_ ≤ h.count l) ∧ ∀ l, h.count l ≤ h.count from_ := by
  have wide := (search_eq_some found).1
  cases order : h.byCount with
  | nil =>
    have listed := h.mem_byCount to_
    rw [order] at listed
    cases listed
  | cons first rest =>
    cases back : h.byCount.reverse with
    | nil => simp [order] at back
    | cons last =>
      have least (l : Place members) : h.count first ≤ h.count l := by
        have sorted : (first :: rest).Pairwise fun i j => h.count i ≤ h.count j :=
          order ▸ (List.pairwise_insertionSort _ _).imp count_le_of_key_le
        rcases List.mem_cons.mp (order ▸ h.mem_byCount l) with rfl | later
        · exact le_rfl
        · exact List.rel_of_pairwise_cons sorted later
      have most (l : Place members) : h.count l ≤ h.count last := by
        have sorted := back ▸ h.byCount_reverse_sorted
        rcases List.mem_cons.mp (back ▸ List.mem_reverse.mpr (h.mem_byCount l)) with rfl | later
        · exact le_rfl
        · exact List.rel_of_pairwise_cons sorted later
      have far : h.count first + 2 ≤ h.count last := by
        have low := least to_
        have high := most from_
        omega
      obtain ⟨given, picked⟩ : ∃ tp', h.candidate kept last first = some tp' := by
        obtain ⟨tp', held⟩ := exists_held (h := h) (i := last) (by omega)
        refine Option.ne_none_iff_exists'.mp fun none => ?_
        have nothing := List.filter_eq_nil_iff.mp (List.argmax_eq_none.mp none)
        exact nothing tp' held (common last tp' held first)
      have chosen : h.search kept = some (last, first, given) := by
        rw [search, order, List.findSome?_cons, ← order, back,
          List.takeWhile_cons_of_pos (by simpa using far), List.findSome?_cons, picked]
        rfl
      cases chosen.symm.trans found
      exact ⟨least, most⟩

theorem Frugal.balance (frugal : h.Frugal kept) (sound : h.Sound all)
    (common : ∀ tp ∈ all, ∀ j : Place members, (members.get j).subscribes tp.1 = true) :
    (h.balance kept).Frugal kept := by
  induction h using Holdings.balance.induct kept with
  | case1 h from_ to_ tp found _ ih =>
    obtain ⟨wide, held, subscribed⟩ := search_eq_some found
    have other : from_ ≠ to_ := by
      rintro rfl
      omega
    obtain ⟨least, most⟩ := extremes_of_search
      (fun i tp held => common tp (sound.within tp i held).1) found
    rw [balance_of_some found]
    exact ih (frugal.move sound held wide least most) (sound.move other held subscribed)
  | case2 h stuck =>
    rw [balance_of_none stuck]
    exact frugal

/-! Filling -/

theorem spare_foldl_fill (tps : List PartitionKey) (listed : ∀ tp ∈ tps, tp ∈ all)
    (common : ∀ tp ∈ all, ∀ j : Place members, (members.get j).subscribes tp.1 = true)
    (wanted : ∀ tp ∈ tps, ∃ i : Place members, (members.get i).subscribes tp.1 = true)
    (sound : h.Sound all) (spare : ∀ i, h.Spare kept i → ∀ l, h.count i ≤ h.count l + 1) :
    ∀ i, (tps.foldl fill h).Spare kept i →
      ∀ l, (tps.foldl fill h).count i ≤ (tps.foldl fill h).count l + 1 := by
  induction tps generalizing h with
  | nil => exact spare
  | cons tp tps ih =>
    have here := List.mem_cons_self (a := tp) (l := tps)
    have listed' : ∀ tp ∈ tps, tp ∈ all := fun tp mem => listed tp (List.mem_cons_of_mem _ mem)
    have wanted' := fun tp mem => wanted tp (List.mem_cons_of_mem _ mem)
    rw [List.foldl_cons]
    rcases h.fill_cases tp (wanted tp here) with ⟨-, same⟩ | ⟨i, free, subscribed, least, same⟩
    · rw [same]
      exact ih listed' wanted' sound spare
    · have fresh := lookup_eq_none free
      rw [same]
      refine ih listed' wanted' (sound.place fresh (listed tp here) subscribed) fun j new l => ?_
      have lowest (l : Place members) : h.count i ≤ h.count l :=
        count_le_of_key_le (least l (common tp (listed tp here) l))
      have counts (l : Place members) :
          (h.place tp i).count l = if l = i then h.count i + 1 else h.count l := by
        split
        · rename_i own
          rw [own, count_place_self sound fresh]
        · rename_i own
          exact count_place_ne own
      have low := lowest l
      rw [counts, counts]
      by_cases own : j = i
      · rw [if_pos own]
        split_ifs <;> omega
      · obtain ⟨tp', has, unkept⟩ := new
        have old := (mem_place.mp has).resolve_left fun new => own new.1
        have near := spare j ⟨tp', old, unkept⟩
        have here := near i
        have there := near l
        rw [if_neg own]
        split_ifs <;> omega

end Holdings

/-! The work of a group -/

section Work

variable (members : List MemberSubscription) (topics : Topics)

def wantedTopics : Topics :=
  topics.filter fun t => members.any (·.subscribes t.1)

def work : Finset PartitionKey := (allPartitions (wantedTopics members topics)).toFinset

variable {members topics}

theorem allPartitions_wantedTopics : allPartitions (wantedTopics members topics) =
    (allPartitions topics).filter fun tp => members.any (·.subscribes tp.1) := by
  induction topics with
  | nil => rfl
  | cons t topics ih =>
    simp only [allPartitions, wantedTopics] at ih ⊢
    rw [List.flatMap_cons, List.filter_append, ← ih, List.filter_map]
    cases wanted : members.any (·.subscribes t.1) <;> simp [Function.comp_def, wanted]

theorem wanted_wantedTopics : Wanted members (wantedTopics members topics) := by
  intro t listed
  obtain ⟨m, mem, subscribed⟩ := List.any_eq_true.mp (List.mem_filter.mp listed).2
  obtain ⟨i, rfl⟩ := List.get_of_mem mem
  exact ⟨i, subscribed⟩

theorem stickyKept_wantedTopics :
    stickyKept members (wantedTopics members topics) = stickyKept members topics := by
  have same : @Holdings.keep members (allPartitions (wantedTopics members topics)) =
      Holdings.keep (allPartitions topics) := by
    funext h e
    have wanted : (members.get e.2).subscribes e.1.1 → members.any (·.subscribes e.1.1) = true :=
      fun subscribed => List.any_eq_true.mpr ⟨_, List.get_mem .., subscribed⟩
    unfold Holdings.keep
    rw [allPartitions_wantedTopics]
    congr 1
    simp only [List.mem_filter, Bool.decide_and, Bool.and_eq_true, decide_eq_true_eq]
    exact propext ⟨fun both => ⟨both.1.1, both.2⟩, fun both => ⟨⟨both.1, wanted both.2⟩, both.2⟩⟩
  rw [stickyKept, stickyKept, same]

theorem stickyFilled_wantedTopics :
    stickyFilled members (wantedTopics members topics) = stickyFilled members topics := by
  have idle (h : Holdings members) (tp : PartitionKey)
      (unwanted : ¬ members.any (·.subscribes tp.1)) : h.fill tp = h := by
    have nobody : subscribers members tp.1 = [] := List.filter_eq_nil_iff.mpr fun i _ subscribed =>
      unwanted (List.any_eq_true.mpr ⟨_, List.get_mem .., subscribed⟩)
    simp [Holdings.fill, nobody]
  have same (h : Holdings members) (tp : PartitionKey) :
      (if members.any (·.subscribes tp.1) = true then h.fill tp else h) = h.fill tp := by
    split
    · rfl
    · rename_i unwanted
      exact (idle h tp unwanted).symm
  rw [stickyFilled, stickyFilled, stickyKept_wantedTopics, allPartitions_wantedTopics,
    List.foldl_filter]
  simp only [same]

theorem stickyBalanced_wantedTopics :
    stickyBalanced members (wantedTopics members topics) = stickyBalanced members topics := by
  rw [stickyBalanced, stickyBalanced, stickyFilled_wantedTopics, stickyKept_wantedTopics]

end Work

/-! Counting -/

section Counting

variable {members : List MemberSubscription} {topics : Topics}

def claimedBy (members : List MemberSubscription) (topics : Topics)
    (i : Place members) : Finset PartitionKey :=
  (work members topics).filter fun tp => (resolveClaims members).lookup tp = some i

/-- The claimed partitions that do not end with the member whose claim won. -/
def moved (members : List MemberSubscription) (topics : Topics)
    (ends : PartitionKey → Place members → Bool) : Finset PartitionKey :=
  (work members topics).filter fun tp =>
    ((resolveClaims members).lookup tp).any fun i => !ends tp i

theorem card_moved (ends : PartitionKey → Place members → Bool) :
    (moved members topics ends).card + ∑ i, ((claimedBy members topics i).filter (ends · i)).card =
      ∑ i, (claimedBy members topics i).card := by
  have split (i : Place members) : ((claimedBy members topics i).filter fun tp => !ends tp i).card +
      ((claimedBy members topics i).filter (ends · i)).card = (claimedBy members topics i).card := by
    rw [add_comm]
    simpa using Finset.card_filter_add_card_filter_not (s := claimedBy members topics i) (ends · i)
  have apart : ((univ : Finset (Place members)) : Set (Place members)).PairwiseDisjoint
      fun i => (claimedBy members topics i).filter fun tp => !ends tp i := by
    intro i _ j _ other
    refine Finset.disjoint_left.mpr fun tp one two => other ?_
    simp only [claimedBy, mem_filter] at one two
    exact Option.some.inj (one.1.2.symm.trans two.1.2)
  have whole : moved members topics ends =
      univ.biUnion fun i => (claimedBy members topics i).filter fun tp => !ends tp i := by
    ext tp
    simp only [moved, claimedBy, mem_filter, mem_biUnion, mem_univ, true_and, Option.any_eq_true]
    constructor
    · rintro ⟨listed, i, won, away⟩
      exact ⟨i, ⟨listed, won⟩, away⟩
    · rintro ⟨i, ⟨listed, won⟩, away⟩
      exact ⟨listed, i, won, away⟩
  rw [whole, Finset.card_biUnion fun i _ j _ => apart (mem_coe.mpr (mem_univ i)) (mem_coe.mpr (mem_univ j)),
    ← sum_add_distrib]
  exact sum_congr rfl fun i _ => split i

def Holdings.held (h : Holdings members) (i : Place members) : Finset PartitionKey :=
  (h.assigned i).keys.toFinset

theorem Holdings.card_held (h : Holdings members) (i : Place members) : (h.held i).card = h.count i :=
  List.toFinset_card_of_nodup (h.assigned i).nodup

theorem common_of_alike (alike : Alike members) {tp : PartitionKey}
    (listed : tp ∈ allPartitions (wantedTopics members topics)) (j : Place members) :
    (members.get j).subscribes tp.1 := by
  rw [allPartitions_wantedTopics] at listed
  obtain ⟨m, mem, subscribed⟩ := List.any_eq_true.mp (List.mem_filter.mp listed).2
  rw [alike _ (List.get_mem ..) m mem]
  exact subscribed

theorem held_stickyKept (alike : Alike members) (i : Place members) :
    (stickyKept members (wantedTopics members topics)).held i = claimedBy members topics i := by
  obtain ⟨sound, owners⟩ := stickyKept_sound members (wantedTopics members topics)
  ext tp
  rw [Holdings.held, List.mem_toFinset, ← sound.agrees, owners, Option.filter_eq_some_iff, claimedBy,
    mem_filter, work, List.mem_toFinset, and_comm]
  refine and_congr_left fun _ => ?_
  rw [Bool.and_eq_true, decide_eq_true_eq]
  exact ⟨And.left, fun listed => ⟨listed, common_of_alike alike listed i⟩⟩

theorem stickyBalanced_frugal (alike : Alike members) :
    (stickyBalanced members (wantedTopics members topics)).Frugal
      (stickyKept members (wantedTopics members topics)).assigned := by
  have wanted := @wanted_wantedTopics members topics
  obtain ⟨sound, keeps, -⟩ := stickyFilled_sound wanted
  have kept := (stickyKept_sound members (wantedTopics members topics)).1
  have common : ∀ tp ∈ allPartitions (wantedTopics members topics), ∀ j : Place members,
      (members.get j).subscribes tp.1 = true := fun _ => common_of_alike alike
  have nothing (i : Place members) : ¬ (stickyFilled members (wantedTopics members topics)).Lost
      (stickyKept members (wantedTopics members topics)).assigned i := by
    rintro ⟨tp, had, gone⟩
    exact gone ((sound.agrees tp i).mp (keeps tp i ((kept.agrees tp i).mpr had)))
  have spare := Holdings.spare_foldl_fill (allPartitions (wantedTopics members topics))
    (fun _ mem => mem) common (fun _ => wanted_partition wanted) kept
    fun i ⟨tp, has, unkept⟩ => absurd has unkept
  refine Holdings.Frugal.balance ⟨spare, fun i lost => ?_, fun i j lost => ?_, fun i lost => ?_⟩ sound
    common
  all_goals exact absurd lost (nothing i)

theorem card_claimed_held {h : Holdings members} {kept : Place members → PartitionSet}
    (frugal : h.Frugal kept) (i : Place members) :
    ((kept i).keys.toFinset ∩ h.held i).card = min (kept i).len (h.count i) := by
  have size : ((kept i).keys.toFinset).card = (kept i).len :=
    List.toFinset_card_of_nodup (kept i).nodup
  by_cases lost : h.Lost kept i
  · have within : h.held i ⊆ (kept i).keys.toFinset := by
      intro tp has
      by_contra unkept
      rw [Holdings.held, List.mem_toFinset] at has
      exact frugal.apart i lost ⟨tp, has, fun keeps => unkept (List.mem_toFinset.mpr keeps)⟩
    have fewer := card_le_card within
    rw [inter_eq_right.mpr within, h.card_held]
    rw [h.card_held, size] at fewer
    exact (Nat.min_eq_right fewer).symm
  · have within : (kept i).keys.toFinset ⊆ h.held i := by
      intro tp keeps
      by_contra gone
      rw [List.mem_toFinset] at keeps
      exact lost ⟨tp, keeps, fun has => gone (List.mem_toFinset.mpr has)⟩
    have fewer := card_le_card within
    rw [inter_eq_left.mpr within, size]
    rw [h.card_held, size] at fewer
    exact (Nat.min_eq_left fewer).symm

theorem Holdings.Frugal.card_moved_le {h : Holdings members} {kept : Place members → PartitionSet}
    {all : List PartitionKey} (frugal : h.Frugal kept) (sound : h.Sound all)
    (claims : ∀ i, (kept i).keys.toFinset = claimedBy members topics i)
    (even : Levels.Level h.count) (total : ∑ i, h.count i = (work members topics).card)
    (other : PartitionKey → Place members)
    (level : Levels.Level fun i => ((work members topics).filter (other · = i)).card) :
    (moved members topics fun tp i => h.owner.lookup tp = some i).card ≤
      (moved members topics fun tp i => other tp = i).card := by
  have size (i : Place members) : (claimedBy members topics i).card = (kept i).len := by
    rw [← claims]
    exact List.toFinset_card_of_nodup (kept i).nodup
  have total' : ∑ i, h.count i = ∑ i, ((work members topics).filter (other · = i)).card :=
    total.trans (card_eq_sum_card_fiberwise fun tp _ => mem_coe.mpr (mem_univ (other tp)))
  have order (i j : Place members) (short : h.count i < (kept i).len)
      (above : (kept j).len < h.count j) : h.count j ≤ h.count i := by
    refine frugal.order i j ?_ ?_
    · by_contra none
      have within : (kept i).keys ⊆ (h.assigned i).keys := fun tp keeps =>
        by_contra fun gone => none ⟨tp, keeps, gone⟩
      exact absurd (List.subperm_of_subset (kept i).nodup within).length_le (not_le.mpr short)
    · by_contra none
      have within : (h.assigned j).keys ⊆ (kept j).keys := fun tp has =>
        by_contra fun unkept => none ⟨tp, has, unkept⟩
      exact absurd (List.subperm_of_subset (h.assigned j).nodup within).length_le (not_le.mpr above)
  have most := Levels.sum_min_le_of_level even level total' order
  have here (i : Place members) : ((claimedBy members topics i).filter fun tp =>
      decide (h.owner.lookup tp = some i)).card = min (kept i).len (h.count i) := by
    rw [← card_claimed_held frugal, claims]
    refine congrArg card (ext fun tp => ?_)
    simp [Holdings.held, sound.agrees]
  have there (i : Place members) : ((claimedBy members topics i).filter fun tp =>
      decide (other tp = i)).card ≤
        min (kept i).len ((work members topics).filter (other · = i)).card := by
    refine le_min (size i ▸ card_le_card (filter_subset ..)) (card_le_card fun tp stays => ?_)
    simp only [claimedBy, mem_filter, decide_eq_true_eq] at stays ⊢
    exact ⟨stays.1.1, stays.2⟩
  have stays := @card_moved members topics fun tp i => decide (h.owner.lookup tp = some i)
  have stays' := @card_moved members topics fun tp i => decide (other tp = i)
  rw [sum_congr rfl fun i _ => here i] at stays
  have fewer := sum_le_sum fun i (_ : i ∈ univ) => there i
  omega

theorem sum_count_balanced :
    ∑ i, (stickyBalanced members (wantedTopics members topics)).count i =
      (work members topics).card := by
  obtain ⟨sound, owned⟩ := stickyBalanced_sound (@wanted_wantedTopics members topics)
  rw [Holdings.sum_count sound, ← List.toFinset_card_of_nodup (AList.keys_nodup _)]
  refine congrArg card (ext fun tp => ?_)
  rw [List.mem_toFinset, ← AList.mem_keys, owned, work, List.mem_toFinset]

/-- No member has two or more partitions more than another that subscribes to one of their topics.
Where all members subscribe to the same topics, no assignment whose counts differ by at most one
moves fewer claimed partitions. -/
theorem sticky_is_balanced_and_moves_least (members : List MemberSubscription)
    (distinct : (members.map (·.memberId)).Nodup) (topics : List (String × List Int)) :
    (∀ i j tp, tp ∈ given (collect members (stickyOwners members topics))
          (members.get i).memberId → (members.get j).subscribes tp.1 →
      (given (collect members (stickyOwners members topics)) (members.get i).memberId).length ≤
        (given (collect members (stickyOwners members topics))
          (members.get j).memberId).length + 1) ∧
    (Alike members → ∀ other : PartitionKey → Place members,
      Levels.Level (fun i => ((work members topics).filter (other · = i)).card) →
      (moved members topics fun tp i => tp ∈ given
          (collect members (stickyOwners members topics)) (members.get i).memberId).card ≤
        (moved members topics fun tp i => other tp = i).card) := by
  have wanted := @wanted_wantedTopics members topics
  obtain ⟨sound, -⟩ := stickyBalanced_sound wanted
  have same : stickyOwners members topics = stickyOwners members (wantedTopics members topics) := by
    rw [stickyOwners, stickyOwners, stickyBalanced_wantedTopics]
  rw [same]
  refine ⟨fun i j tp given takes => ?_, fun alike other level => ?_⟩
  · rw [length_given_sticky distinct wanted, length_given_sticky distinct wanted]
    have held := (sound.agrees tp i).mp ((mem_given_sticky distinct).mp given)
    exact Holdings.near_of_search_none (Holdings.search_balance _ _) held takes
  · have even := Holdings.level_of_search_none
      (fun i tp held => common_of_alike alike (sound.within tp i held).1)
      (Holdings.search_balance (stickyFilled members (wantedTopics members topics)) _)
    simp only [mem_given_sticky distinct]
    exact (stickyBalanced_frugal alike).card_moved_le sound (held_stickyKept alike) even
      sum_count_balanced other level

end Counting

def sampleSplit (tp : PartitionKey) : Place sampleGroup :=
  if tp.2 < 2 then ⟨0, by decide⟩ else ⟨1, by decide⟩

theorem sampleGroup_moves_least : (sampleGroup.map (·.memberId)).Nodup ∧ Alike sampleGroup ∧
    (moved sampleGroup [("t", [0, 1, 2, 3])] fun tp i => tp ∈ given
      (collect sampleGroup (stickyOwners sampleGroup [("t", [0, 1, 2, 3])]))
        (sampleGroup.get i).memberId).card ≤
      (moved sampleGroup [("t", [0, 1, 2, 3])] fun tp i => sampleSplit tp = i).card := by
  have distinct : (sampleGroup.map (·.memberId)).Nodup := by decide
  have level : Levels.Level fun i =>
      ((work sampleGroup [("t", [0, 1, 2, 3])]).filter (sampleSplit · = i)).card := by
    show ∀ i j, _
    decide +kernel
  exact ⟨distinct, sampleGroup_alike, (sticky_is_balanced_and_moves_least sampleGroup distinct
    [("t", [0, 1, 2, 3])]).2 sampleGroup_alike sampleSplit level⟩

end Krafka.Consumer
