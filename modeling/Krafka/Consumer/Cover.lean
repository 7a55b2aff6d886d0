import Krafka.Consumer.Assignor

/-! The assignors share out the work: every partition of a subscribed topic goes to one of its
subscribers, once, and nothing else is given to anybody. -/

namespace Krafka.Consumer

open List Function AList

namespace MemberAssignment

theorem mem_allPartitions {a : MemberAssignment} {tp : PartitionKey} :
    tp ∈ a.allPartitions ↔ ∃ partitions, a.lookup tp.1 = some partitions ∧ tp.2 ∈ partitions := by
  obtain ⟨topic, partition⟩ := tp
  simp only [allPartitions, mem_flatMap, mem_map, Prod.mk.injEq]
  constructor
  · rintro ⟨e, listed, p, mem, rfl, rfl⟩
    exact ⟨e.2, mem_dlookup a.nodupKeys listed, mem⟩
  · rintro ⟨partitions, found, mem⟩
    exact ⟨⟨topic, partitions⟩, of_mem_dlookup found, partition, mem, rfl, rfl⟩

theorem allPartitions_perm_erase (a : MemberAssignment) (topic : String) :
    a.allPartitions.Perm
      (((a.lookup topic).getD []).map (fun p => (topic, p)) ++ allPartitions (a.erase topic)) := by
  obtain ⟨entries, nodup⟩ := a
  show (entries.flatMap fun e => e.2.map fun p => (e.1, p)).Perm
    (((entries.dlookup topic).getD []).map (fun p => (topic, p)) ++
      (entries.kerase topic).flatMap fun e => e.2.map fun p => (e.1, p))
  clear nodup
  induction entries with
  | nil => exact List.Perm.nil
  | cons e entries ih =>
    obtain ⟨name, partitions⟩ := e
    by_cases here : topic = name
    · subst here
      simp
    · rw [kerase_cons_ne here, dlookup_cons_ne _ _ here, List.flatMap_cons,
        List.flatMap_cons]
      exact ((ih.append_left _).trans (by simp only [← List.append_assoc]; exact
        (List.perm_append_comm).append_right _))

theorem allPartitions_insert (a : MemberAssignment) (topic : String) (partitions : List Int) :
    allPartitions (a.insert topic partitions) =
      partitions.map (fun p => (topic, p)) ++ allPartitions (a.erase topic) := by
  have erased : (a.erase topic).entries = a.entries.kerase topic := rfl
  simp [allPartitions, entries_insert, erased]

theorem allPartitions_add (a : MemberAssignment) (tp : PartitionKey) :
    (allPartitions (a.insert tp.1 ((a.lookup tp.1).getD [] ++ [tp.2]))).Perm
      (tp :: a.allPartitions) := by
  rw [allPartitions_insert, map_append, map_singleton, List.append_assoc]
  exact perm_middle.trans ((a.allPartitions_perm_erase tp.1).symm.cons _)

theorem allPartitions_mapValues {a : MemberAssignment} {f : String → List Int → List Int}
    (same : ∀ topic partitions, (f topic partitions).Perm partitions) :
    (allPartitions (a.mapValues f)).Perm a.allPartitions := by
  show ((a.entries.map fun e => (⟨e.1, f e.1 e.2⟩ : Sigma fun _ : String => List Int)).flatMap
    fun e => e.2.map fun p => (e.1, p)).Perm _
  rw [flatMap_map]
  exact List.Perm.flatMap_left _ fun e _ => (same e.1 e.2).map _

end MemberAssignment

namespace Assignments

def given (a : Assignments) (memberId : String) : List PartitionKey :=
  ((a.lookup memberId).getD ∅).allPartitions

variable {a : Assignments} {memberId : String}

theorem given_of_lookup {assignment : MemberAssignment}
    (found : a.lookup memberId = some assignment) :
    given a memberId = assignment.allPartitions := by
  simp [given, found]

theorem given_push_self (present : memberId ∈ a)
    (tp : PartitionKey) : (given (push a memberId tp) memberId).Perm (tp :: given a memberId) := by
  obtain ⟨assignment, found⟩ := mem_iff_lookup.mp present
  simp only [push, found]
  rw [given_of_lookup (lookup_insert _), given_of_lookup found]
  exact assignment.allPartitions_add tp

theorem given_push_ne {other : String} (apart : other ≠ memberId)
    (tp : PartitionKey) : given (push a memberId tp) other = given a other := by
  unfold push
  split
  · rw [given, given, lookup_insert_ne apart]
  · rfl

theorem mem_push {other : String} (tp : PartitionKey) : other ∈ push a memberId tp ↔ other ∈ a := by
  unfold push
  split
  · rename_i assignment found
    exact mem_insert_of_mem (mem_of_lookup found) _
  · rfl

end Assignments

open Assignments

section Collect

variable (members : List MemberSubscription)

def ownedBy (owners : Owners members) (memberId : String) :
    List PartitionKey :=
  (owners.filter fun o => (members.get o.2).memberId = memberId).map (·.1)

theorem mem_ownedBy {owners : Owners members} {memberId : String}
    {tp : PartitionKey} :
    tp ∈ ownedBy members owners memberId ↔
      ∃ i, (tp, i) ∈ owners ∧ (members.get i).memberId = memberId := by
  simp [ownedBy]

theorem given_pushes (owners : Owners members) (out : Assignments)
    (memberId : String) (present : ∀ m ∈ members, m.memberId ∈ out) :
    (given
      (owners.foldl (fun out o => push out (members.get o.2).memberId o.1) out)
      memberId).Perm (ownedBy members owners memberId ++ given out memberId) := by
  induction owners generalizing out with
  | nil => exact List.Perm.refl _
  | cons o owners ih =>
    have still : ∀ m ∈ members, m.memberId ∈ push out (members.get o.2).memberId o.1 :=
      fun m listed => (mem_push _).mpr (present m listed)
    refine (ih _ still).trans ?_
    have here : (members.get o.2).memberId ∈ out := present _ (get_mem _ _)
    by_cases same : (members.get o.2).memberId = memberId
    · subst same
      have head : ownedBy members (o :: owners) (members.get o.2).memberId =
          o.1 :: ownedBy members owners (members.get o.2).memberId := by
        simp [ownedBy]
      rw [head]
      exact ((given_push_self here o.1).append_left _).trans perm_middle
    · have head : ownedBy members (o :: owners) memberId = ownedBy members owners memberId := by
        rw [ownedBy, filter_cons_of_neg (by simpa using same)]
        rfl
      rw [head, given_push_ne (Ne.symm same)]

theorem lookup_start (memberId : String) :
    (insertAll ∅ (members.map fun m => (m.memberId, (∅ : MemberAssignment)))).lookup memberId =
      if memberId ∈ members.map (·.memberId) then some ∅ else none := by
  have general (l : List MemberSubscription) (start : Assignments)
      (blank : ∀ assignment, start.lookup memberId = some assignment → assignment = ∅) :
      (insertAll start (l.map fun m => (m.memberId, (∅ : MemberAssignment)))).lookup memberId =
        if memberId ∈ l.map (·.memberId) then some ∅ else start.lookup memberId := by
    induction l generalizing start with
    | nil => simp [insertAll]
    | cons m l ih =>
      show (insertAll (start.insert m.memberId ∅) (l.map _)).lookup memberId = _
      by_cases here : memberId = m.memberId
      · subst here
        rw [ih _ fun assignment found => ?_, lookup_insert]
        · simp
        · rw [lookup_insert] at found
          exact (Option.some.inj found).symm
      · rw [ih _ fun assignment found => ?_, lookup_insert_ne here]
        · simp [here]
        · rw [lookup_insert_ne here] at found
          exact blank assignment found
  rw [general members ∅ fun _ found => by simp at found, lookup_empty]

theorem given_collect (owners : Owners members) (memberId : String) :
    (given (collect members owners) memberId).Perm
      (ownedBy members owners memberId) := by
  have blank : given
      (insertAll ∅ (members.map fun m => (m.memberId, (∅ : MemberAssignment)))) memberId =
        [] := by
    rw [given, lookup_start]
    split <;> rfl
  have present : ∀ m ∈ members, m.memberId ∈
      insertAll (∅ : Assignments) (members.map fun m => (m.memberId, ∅)) := by
    intro m listed
    rw [← lookup_isSome, lookup_start, if_pos (mem_map_of_mem listed)]
    rfl
  have pushed := given_pushes members owners _ memberId present
  rw [blank, append_nil] at pushed
  refine List.Perm.trans ?_ pushed
  rw [given, collect, lookup_mapValues]
  cases found : (owners.foldl (fun out o => push out (members.get o.2).memberId o.1)
      (insertAll ∅ (members.map fun m => (m.memberId, ∅)))).lookup memberId with
  | none =>
    rw [given, found]
    rfl
  | some assignment =>
    rw [given_of_lookup found]
    exact MemberAssignment.allPartitions_mapValues fun _ partitions =>
      perm_insertionSort _ partitions

end Collect

/-! What an assignor has to do -/

structure Shares (members : List MemberSubscription) (topics : Topics)
    (owners : Owners members) : Prop where
  whole : (owners.map (·.1)).Perm (allPartitions topics)
  subscribed : ∀ o ∈ owners, (members.get o.2).subscribes o.1.1 = true

theorem Shares.nil (members : List MemberSubscription) : Shares members [] [] :=
  ⟨List.Perm.refl _, fun _ none => nomatch none⟩

theorem Shares.append {members : List MemberSubscription} {topics topics' : Topics}
    {owners owners' : Owners members} (one : Shares members topics owners)
    (two : Shares members topics' owners') :
    Shares members (topics ++ topics') (owners ++ owners') := by
  refine ⟨?_, fun o listed => ?_⟩
  · rw [map_append, allPartitions, flatMap_append]
    exact one.whole.append two.whole
  · exact (mem_append.mp listed).elim (one.subscribed o) (two.subscribed o)

def Wanted (members : List MemberSubscription) (topics : Topics) : Prop :=
  ∀ t ∈ topics, ∃ i : Place members, (members.get i).subscribes t.1 = true

/-! Ranges -/

def rangeStart (partitions subscribers rank : Nat) : Nat :=
  rank * (partitions / subscribers) + min rank (partitions % subscribers)

def rangeCount (partitions subscribers rank : Nat) : Nat :=
  partitions / subscribers + if rank < partitions % subscribers then 1 else 0

theorem rangeStart_succ (partitions subscribers rank : Nat) :
    rangeStart partitions subscribers (rank + 1) =
      rangeStart partitions subscribers rank + rangeCount partitions subscribers rank := by
  simp only [rangeStart, rangeCount, Nat.add_mul, Nat.one_mul]
  split_ifs <;> omega

theorem rangeStart_self (partitions : Nat) {subscribers : Nat} (some : 0 < subscribers) :
    rangeStart partitions subscribers subscribers = partitions := by
  have less : partitions % subscribers < subscribers := Nat.mod_lt _ some
  rw [rangeStart, Nat.min_eq_right less.le]
  exact Nat.div_add_mod partitions subscribers

theorem rangeStart_mono (partitions subscribers : Nat) :
    Monotone (rangeStart partitions subscribers) :=
  monotone_nat_of_le_succ fun rank => by
    rw [rangeStart_succ]
    exact Nat.le_add_right ..

def rangeRun (partitions : List Int) (subscribers rank : Nat) : List Int :=
  (partitions.drop (rangeStart partitions.length subscribers rank)).take
    (rangeCount partitions.length subscribers rank)

theorem length_rangeRun (partitions : List Int) {subscribers rank : Nat} (below : rank < subscribers) :
    (rangeRun partitions subscribers rank).length =
      rangeCount partitions.length subscribers rank := by
  have last := rangeStart_mono partitions.length subscribers (Nat.succ_le_of_lt below)
  rw [Nat.succ_eq_add_one, rangeStart_succ, rangeStart_self _ (Nat.zero_lt_of_lt below)] at last
  rw [rangeRun, length_take, length_drop]
  omega

theorem take_rangeStart (partitions : List Int) (subscribers ranks : Nat) :
    (List.range ranks).flatMap (rangeRun partitions subscribers) =
      partitions.take (rangeStart partitions.length subscribers ranks) := by
  induction ranks with
  | zero => simp [rangeStart]
  | succ ranks ih =>
    rw [range_succ, flatMap_append, ih, flatMap_singleton, rangeRun, ← take_add,
      rangeStart_succ]

section Range

variable {members : List MemberSubscription}

theorem foldl_rangeSlice (topic : String) (partitions : List Int) (n : Nat)
    (subscribers : List (Place members)) (rank : Nat)
    (before : Owners members) :
    ((subscribers.zipIdx rank).foldl
      (rangeSlice topic partitions (partitions.length / n) (partitions.length % n))
      (before, rangeStart partitions.length n rank)).1 =
    before ++ (subscribers.zipIdx rank).flatMap fun s =>
      (rangeRun partitions n s.2).map fun p => ((topic, p), s.1) := by
  induction subscribers generalizing rank before with
  | nil => simp
  | cons member subscribers ih =>
    have one : rangeSlice topic partitions (partitions.length / n) (partitions.length % n)
        (before, rangeStart partitions.length n rank) (member, rank) =
        (before ++ (rangeRun partitions n rank).map fun p => ((topic, p), member),
          rangeStart partitions.length n (rank + 1)) := by
      rw [rangeStart_succ]
      rfl
    rw [zipIdx_cons, foldl_cons, one, ih, List.flatMap_cons, List.append_assoc]

theorem rangeTopic_eq (topic : String) (partitions : List Int)
    (subscribers : List (Place members)) :
    (rangeTopic topic partitions subscribers).1 = subscribers.zipIdx.flatMap fun s =>
      (rangeRun partitions subscribers.length s.2).map fun p => ((topic, p), s.1) := by
  have none : rangeStart partitions.length subscribers.length 0 = 0 := by simp [rangeStart]
  have folded := foldl_rangeSlice topic partitions subscribers.length subscribers 0 []
  rw [none, nil_append] at folded
  exact folded

theorem mem_rangeTopic {topic : String} {partitions : List Int}
    {subscribers : List (Place members)} {o : PartitionKey × Place members}
    (listed : o ∈ (rangeTopic topic partitions subscribers).1) : o.1.1 = topic := by
  rw [rangeTopic_eq] at listed
  obtain ⟨s, -, inside⟩ := mem_flatMap.mp listed
  obtain ⟨p, -, rfl⟩ := mem_map.mp inside
  rfl

theorem rangeTopic_shares (topic : String) (partitions : List Int)
    {subscribers : List (Place members)} (filled : subscribers ≠ [])
    (subscribed : ∀ i ∈ subscribers, (members.get i).subscribes topic) :
    Shares members [(topic, partitions)] (rangeTopic topic partitions subscribers).1 := by
  rw [rangeTopic_eq]
  refine ⟨?_, fun o listed => ?_⟩
  · have runs : (List.range subscribers.length).flatMap (rangeRun partitions subscribers.length) =
        partitions := by
      rw [take_rangeStart, rangeStart_self _ (length_pos_iff.mpr filled), take_length]
    have ranks : subscribers.zipIdx.map (·.2) = List.range subscribers.length := by
      rw [zipIdx_map_snd, range_eq_range']
    have keys : (subscribers.zipIdx.flatMap fun s =>
        (rangeRun partitions subscribers.length s.2).map fun p => ((topic, p), s.1)).map (·.1) =
        ((subscribers.zipIdx.map (·.2)).flatMap
          (rangeRun partitions subscribers.length)).map fun p => (topic, p) := by
      rw [flatMap_map, map_flatMap, map_flatMap]
      simp only [map_map, Function.comp_def]
    rw [keys, ranks, runs]
    simp [allPartitions]
  · obtain ⟨s, there, inside⟩ := mem_flatMap.mp listed
    obtain ⟨p, -, rfl⟩ := mem_map.mp inside
    exact subscribed _ (fst_mem_of_mem_zipIdx there)

theorem mem_subscribers (topic : String) {i : Place members} :
    i ∈ subscribers members topic ↔ (members.get i).subscribes topic := by
  simp [subscribers]

theorem rangeOwners_shares (topics : Topics) (wanted : Wanted members topics) :
    Shares members topics (rangeOwners members topics) := by
  induction topics with
  | nil => exact .nil members
  | cons t topics ih =>
    obtain ⟨i, subscribed⟩ := wanted t mem_cons_self
    have filled := ne_nil_of_mem ((mem_subscribers t.1).mpr subscribed)
    have one := rangeTopic_shares t.1 t.2 filled fun _ => (mem_subscribers t.1).mp
    have rest := ih fun t' mem => wanted t' (mem_cons_of_mem _ mem)
    have both := one.append rest
    rw [rangeOwners, List.flatMap_cons, if_neg (by simpa using filled)]
    exact both

end Range

section RoundRobin

variable {members : List MemberSubscription} {topic : String}

theorem chosen_isSome (filled : 0 < members.length) (cursor : Nat)
    (wanted : ∃ i : Place members, (members.get i).subscribes topic = true) :
    (chosen members filled cursor topic).isSome := by
  obtain ⟨i, subscribed⟩ := wanted
  rw [chosen, List.find?_isSome]
  refine ⟨i, mem_map.mpr
    ⟨(i + (members.length - cursor % members.length)) % members.length, ?_, ?_⟩, subscribed⟩
  · exact mem_range.mpr (Nat.mod_lt _ filled)
  · apply Fin.ext
    have before : cursor % members.length < members.length := Nat.mod_lt _ filled
    have cycle : cursor + (i + (members.length - cursor % members.length)) =
        i + members.length * (cursor / members.length + 1) := by
      have parts := Nat.div_add_mod cursor members.length
      rw [Nat.mul_add, Nat.mul_one]
      omega
    show (cursor + (i + (members.length - cursor % members.length)) % members.length) %
      members.length = i
    rw [Nat.add_mod_mod, cycle, Nat.add_mul_mod_self_left, Nat.mod_eq_of_lt i.isLt]

theorem subscribes_of_chosen {filled : 0 < members.length} {cursor : Nat} {i : Place members}
    (found : chosen members filled cursor topic = some i) : (members.get i).subscribes topic := by
  simpa using List.find?_some found

theorem roundRobinTurns (filled : 0 < members.length) (tps : List PartitionKey)
    (wanted : ∀ tp ∈ tps, ∃ i : Place members, (members.get i).subscribes tp.1 = true)
    (turn : Owners members × Nat)
    (subscribed : ∀ o ∈ turn.1, (members.get o.2).subscribes o.1.1) :
    (tps.foldl (roundRobinTurn members filled) turn).1.map (·.1) = turn.1.map (·.1) ++ tps ∧
      ∀ o ∈ (tps.foldl (roundRobinTurn members filled) turn).1,
        (members.get o.2).subscribes o.1.1 := by
  induction tps generalizing turn with
  | nil => exact ⟨(append_nil _).symm, subscribed⟩
  | cons tp tps ih =>
    obtain ⟨member, found⟩ := Option.isSome_iff_exists.mp
      (chosen_isSome filled turn.2 (wanted tp mem_cons_self))
    have one : roundRobinTurn members filled turn tp =
        (turn.1 ++ [(tp, member)], (member : Nat) + 1) := by
      simp [roundRobinTurn, found]
    have kept : ∀ o ∈ turn.1 ++ [(tp, member)], (members.get o.2).subscribes o.1.1 := by
      intro o listed
      rcases mem_append.mp listed with old | new
      · exact subscribed o old
      · rw [mem_singleton.mp new]
        exact subscribes_of_chosen found
    obtain ⟨keys, rest⟩ := ih (fun tp' mem => wanted tp' (mem_cons_of_mem _ mem))
      (turn.1 ++ [(tp, member)], (member : Nat) + 1) kept
    rw [foldl_cons, one]
    exact ⟨keys.trans (by simp), rest⟩

theorem wanted_partition {topics : Topics} (wanted : Wanted members topics)
    {tp : PartitionKey} (listed : tp ∈ allPartitions topics) :
    ∃ i : Place members, (members.get i).subscribes tp.1 := by
  obtain ⟨t, mem, inside⟩ := mem_flatMap.mp listed
  obtain ⟨p, -, rfl⟩ := mem_map.mp inside
  exact wanted t mem

theorem roundRobinOwners_shares (topics : Topics)
    (wanted : Wanted members topics) : Shares members topics (roundRobinOwners members topics) := by
  unfold roundRobinOwners
  split
  · rename_i filled
    obtain ⟨keys, subscribed⟩ := roundRobinTurns filled (allPartitions topics)
      (fun _ => wanted_partition wanted) ([], 0) (fun _ none => nomatch none)
    exact ⟨keys ▸ List.Perm.refl _, subscribed⟩
  · rename_i empty
    have nothing : topics = [] := by
      cases topics with
      | nil => rfl
      | cons t =>
        obtain ⟨i, -⟩ := wanted t mem_cons_self
        exact absurd i.pos empty
    subst nothing
    exact .nil members

end RoundRobin

/-! The cooperative-sticky assignor -/

namespace Holdings

variable {members : List MemberSubscription} {all : List PartitionKey} {h : Holdings members}
  {tp : PartitionKey} {i : Place members}

structure Sound (all : List PartitionKey) (h : Holdings members) : Prop where
  agrees : ∀ tp i, h.owner.lookup tp = some i ↔ tp ∈ (h.assigned i).keys
  within : ∀ tp i, tp ∈ (h.assigned i).keys → tp ∈ all ∧ (members.get i).subscribes tp.1 = true

theorem sound_empty (all : List PartitionKey) : Sound all ({} : Holdings members) := by
  refine ⟨fun tp i => ?_, fun tp i none => nomatch none⟩
  show (∅ : AList fun _ : PartitionKey => Place members).lookup tp = some i ↔ tp ∈ []
  simp

variable {tp' : PartitionKey} {j : Place members}

theorem mem_place :
    tp' ∈ ((h.place tp i).assigned j).keys ↔ j = i ∧ tp' = tp ∨ tp' ∈ (h.assigned j).keys := by
  by_cases here : j = i
  · subst here
    simp [place]
  · simp [place, here]

theorem Sound.place (sound : h.Sound all) (fresh : h.owner.lookup tp = none) (listed : tp ∈ all)
    (subscribed : (members.get i).subscribes tp.1) : (h.place tp i).Sound all := by
  refine ⟨fun tp' j => ?_, fun tp' j mem => ?_⟩
  · rw [mem_place]
    by_cases same : tp' = tp
    · subst same
      have nowhere : tp' ∉ (h.assigned j).keys := fun mem => by
        rw [← sound.agrees, fresh] at mem
        cases mem
      simp only [Holdings.place, lookup_insert, and_true, nowhere, or_false]
      constructor
      · intro owned
        exact (Option.some.inj owned).symm
      · rintro rfl
        rfl
    · simp only [Holdings.place, lookup_insert_ne same, same, and_false, false_or]
      exact sound.agrees tp' j
  · rcases mem_place.mp mem with ⟨rfl, rfl⟩ | old
    · exact ⟨listed, subscribed⟩
    · exact sound.within tp' j old

theorem count_place_self (sound : h.Sound all) (fresh : h.owner.lookup tp = none) :
    (h.place tp i).count i = h.count i + 1 := by
  have nowhere : tp ∉ (h.assigned i).keys := fun mem => by
    rw [← sound.agrees, fresh] at mem
    cases mem
  simp only [Holdings.place, count, update_self]
  exact TreeSet.len_insert nowhere

theorem count_place_ne (other : j ≠ i) : (h.place tp i).count j = h.count j := by
  simp [Holdings.place, count, update_of_ne other]

variable {from_ to_ : Place members}

theorem mem_move (other : from_ ≠ to_) :
    tp' ∈ ((h.move from_ to_ tp).assigned j).keys ↔
      j = to_ ∧ tp' = tp ∨ tp' ∈ (h.assigned j).keys ∧ ¬ (j = from_ ∧ tp' = tp) := by
  simp only [move]
  by_cases atTo : j = to_
  · subst atTo
    simp [other.symm]
  · by_cases atFrom : j = from_
    · subst atFrom
      simp [atTo, and_comm]
    · simp [atTo, atFrom]

theorem Sound.move (sound : h.Sound all) (other : from_ ≠ to_)
    (held : tp ∈ (h.assigned from_).keys) (subscribed : (members.get to_).subscribes tp.1) :
    (h.move from_ to_ tp).Sound all := by
  have owner : h.owner.lookup tp = some from_ := (sound.agrees tp from_).mpr held
  refine ⟨fun tp' j => ?_, fun tp' j mem => ?_⟩
  · rw [mem_move other]
    by_cases same : tp' = tp
    · subst same
      have only : tp' ∈ (h.assigned j).keys → j = from_ := fun mem => by
        rw [← sound.agrees, owner] at mem
        exact (Option.some.inj mem).symm
      have lookup : (h.move from_ to_ tp').owner.lookup tp' = some to_ := lookup_insert _
      rw [lookup]
      constructor
      · intro owned
        exact .inl ⟨(Option.some.inj owned).symm, rfl⟩
      · rintro (⟨rfl, -⟩ | ⟨mem, elsewhere⟩)
        · rfl
        · exact absurd ⟨only mem, rfl⟩ elsewhere
    · have lookup : (h.move from_ to_ tp).owner.lookup tp' = h.owner.lookup tp' :=
        lookup_insert_ne same
      rw [lookup, sound.agrees]
      simp [same]
  · rcases (mem_move other).mp mem with ⟨rfl, rfl⟩ | ⟨old, -⟩
    · exact ⟨(sound.within tp' from_ held).1, subscribed⟩
    · exact sound.within tp' j old

theorem mem_owner_move (sound : h.Sound all) (held : tp ∈ (h.assigned from_).keys) :
    tp' ∈ (h.move from_ to_ tp).owner ↔ tp' ∈ h.owner := by
  have owned : tp ∈ h.owner := mem_of_lookup ((sound.agrees tp from_).mpr held)
  exact mem_insert_of_mem owned to_

theorem balance_of_some {kept : Place members → PartitionSet}
    (found : h.search kept = some (from_, to_, tp)) :
    h.balance kept = (h.move from_ to_ tp).balance kept := by
  rw [Holdings.balance]
  split
  · rename_i again
    rw [found] at again
    cases again
    rfl
  · rename_i none
    rw [found] at none
    cases none

theorem balance_of_none {kept : Place members → PartitionSet} (stuck : h.search kept = none) :
    h.balance kept = h := by
  rw [Holdings.balance]
  split
  · rename_i found
    rw [stuck] at found
    cases found
  · rfl

theorem Sound.balance (kept : Place members → PartitionSet) (sound : h.Sound all) :
    (h.balance kept).Sound all ∧ ∀ tp, tp ∈ (h.balance kept).owner ↔ tp ∈ h.owner := by
  induction h using Holdings.balance.induct kept with
  | case1 h from_ to_ tp found _ ih =>
    obtain ⟨apart, held, subscribed⟩ := search_eq_some found
    have other : from_ ≠ to_ := by
      rintro rfl
      omega
    obtain ⟨after, same⟩ := ih (sound.move other held subscribed)
    rw [balance_of_some found]
    exact ⟨after, fun tp' => (same tp').trans (mem_owner_move sound held)⟩
  | case2 h stuck =>
    rw [balance_of_none stuck]
    exact ⟨sound, fun _ => Iff.rfl⟩

theorem foldl_keep (claims : List (Sigma fun _ : PartitionKey => Place members))
    (distinct : claims.NodupKeys) (sound : h.Sound all)
    (fresh : ∀ e ∈ claims, h.owner.lookup e.1 = none) :
    (claims.foldl (keep all) h).Sound all ∧
      ∀ tp, (claims.foldl (keep all) h).owner.lookup tp = (h.owner.lookup tp).or
        ((claims.dlookup tp).filter fun i => tp ∈ all && (members.get i).subscribes tp.1) := by
  induction claims generalizing h with
  | nil => exact ⟨sound, fun tp => by simp⟩
  | cons e claims ih =>
    obtain ⟨key, index⟩ := e
    obtain ⟨new, distinct⟩ := nodupKeys_cons.mp distinct
    have later : ∀ e ∈ claims, e.1 ≠ key := by
      intro e listed same
      have key_mem : e.1 ∈ claims.keys := mem_keys_of_mem listed
      exact new (same ▸ key_mem)
    rw [foldl_cons]
    unfold keep
    split
    · rename_i keeps
      simp only [Bool.and_eq_true, decide_eq_true_eq] at keeps
      have placed := sound.place (i := index) (fresh ⟨key, index⟩ mem_cons_self) keeps.1 keeps.2
      obtain ⟨after, owners⟩ := ih distinct placed fun e listed => by
        rw [Holdings.place, lookup_insert_ne (later e listed)]
        exact fresh e (mem_cons_of_mem _ listed)
      refine ⟨after, fun tp => (owners tp).trans ?_⟩
      by_cases here : tp = key
      · subst here
        have unowned := fresh ⟨tp, index⟩ mem_cons_self
        rw [Holdings.place, lookup_insert, unowned, dlookup_cons_eq]
        have passes : (tp ∈ all && (members.get index).subscribes tp.1) := by
          rw [keeps.2, Bool.and_true, decide_eq_true_eq]
          exact keeps.1
        rw [Option.filter, if_pos passes]
        rfl
      · rw [Holdings.place, lookup_insert_ne here, dlookup_cons_ne _ _ here]
    · rename_i drops
      obtain ⟨after, owners⟩ := ih distinct sound fun e listed =>
        fresh e (mem_cons_of_mem _ listed)
      refine ⟨after, fun tp => (owners tp).trans ?_⟩
      by_cases here : tp = key
      · subst here
        have gone : claims.dlookup tp = none := dlookup_eq_none.mpr new
        rw [gone, dlookup_cons_eq, Option.filter, if_neg drops]
        rfl
      · rw [dlookup_cons_ne _ _ here]

theorem fill_cases (h : Holdings members) (tp : PartitionKey)
    (wanted : ∃ i : Place members, (members.get i).subscribes tp.1 = true) :
    (tp ∈ h.owner ∧ h.fill tp = h) ∨
      ∃ i, tp ∉ h.owner ∧ (members.get i).subscribes tp.1 ∧
        (∀ j, (members.get j).subscribes tp.1 → h.key i ≤ h.key j) ∧
        h.fill tp = h.place tp i := by
  unfold fill
  split
  · rename_i owned
    exact .inl ⟨owned, rfl⟩
  · rename_i free
    split
    · rename_i i found
      have least := argmin_eq_some_iff.mp found
      refine .inr ⟨i, free, (mem_subscribers tp.1).mp least.1, fun j subscribed => ?_, rfl⟩
      exact least.2.1 j ((mem_subscribers tp.1).mpr subscribed)
    · rename_i none
      obtain ⟨i, subscribed⟩ := wanted
      have empty := argmin_eq_none.mp none
      have listed := (mem_subscribers tp.1).mpr subscribed
      rw [empty] at listed
      cases listed

theorem lookup_eq_none (free : tp ∉ h.owner) : h.owner.lookup tp = none :=
  AList.lookup_eq_none.mpr free

theorem foldl_fill (tps : List PartitionKey) (listed : ∀ tp ∈ tps, tp ∈ all)
    (wanted : ∀ tp ∈ tps, ∃ i : Place members, (members.get i).subscribes tp.1 = true)
    (sound : h.Sound all) :
    (tps.foldl fill h).Sound all ∧
      (∀ tp i, h.owner.lookup tp = some i → (tps.foldl fill h).owner.lookup tp = some i) ∧
      ∀ tp ∈ tps, tp ∈ (tps.foldl fill h).owner := by
  induction tps generalizing h with
  | nil => exact ⟨sound, fun _ _ owned => owned, fun _ none => nomatch none⟩
  | cons tp tps ih =>
    have listed' : ∀ tp ∈ tps, tp ∈ all := fun tp mem => listed tp (mem_cons_of_mem _ mem)
    have wanted' : ∀ tp ∈ tps, ∃ i : Place members, (members.get i).subscribes tp.1 = true :=
      fun tp mem => wanted tp (mem_cons_of_mem _ mem)
    rw [foldl_cons]
    obtain ⟨here, keeps, owned⟩ : (h.fill tp).Sound all ∧
        (∀ tp' i, h.owner.lookup tp' = some i → (h.fill tp).owner.lookup tp' = some i) ∧
        tp ∈ (h.fill tp).owner := by
      rcases h.fill_cases tp (wanted tp mem_cons_self) with
        ⟨owned, same⟩ | ⟨i, free, subscribed, -, same⟩
      · rw [same]
        exact ⟨sound, fun _ _ owned => owned, owned⟩
      · rw [same]
        refine ⟨sound.place (lookup_eq_none free) (listed tp mem_cons_self) subscribed,
          fun tp' j owned => ?_, mem_insert _ |>.mpr (.inl rfl)⟩
        have other : tp' ≠ tp := by
          rintro rfl
          rw [lookup_eq_none free] at owned
          cases owned
        rw [Holdings.place, lookup_insert_ne other]
        exact owned
    obtain ⟨after, keeps', rest⟩ := ih listed' wanted' here
    refine ⟨after, fun tp' i owner => keeps' tp' i (keeps tp' i owner), fun tp' mem => ?_⟩
    rcases mem_cons.mp mem with rfl | later
    · obtain ⟨i, owner⟩ := mem_iff_lookup.mp owned
      exact mem_of_lookup (keeps' _ i owner)
    · exact rest tp' later

end Holdings

section Sticky

variable {members : List MemberSubscription} {topics : Topics}

theorem stickyKept_sound (members : List MemberSubscription) (topics : Topics) :
    (stickyKept members topics).Sound (allPartitions topics) ∧
      ∀ tp, (stickyKept members topics).owner.lookup tp =
        ((resolveClaims members).lookup tp).filter fun i =>
          tp ∈ allPartitions topics && (members.get i).subscribes tp.1 := by
  obtain ⟨sound, owners⟩ := Holdings.foldl_keep (resolveClaims members).entries
    (resolveClaims members).nodupKeys (Holdings.sound_empty (allPartitions topics))
    fun _ _ => lookup_empty _
  refine ⟨sound, fun tp => (owners tp).trans ?_⟩
  show ((∅ : AList fun _ : PartitionKey => Place members).lookup tp).or _ = _
  rw [lookup_empty]
  rfl

theorem stickyFilled_sound (wanted : Wanted members topics) :
    (stickyFilled members topics).Sound (allPartitions topics) ∧
      (∀ tp i, (stickyKept members topics).owner.lookup tp = some i →
        (stickyFilled members topics).owner.lookup tp = some i) ∧
      ∀ tp ∈ allPartitions topics, tp ∈ (stickyFilled members topics).owner :=
  Holdings.foldl_fill (allPartitions topics) (fun _ mem => mem)
    (fun _ => wanted_partition wanted) (stickyKept_sound members topics).1

theorem stickyBalanced_sound (wanted : Wanted members topics) :
    (stickyBalanced members topics).Sound (allPartitions topics) ∧
      ∀ tp, tp ∈ (stickyBalanced members topics).owner ↔ tp ∈ allPartitions topics := by
  obtain ⟨sound, -, owned⟩ := stickyFilled_sound wanted
  obtain ⟨after, same⟩ := sound.balance (stickyKept members topics).assigned
  refine ⟨after, fun tp => (same tp).trans ⟨fun mem => ?_, owned tp⟩⟩
  obtain ⟨i, owner⟩ := mem_iff_lookup.mp mem
  exact (sound.within tp i ((sound.agrees tp i).mp owner)).1

theorem mem_stickyOwners {tp : PartitionKey} {i : Place members} :
    (tp, i) ∈ stickyOwners members topics ↔
      (stickyBalanced members topics).owner.lookup tp = some i := by
  simp only [stickyOwners, mem_map, Prod.mk.injEq]
  constructor
  · rintro ⟨e, listed, rfl, rfl⟩
    exact mem_dlookup (stickyBalanced members topics).owner.nodupKeys listed
  · intro owner
    exact ⟨⟨tp, i⟩, of_mem_dlookup owner, rfl, rfl⟩

theorem stickyOwners_shares (distinct : (allPartitions topics).Nodup)
    (wanted : Wanted members topics) : Shares members topics (stickyOwners members topics) := by
  obtain ⟨sound, owned⟩ := stickyBalanced_sound wanted
  have keys : (stickyOwners members topics).map (·.1) =
      (stickyBalanced members topics).owner.keys := by
    simp [stickyOwners, AList.keys, List.keys, Function.comp_def]
  refine ⟨?_, fun o listed => ?_⟩
  · rw [keys]
    refine (perm_ext_iff_of_nodup (AList.keys_nodup _) distinct).mpr fun tp => ?_
    exact (AList.mem_keys.symm).trans (owned tp)
  · have mem := (sound.agrees o.1 o.2).mp (mem_stickyOwners.mp listed)
    exact (sound.within o.1 o.2 mem).2

end Sticky

/-! The assignment as a whole -/

section Topics

variable {members : List MemberSubscription} {partitions : TopicMap}

def Assignable (members : List MemberSubscription) (partitions : TopicMap)
    (tp : PartitionKey) : Prop :=
  (∃ m ∈ members, m.subscribes tp.1 = true) ∧
    ∃ known, partitions.lookup tp.1 = some known ∧ tp.2 ∈ known

theorem mem_subscribedTopics {topic : String} :
    topic ∈ subscribedTopics members ↔ ∃ m ∈ members, m.subscribes topic := by
  rw [subscribedTopics, (perm_insertionSort _ _).mem_iff, mem_dedup, mem_flatMap]
  simp [MemberSubscription.subscribes]

theorem mem_sortedTopics {topic : String} {listed : List Int} :
    (topic, listed) ∈ sortedTopics members partitions ↔
      (∃ m ∈ members, m.subscribes topic = true) ∧
        ∃ known, partitions.lookup topic = some known ∧
          (known.insertionSort (· ≤ ·)).dedup = listed := by
  rw [sortedTopics, (perm_insertionSort _ _).mem_iff, mem_filterMap]
  simp only [Option.map_eq_some_iff, Prod.mk.injEq]
  constructor
  · rintro ⟨name, subscribed, known, found, rfl, rfl⟩
    exact ⟨mem_subscribedTopics.mp subscribed, known, found, rfl⟩
  · rintro ⟨subscribed, known, found, rfl⟩
    exact ⟨topic, mem_subscribedTopics.mpr subscribed, known, found, rfl, rfl⟩

theorem mem_allPartitions_sortedTopics {tp : PartitionKey} :
    tp ∈ allPartitions (sortedTopics members partitions) ↔ Assignable members partitions tp := by
  obtain ⟨topic, partition⟩ := tp
  simp only [allPartitions, mem_flatMap, mem_map, Prod.mk.injEq, Assignable]
  constructor
  · rintro ⟨⟨name, listed⟩, mem, p, inside, rfl, rfl⟩
    obtain ⟨subscribed, known, found, rfl⟩ := mem_sortedTopics.mp mem
    rw [mem_dedup, (perm_insertionSort _ _).mem_iff] at inside
    exact ⟨subscribed, known, found, inside⟩
  · rintro ⟨subscribed, known, found, inside⟩
    refine ⟨(topic, (known.insertionSort (· ≤ ·)).dedup),
      mem_sortedTopics.mpr ⟨subscribed, known, found, rfl⟩, partition, ?_, rfl, rfl⟩
    rw [mem_dedup, (perm_insertionSort _ _).mem_iff]
    exact inside

theorem wanted_sortedTopics (members : List MemberSubscription)
    (partitions : TopicMap) :
    Wanted members (sortedTopics members partitions) := by
  intro t mem
  obtain ⟨⟨m, listed, subscribed⟩, -⟩ := mem_sortedTopics.mp (show (t.1, t.2) ∈ _ from mem)
  obtain ⟨i, rfl⟩ := get_of_mem listed
  exact ⟨i, subscribed⟩

theorem sortedTopics_nodup : ((sortedTopics members partitions).map (·.1)).Nodup := by
  have names : ((subscribedTopics members).filterMap fun topic =>
      (partitions.lookup topic).map fun ps => (topic, (ps.insertionSort (· ≤ ·)).dedup)).map (·.1) =
        (subscribedTopics members).filter fun topic => (partitions.lookup topic).isSome := by
    rw [map_filterMap, ← filterMap_eq_filter]
    refine filterMap_congr fun topic _ => ?_
    cases found : partitions.lookup topic with
    | none | some => simp [Option.guard, found]
  have topics : (subscribedTopics members).Nodup :=
    (perm_insertionSort _ _).nodup_iff.mpr (nodup_dedup _)
  have sorted := (perm_insertionSort (fun a b : String × List Int => a.1 ≤ b.1)
    ((subscribedTopics members).filterMap fun topic =>
      (partitions.lookup topic).map fun ps => (topic, (ps.insertionSort (· ≤ ·)).dedup))).map (·.1)
  rw [names] at sorted
  exact sorted.nodup_iff.mpr (topics.filter _)

theorem nodup_allPartitions_sortedTopics :
    (allPartitions (sortedTopics members partitions)).Nodup := by
  have apart : ∀ l : Topics, (l.map (·.1)).Nodup → (∀ t ∈ l, t.2.Nodup) →
      (allPartitions l).Nodup := by
    intro l distinct each
    induction l with
    | nil => exact nodup_nil
    | cons t l ih =>
      rw [map_cons, nodup_cons] at distinct
      rw [allPartitions, List.flatMap_cons, nodup_append]
      refine ⟨(each t mem_cons_self).map fun p q same => (Prod.mk.inj same).2,
        ih distinct.2 fun t' mem => each t' (mem_cons_of_mem _ mem), ?_⟩
      rintro tp here tp' there rfl
      obtain ⟨p, -, rfl⟩ := mem_map.mp here
      obtain ⟨t', mem, inside⟩ := mem_flatMap.mp there
      obtain ⟨q, -, same⟩ := mem_map.mp inside
      exact distinct.1 (mem_map.mpr ⟨t', mem, (Prod.mk.inj same).1⟩)
  refine apart _ sortedTopics_nodup fun t mem => ?_
  obtain ⟨-, known, -, same⟩ := mem_sortedTopics.mp (show (t.1, t.2) ∈ _ from mem)
  exact same ▸ nodup_dedup _

end Topics

def strategyOwners (strategy : PartitionAssignmentStrategy) (members : List MemberSubscription)
    (partitions : TopicMap) : Owners members :=
  match strategy with
  | .range => rangeOwners members (sortedTopics members partitions)
  | .roundRobin => roundRobinOwners members (sortedTopics members partitions)
  | .cooperativeSticky => stickyOwners members (sortedTopics members partitions)

section Assign

variable {members : List MemberSubscription} {partitions : TopicMap}

theorem strategyOwners_shares (strategy : PartitionAssignmentStrategy)
    (members : List MemberSubscription) (partitions : TopicMap) :
    Shares members (sortedTopics members partitions)
      (strategyOwners strategy members partitions) := by
  cases strategy with
  | range => exact rangeOwners_shares _ (wanted_sortedTopics members partitions)
  | roundRobin => exact roundRobinOwners_shares _ (wanted_sortedTopics members partitions)
  | cooperativeSticky =>
    exact stickyOwners_shares nodup_allPartitions_sortedTopics
      (wanted_sortedTopics members partitions)

theorem given_assign (strategy : PartitionAssignmentStrategy) (members : List MemberSubscription)
    (partitions : TopicMap) (memberId : String) :
    (given (assign strategy members partitions) memberId).Perm
      (ownedBy members (strategyOwners strategy members partitions) memberId) := by
  cases strategy <;> exact given_collect members _ memberId

theorem nodup_given_assign (strategy : PartitionAssignmentStrategy)
    (members : List MemberSubscription) (partitions : TopicMap)
    (memberId : String) : (given (assign strategy members partitions) memberId).Nodup := by
  refine (given_assign strategy members partitions memberId).nodup_iff.mpr ?_
  have distinct := (strategyOwners_shares strategy members partitions).whole.nodup_iff.mpr
    nodup_allPartitions_sortedTopics
  exact distinct.sublist (filter_sublist.map _)

variable {strategy : PartitionAssignmentStrategy} {tp : PartitionKey}

theorem mem_given_assign {memberId : String} :
    tp ∈ given (assign strategy members partitions) memberId ↔
      ∃ i, (tp, i) ∈ strategyOwners strategy members partitions ∧
        (members.get i).memberId = memberId := by
  rw [(given_assign strategy members partitions memberId).mem_iff, mem_ownedBy]

theorem owner_unique
    {i j : Place members} (one : (tp, i) ∈ strategyOwners strategy members partitions)
    (two : (tp, j) ∈ strategyOwners strategy members partitions) : i = j := by
  have distinct := (strategyOwners_shares strategy members partitions).whole.nodup_iff.mpr
    nodup_allPartitions_sortedTopics
  exact (Prod.mk.inj (inj_on_of_nodup_map distinct one two rfl)).2

theorem owner_exists (strategy : PartitionAssignmentStrategy)
    (assignable : Assignable members partitions tp) :
    ∃ i, (tp, i) ∈ strategyOwners strategy members partitions := by
  have listed := (strategyOwners_shares strategy members partitions).whole.mem_iff.mpr
    (mem_allPartitions_sortedTopics.mpr assignable)
  obtain ⟨⟨_, i⟩, mem, rfl⟩ := mem_map.mp listed
  exact ⟨i, mem⟩

theorem assignable_of_owner
    {i : Place members} (owner : (tp, i) ∈ strategyOwners strategy members partitions) :
    Assignable members partitions tp :=
  mem_allPartitions_sortedTopics.mp
    ((strategyOwners_shares strategy members partitions).whole.mem_iff.mp
      (mem_map_of_mem (f := (·.1)) owner))

end Assign

/-! Claims -/

section Claims

variable {members : List MemberSubscription} {index : Place members}
  {claims : AList fun _ : PartitionKey => Place members × Int} {tp tp' : PartitionKey}

theorem mem_claim : tp' ∈ claim index claims tp ↔ tp' = tp ∨ tp' ∈ claims := by
  simp only [claim]
  split
  · rename_i held found
    split
    · rw [iff_or_self]
      rintro rfl
      exact mem_of_lookup found
    · exact mem_insert _
  · exact mem_insert _

theorem lookup_claim {held : Place members × Int}
    (found : (claim index claims tp).lookup tp' = some held) :
    claims.lookup tp' = some held ∨ tp' = tp ∧ held.1 = index := by
  have inserted (won : (claims.insert tp (index, (members.get index).generation)).lookup tp' =
      some held) : claims.lookup tp' = some held ∨ tp' = tp ∧ held.1 = index := by
    by_cases here : tp' = tp
    · subst here
      rw [lookup_insert] at won
      exact .inr ⟨rfl, (Option.some.inj won) ▸ rfl⟩
    · rw [lookup_insert_ne here] at won
      exact .inl won
  simp only [claim] at found
  split at found
  · split at found
    · exact .inl found
    · exact inserted found
  · exact inserted found

theorem foldl_claim (index : Place members)
    (claims : AList fun _ : PartitionKey => Place members × Int) (owned : List PartitionKey)
    (tp : PartitionKey) :
    (tp ∈ owned.foldl (claim index) claims ↔ tp ∈ owned ∨ tp ∈ claims) ∧
      ∀ held, (owned.foldl (claim index) claims).lookup tp = some held →
        claims.lookup tp = some held ∨ tp ∈ owned ∧ held.1 = index := by
  induction owned generalizing claims with
  | nil => exact ⟨by simp, fun _ found => .inl found⟩
  | cons first owned ih =>
    obtain ⟨mem, lookup⟩ := ih (claim index claims first)
    refine ⟨?_, fun held found => ?_⟩
    · rw [foldl_cons, mem, mem_claim, mem_cons]
      tauto
    · rcases lookup held found with old | ⟨later, same⟩
      · rcases lookup_claim old with older | ⟨rfl, same⟩
        · exact .inl older
        · exact .inr ⟨mem_cons_self, same⟩
      · exact .inr ⟨mem_cons_of_mem _ later, same⟩

theorem foldl_claims (claims : AList fun _ : PartitionKey => Place members × Int)
    (indices : List (Place members)) (tp : PartitionKey) :
    (tp ∈ indices.foldl (fun claims i => (members.get i).owned.foldl (claim i) claims) claims ↔
        (∃ i ∈ indices, tp ∈ (members.get i).owned) ∨ tp ∈ claims) ∧
      ∀ held, (indices.foldl (fun claims i => (members.get i).owned.foldl (claim i) claims)
          claims).lookup tp = some held →
        claims.lookup tp = some held ∨ tp ∈ (members.get held.1).owned := by
  induction indices generalizing claims with
  | nil => exact ⟨by simp, fun _ found => .inl found⟩
  | cons first indices ih =>
    obtain ⟨mem, lookup⟩ := ih ((members.get first).owned.foldl (claim first) claims)
    have one := foldl_claim first claims (members.get first).owned tp
    refine ⟨?_, fun held found => ?_⟩
    · rw [foldl_cons, mem, one.1, exists_mem_cons_iff, or_left_comm, or_assoc]
    · rcases lookup held found with old | later
      · rcases one.2 held old with older | ⟨here, same⟩
        · exact .inl older
        · exact .inr (same ▸ here)
      · exact .inr later

theorem owned_of_resolveClaims {owner : Place members}
    (picked : (resolveClaims members).lookup tp = some owner) : tp ∈ (members.get owner).owned := by
  rw [resolveClaims, lookup_mapValues] at picked
  obtain ⟨held, found, rfl⟩ := Option.map_eq_some_iff.mp picked
  rcases (foldl_claims ∅ (List.finRange members.length) tp).2 held found with none | claimed
  · simp at none
  · exact claimed

theorem exists_resolveClaims {m : MemberSubscription} (listed : m ∈ members)
    (claimed : tp ∈ m.owned) : ∃ owner, (resolveClaims members).lookup tp = some owner := by
  obtain ⟨i, rfl⟩ := get_of_mem listed
  have present := (foldl_claims ∅ (List.finRange members.length) tp).1.mpr
    (.inl ⟨i, mem_finRange i, claimed⟩)
  obtain ⟨held, found⟩ := mem_iff_lookup.mp present
  exact ⟨held.1, by rw [resolveClaims, lookup_mapValues, found]; rfl⟩

end Claims

/-! Withholding -/

theorem MemberAssignment.mem_allPartitions_retain {a : MemberAssignment}
    {f : String → List Int → List Int} {tp : PartitionKey} :
    tp ∈ MemberAssignment.allPartitions ((a.mapValues f).retain fun _ partitions =>
        !partitions.isEmpty) ↔
      ∃ partitions, a.lookup tp.1 = some partitions ∧ tp.2 ∈ f tp.1 partitions := by
  rw [mem_allPartitions]
  simp only [lookup_retain, lookup_mapValues, Option.filter_eq_some_iff,
    Option.map_eq_some_iff]
  constructor
  · rintro ⟨_, ⟨⟨partitions, found, rfl⟩, -⟩, mem⟩
    exact ⟨partitions, found, mem⟩
  · rintro ⟨partitions, found, mem⟩
    exact ⟨_, ⟨⟨partitions, found, rfl⟩, by simpa using ne_nil_of_mem mem⟩, mem⟩

theorem mem_given_withhold {assignments : Assignments} {members : List MemberSubscription}
    {memberId : String} {tp : PartitionKey} :
    tp ∈ given (withholdTransferringPartitions assignments members) memberId ↔
      tp ∈ given assignments memberId ∧
        ∀ owner, (resolveClaims members).lookup tp = some owner →
          (members.get owner).memberId = memberId := by
  obtain ⟨topic, partition⟩ := tp
  rw [given, given, withholdTransferringPartitions,
    lookup_mapValues]
  cases found : assignments.lookup memberId with
  | none => simp [MemberAssignment.mem_allPartitions]
  | some =>
    simp only [Option.map_some, Option.getD_some]
    rw [MemberAssignment.mem_allPartitions_retain, MemberAssignment.mem_allPartitions]
    simp only [mem_filter]
    cases claimed : (resolveClaims members).lookup (topic, partition) with
    | none => simp
    | some =>
      simp only [decide_eq_true_eq, Option.some.injEq, forall_eq']
      constructor
      · rintro ⟨partitions, held, mem, same⟩
        exact ⟨⟨partitions, held, mem⟩, same⟩
      · rintro ⟨⟨partitions, held, mem⟩, same⟩
        exact ⟨partitions, held, mem, same⟩

/-- Each assignable partition is given once, to one member, which subscribes to its topic, and
nothing else is given. Withholding leaves a claimed partition with the member whose claim won, or
with nobody, and the others where they are. -/
theorem assignment_shares_work (strategy : PartitionAssignmentStrategy)
    (members : List MemberSubscription) (partitions : AList fun _ : String => List Int) :
    let assigned := assign strategy members partitions
    let withheld := withholdTransferringPartitions assigned members
    (∀ tp, Assignable members partitions tp → ∃ m ∈ members, m.subscribes tp.1 ∧
      ∀ memberId, tp ∈ given assigned memberId ↔ memberId = m.memberId) ∧
    (∀ memberId, (given assigned memberId).Nodup ∧
      ∀ tp ∈ given assigned memberId, Assignable members partitions tp) ∧
    (∀ tp, (∃ m ∈ members, tp ∈ m.owned) →
      ∃ owner, (resolveClaims members).lookup tp = some owner ∧
        ∀ memberId, tp ∈ given withheld memberId ↔
          tp ∈ given assigned memberId ∧ memberId = (members.get owner).memberId) ∧
    ∀ tp, (∀ m ∈ members, tp ∉ m.owned) → ∀ memberId,
      tp ∈ given withheld memberId ↔ tp ∈ given assigned memberId := by
  refine ⟨fun tp assignable => ?_, fun memberId => ⟨nodup_given_assign .., fun tp mem => ?_⟩,
    fun tp claimed => ?_, fun tp unclaimed memberId => ?_⟩
  · obtain ⟨i, owner⟩ := owner_exists strategy assignable
    refine ⟨members.get i, get_mem _ _,
      (strategyOwners_shares strategy members partitions).subscribed _ owner, fun memberId => ?_⟩
    rw [mem_given_assign]
    constructor
    · rintro ⟨j, other, rfl⟩
      rw [owner_unique other owner]
    · rintro rfl
      exact ⟨i, owner, rfl⟩
  · obtain ⟨i, owner, -⟩ := mem_given_assign.mp mem
    exact assignable_of_owner owner
  · obtain ⟨m, listed, owned⟩ := claimed
    obtain ⟨owner, picked⟩ := exists_resolveClaims listed owned
    refine ⟨owner, picked, fun memberId => ?_⟩
    rw [mem_given_withhold, picked]
    simp [eq_comm]
  · rw [mem_given_withhold]
    refine and_iff_left fun owner picked => ?_
    exact absurd (owned_of_resolveClaims picked) (unclaimed _ (get_mem _ _))

end Krafka.Consumer
