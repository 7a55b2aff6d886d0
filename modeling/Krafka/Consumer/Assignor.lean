import Krafka.Consumer.Group
import Krafka.Library.Levels
import Krafka.Library.Ordered
import Mathlib.Data.List.MinMax
import Mathlib.Data.List.TakeWhile
import Mathlib.Data.Prod.Lex
import Mathlib.Data.String.Basic

/-! The partition assignors of the classic group protocol. The leader computes every member's
assignment from the subscriptions alone. Members are named by their place in the list. -/

namespace Krafka.Consumer

open Function

instance : IsTrans PartitionKey PartitionKey.le where
  trans a b c := by
    rintro (ab | ⟨ab, ab'⟩) (bc | ⟨bc, bc'⟩)
    · exact .inl (ab.trans bc)
    · exact .inl (bc ▸ ab)
    · exact .inl (ab ▸ bc)
    · exact .inr ⟨ab.trans bc, ab'.trans bc'⟩

instance : Std.Total PartitionKey.le where
  total a b := by
    rcases lt_trichotomy a.1 b.1 with less | same | more
    · exact .inl (.inl less)
    · rcases le_total a.2 b.2 with less | more
      · exact .inl (.inr ⟨same, less⟩)
      · exact .inr (.inr ⟨same.symm, more⟩)
    · exact .inr (.inl more)

inductive PartitionAssignmentStrategy where
  | range | roundRobin | cooperativeSticky
  deriving DecidableEq

namespace PartitionAssignmentStrategy

def isCooperative : PartitionAssignmentStrategy → Bool
  | .cooperativeSticky => true
  | _ => false

end PartitionAssignmentStrategy

structure MemberSubscription where
  memberId : String
  topics : KeySet String
  owned : List PartitionKey := []
  generation : Int := -1

def MemberSubscription.subscribes (m : MemberSubscription) (topic : String) : Bool :=
  topic ∈ m.topics.keys

abbrev Assignments := AList fun _ : String => MemberAssignment

abbrev TopicMap := AList fun _ : String => List Int

abbrev Topics := List (String × List Int)

abbrev PartitionSet := TreeSet PartitionKey.le

def subscribedTopics (members : List MemberSubscription) : List String :=
  (members.flatMap (·.topics.keys)).dedup.insertionSort (· ≤ ·)

section Members

variable (members : List MemberSubscription)

abbrev Place := Fin members.length

abbrev Owners (members : List MemberSubscription) := List (PartitionKey × Place members)

def Assignments.push (out : Assignments) (memberId : String) (tp : PartitionKey) : Assignments :=
  match out.lookup memberId with
  | some assignment =>
    out.insert memberId (assignment.insert tp.1 ((assignment.lookup tp.1).getD [] ++ [tp.2]))
  | none => out

def collect (owners : Owners members) : Assignments :=
  let out : Assignments := AList.insertAll ∅ (members.map fun m => (m.memberId, ∅))
  let out := owners.foldl (fun out o => out.push (members.get o.2).memberId o.1) out
  out.mapValues fun _ assignment =>
    assignment.mapValues fun _ partitions => partitions.insertionSort (· ≤ ·)

/-! The range assignor -/

section Range

variable {members} (topic : String) (partitions : List Int)

def rangeSlice (perMember extra : Nat) (state : Owners members × Nat)
    (subscriber : Place members × Nat) : Owners members × Nat :=
  let count := perMember + if subscriber.2 < extra then 1 else 0
  (state.1 ++ ((partitions.drop state.2).take count).map fun p => ((topic, p), subscriber.1),
    state.2 + count)

def rangeTopic (subscribers : List (Place members)) : Owners members × Nat :=
  subscribers.zipIdx.foldl
    (rangeSlice topic partitions (partitions.length / subscribers.length)
      (partitions.length % subscribers.length)) ([], 0)

end Range

def subscribers (topic : String) : List (Place members) :=
  (List.finRange members.length).filter fun i => (members.get i).subscribes topic

def rangeOwners (topics : Topics) : Owners members :=
  topics.flatMap fun t =>
    if (subscribers members t.1).isEmpty then []
    else (rangeTopic t.1 t.2 (subscribers members t.1)).1

/-! The round-robin assignor -/

def chosen (filled : 0 < members.length) (cursor : Nat) (topic : String) : Option (Place members) :=
  ((List.range members.length).map fun step =>
    (⟨(cursor + step) % members.length, Nat.mod_lt _ filled⟩ : Place members)).find? fun i =>
      (members.get i).subscribes topic

def roundRobinTurn (filled : 0 < members.length)
    (turn : Owners members × Nat) (tp : PartitionKey) :
    Owners members × Nat :=
  match chosen members filled turn.2 tp.1 with
  | some member => (turn.1 ++ [(tp, member)], member + 1)
  | none => turn

def allPartitions (topics : Topics) : List PartitionKey :=
  topics.flatMap fun t => t.2.map fun p => (t.1, p)

def roundRobinOwners (topics : Topics) : Owners members :=
  if filled : 0 < members.length then
    ((allPartitions topics).foldl (roundRobinTurn members filled) ([], 0)).1
  else []

/-! The cooperative-sticky assignor -/

section Claims

variable {members}

def claim (index : Place members)
    (claims : AList fun _ : PartitionKey => Place members × Int) (tp : PartitionKey) :
    AList fun _ : PartitionKey => Place members × Int :=
  let generation := (members.get index).generation
  match claims.lookup tp with
  | some (_, held) => if generation ≤ held then claims else claims.insert tp (index, generation)
  | none => claims.insert tp (index, generation)

end Claims

/-- The live owner of each claimed partition: the claim with the highest generation, the first
one on a tie. -/
def resolveClaims : AList fun _ : PartitionKey => Place members :=
  let claims := (List.finRange members.length).foldl
    (fun claims index => (members.get index).owned.foldl (claim index) claims) ∅
  claims.mapValues fun _ held => held.1

structure Holdings where
  assigned : Place members → PartitionSet := fun _ => .empty
  owner : AList fun _ : PartitionKey => Place members := ∅

namespace Holdings

variable {members}

def count (h : Holdings members) (i : Place members) : Nat := (h.assigned i).len

def place (h : Holdings members) (tp : PartitionKey) (index : Place members) : Holdings members where
  assigned := update h.assigned index ((h.assigned index).insert tp)
  owner := h.owner.insert tp index

def move (h : Holdings members) (from_ to_ : Place members) (tp : PartitionKey) :
    Holdings members :=
  let assigned := update h.assigned from_ ((h.assigned from_).erase tp)
  { assigned := update assigned to_ ((assigned to_).insert tp)
    owner := h.owner.insert tp to_ }

def key (h : Holdings members) (i : Place members) : Nat ×ₗ Place members := toLex (h.count i, i)

def keep (all : List PartitionKey) (h : Holdings members)
    (e : Sigma fun _ : PartitionKey => Place members) : Holdings members :=
  if e.1 ∈ all && (members.get e.2).subscribes e.1.1 then h.place e.1 e.2 else h

def fill (h : Holdings members) (tp : PartitionKey) : Holdings members :=
  if tp ∈ h.owner then h
  else
    match (subscribers members tp.1).argmin h.key with
    | some index => h.place tp index
    | none => h

/-- What one member can give another: `max_by_key` takes the last of the greatest and goes
through the set backwards, so the first partition that was not kept, else the first. -/
def candidate (h : Holdings members) (kept : Place members → PartitionSet)
    (from_ to_ : Place members) : Option PartitionKey :=
  ((h.assigned from_).keys.filter fun tp => (members.get to_).subscribes tp.1).argmax fun tp =>
    decide (tp ∉ (kept from_).keys)

def byCount (h : Holdings members) : List (Place members) :=
  (List.finRange members.length).insertionSort fun i j => h.key i ≤ h.key j

def search (h : Holdings members) (kept : Place members → PartitionSet) :
    Option (Place members × Place members × PartitionKey) :=
  h.byCount.findSome? fun to_ =>
    (h.byCount.reverse.takeWhile fun from_ => h.count to_ + 2 ≤ h.count from_).findSome? fun from_ =>
      (h.candidate kept from_ to_).map fun tp => (from_, to_, tp)

variable {h : Holdings members} {kept : Place members → PartitionSet} {from_ to_ : Place members} {tp : PartitionKey}

theorem candidate_mem
    (found : h.candidate kept from_ to_ = some tp) :
    tp ∈ (h.assigned from_).keys ∧ (members.get to_).subscribes tp.1 := by
  have listed := List.argmax_mem (Option.mem_def.mpr found)
  exact ⟨(List.mem_filter.mp listed).1, (List.mem_filter.mp listed).2⟩

theorem search_eq_some
    (found : h.search kept = some (from_, to_, tp)) :
    h.count to_ + 2 ≤ h.count from_ ∧ tp ∈ (h.assigned from_).keys ∧
      (members.get to_).subscribes tp.1 := by
  obtain ⟨to', -, found⟩ := List.exists_of_findSome?_eq_some found
  obtain ⟨from', within, found⟩ := List.exists_of_findSome?_eq_some found
  obtain ⟨tp', candidate, same⟩ := Option.map_eq_some_iff.mp found
  cases same
  obtain ⟨held, subscribed⟩ := candidate_mem candidate
  exact ⟨by simpa using List.mem_takeWhile_imp within, held, subscribed⟩

theorem count_move_from
    (other : from_ ≠ to_) (held : tp ∈ (h.assigned from_).keys) :
    (h.move from_ to_ tp).count from_ + 1 = h.count from_ := by
  simp only [move, count, update_of_ne other, update_self]
  exact TreeSet.len_erase held

theorem count_move_le
    (other : from_ ≠ to_) : (h.move from_ to_ tp).count to_ ≤ h.count to_ + 1 := by
  simp only [move, count, update_self, update_of_ne other.symm]
  exact TreeSet.len_insert_le _ _

theorem sum_sq_move_lt
    (found : h.search kept = some (from_, to_, tp)) :
    ∑ i, (h.move from_ to_ tp).count i ^ 2 < ∑ i, h.count i ^ 2 := by
  obtain ⟨apart, held, -⟩ := search_eq_some found
  have other : from_ ≠ to_ := by
    rintro rfl
    omega
  refine Levels.sum_sq_lt apart (count_move_from other held) (count_move_le other) fun i one two => ?_
  simp [move, count, update_of_ne one, update_of_ne two]

def balance (h : Holdings members) (kept : Place members → PartitionSet) : Holdings members :=
  match found : h.search kept with
  | some (from_, to_, tp) =>
    have _lower := sum_sq_move_lt found
    (h.move from_ to_ tp).balance kept
  | none => h
termination_by ∑ i, h.count i ^ 2

end Holdings

def stickyKept (topics : Topics) : Holdings members :=
  (resolveClaims members).entries.foldl (Holdings.keep (allPartitions topics)) {}

def stickyFilled (topics : Topics) : Holdings members :=
  (allPartitions topics).foldl Holdings.fill (stickyKept members topics)

def stickyBalanced (topics : Topics) : Holdings members :=
  (stickyFilled members topics).balance (stickyKept members topics).assigned

def stickyOwners (topics : Topics) : Owners members :=
  (stickyBalanced members topics).owner.entries.map fun e => (e.1, e.2)

end Members

/-! The assignment -/

def sortedTopics (members : List MemberSubscription)
    (partitions : TopicMap) : Topics :=
  ((subscribedTopics members).filterMap fun topic =>
    (partitions.lookup topic).map fun ps => (topic, (ps.insertionSort (· ≤ ·)).dedup)).insertionSort
      fun a b => a.1 ≤ b.1

def assign (strategy : PartitionAssignmentStrategy) (members : List MemberSubscription)
    (partitions : TopicMap) : Assignments :=
  let topics := sortedTopics members partitions
  collect members
    (match strategy with
    | .range => rangeOwners members topics
    | .roundRobin => roundRobinOwners members topics
    | .cooperativeSticky => stickyOwners members topics)

def withholdTransferringPartitions (assignments : Assignments)
    (members : List MemberSubscription) : Assignments :=
  let previousOwner := resolveClaims members
  assignments.mapValues fun memberId assignment =>
    (assignment.mapValues fun topic partitions =>
      partitions.filter fun p =>
        match previousOwner.lookup (topic, p) with
        | some owner => (members.get owner).memberId = memberId
        | none => true).retain fun _ partitions => !partitions.isEmpty

end Krafka.Consumer
