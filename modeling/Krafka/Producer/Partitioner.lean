import Krafka.Metadata.Cache

/-! The built-in partitioner. A record with a key goes where its hash says; records without one
stick to a partition until `batch_size` bytes have gone there. -/

namespace Krafka.Producer

open Metadata

def murmurM : UInt32 := 0x5bd1e995

def murmurLoop (h : UInt32) : List UInt8 → UInt32
  | a :: b :: c :: d :: rest =>
    let k := a.toUInt32 ||| b.toUInt32 <<< 8 ||| c.toUInt32 <<< 16 ||| d.toUInt32 <<< 24
    let k := k * murmurM
    murmurLoop (h * murmurM ^^^ (k ^^^ k >>> 24) * murmurM) rest
  | [a, b, c] => (h ^^^ c.toUInt32 <<< 16 ^^^ b.toUInt32 <<< 8 ^^^ a.toUInt32) * murmurM
  | [a, b] => (h ^^^ b.toUInt32 <<< 8 ^^^ a.toUInt32) * murmurM
  | [a] => (h ^^^ a.toUInt32) * murmurM
  | [] => h

def murmur2 (data : List UInt8) : UInt32 :=
  let h := murmurLoop (0x9747b28c ^^^ UInt32.ofNat data.length) data
  let h := (h ^^^ h >>> 13) * murmurM
  h ^^^ h >>> 15

def partitionForKey (key : List UInt8) (partitionCount : Nat) : Int :=
  ((murmur2 key &&& 0x7fffffff).toNat % partitionCount : Nat)

-- The key `test` of ten partitions.
example : partitionForKey [116, 101, 115, 116] 10 = 9 := by decide

abbrev InRange (partitionCount : Nat) (p : Int) : Prop := 0 ≤ p ∧ p < (partitionCount : Int)

def partitionsLedInRack (cache : MetadataCache) (topic rack : String) (partitionCount : Nat) :
    List Int :=
  match cache.topics.lookup topic with
  | none => []
  | some info =>
    let led := info.partitions.entries.filter fun p =>
      0 ≤ p.2.leader ∧ InRange partitionCount p.2.partition ∧
        ((cache.brokers.lookup p.2.leader).any fun broker => broker.rack = some rack)
    (led.map (·.2.partition)).mergeSort

def allPartitions (partitionCount : Nat) : List Int :=
  (List.range partitionCount).map fun p : Nat => min (p : Int) 2147483647

/-- `draw` is what the random number generator gives. -/
def pickOther (candidates : List Int) (avoid : Option Int) (draw : Nat) : Int :=
  let others := candidates.filter fun p => some p ≠ avoid
  let pool := if others.isEmpty then candidates else others
  pool[draw % pool.length]?.getD 0

structure Sticky where
  partition : Int
  bytes : Nat := 0

def maxTrackedTopics : Nat := 10000

structure BuiltInPartitioner where
  batchSize : Nat
  rack : Option String := none
  sticky : AList fun _ : String => Sticky := ∅

namespace BuiltInPartitioner

def new (batchSize : Nat) (rack : Option String) : BuiltInPartitioner :=
  { batchSize := max batchSize 1, rack }

variable (b : BuiltInPartitioner) (cache : MetadataCache) (topic : String) (partitionCount : Nat)

def choose (avoid : Option Int) (draw : Nat) : Int :=
  let inRack := (b.rack.map (partitionsLedInRack cache topic · partitionCount)).filter (· ≠ [])
  pickOther (inRack.getD (allPartitions partitionCount)) avoid draw

def evicted (draw : Nat) : AList fun _ : String => Sticky :=
  if topic ∉ b.sticky ∧ maxTrackedTopics ≤ b.sticky.keys.length then
    match b.sticky.keys[draw % b.sticky.keys.length]? with
    | some evict => b.sticky.erase evict
    | none => b.sticky
  else b.sticky

def account (entry : Sticky) (recordSize draw : Nat) : Sticky :=
  if b.batchSize ≤ entry.bytes + recordSize then
    ⟨b.choose cache topic partitionCount (some entry.partition) draw, 0⟩
  else ⟨entry.partition, entry.bytes + recordSize⟩

/-- The draws are for the topic that is evicted, and for the three places that choose. -/
def partition (key : Option (List UInt8)) (recordSize : Nat) (draw : Nat → Nat) :
    Int × BuiltInPartitioner :=
  if partitionCount = 0 then (0, b)
  else
    match key with
    | some key => (partitionForKey key partitionCount, b)
    | none =>
      let sticky := b.evicted topic (draw 0)
      let entry := (sticky.lookup topic).getD ⟨b.choose cache topic partitionCount none (draw 1), 0⟩
      let entry :=
        if InRange partitionCount entry.partition then entry
        else ⟨b.choose cache topic partitionCount none (draw 2), 0⟩
      let next := b.account cache topic partitionCount entry recordSize (draw 3)
      (entry.partition, { b with sticky := sticky.insert topic next })

end BuiltInPartitioner

structure KeylessRecord where
  cache : MetadataCache
  size : Nat
  draw : Nat → Nat

/-- Where the records of a topic go, with their sizes. -/
def routed (topic : String) (count : Nat) :
    BuiltInPartitioner → List KeylessRecord → List (Int × Nat)
  | _, [] => []
  | b, r :: records =>
    let (p, b) := b.partition r.cache topic count none r.size r.draw
    (p, r.size) :: routed topic count b records

/-- After `n` bytes for `p`: it is left once `batchSize` bytes have gone there and not before, for
a partition of the topic that is another one if `free`. -/
inductive Sticks (count batchSize : Nat) (free : Prop) : Int → Nat → List (Int × Nat) → Prop
  | nil {p n} : Sticks count batchSize free p n []
  | stay {p n size rest} (short : n + size < batchSize)
      (more : Sticks count batchSize free p (n + size) rest) :
      Sticks count batchSize free p n ((p, size) :: rest)
  | leave {p q n size rest} (full : batchSize ≤ n + size) (inRange : InRange count q)
      (other : free → q ≠ p) (more : Sticks count batchSize free q 0 rest) :
      Sticks count batchSize free p n ((p, size) :: rest)

section Choice

variable {candidates : List Int} (avoid : Option Int) (draw : Nat)

theorem drawn_mem (some_ : candidates ≠ []) :
    candidates[draw % candidates.length]?.getD 0 ∈ candidates := by
  have bound : draw % candidates.length < candidates.length :=
    Nat.mod_lt _ (List.length_pos_of_ne_nil some_)
  rw [List.getElem?_eq_getElem bound]
  exact List.getElem_mem bound

theorem pickOther_mem (some_ : candidates ≠ []) : pickOther candidates avoid draw ∈ candidates := by
  unfold pickOther
  dsimp only
  split
  · exact drawn_mem draw some_
  · next others => exact List.mem_of_mem_filter (drawn_mem draw (mt List.isEmpty_iff.mpr others))

theorem pickOther_ne {p q : Int} (there : q ∈ candidates) (other : q ≠ p) :
    pickOther candidates (some p) draw ≠ p := by
  have others : candidates.filter (fun c => some c ≠ some p) ≠ [] :=
    List.ne_nil_of_mem (List.mem_filter.mpr ⟨there, by simpa using other⟩)
  unfold pickOther
  dsimp only
  rw [if_neg (mt List.isEmpty_iff.mp others)]
  simpa using (List.mem_filter.mp (drawn_mem draw others)).2

variable (b : BuiltInPartitioner) (cache : MetadataCache) (topic : String) {count : Nat}

theorem inRange_of_led {rack : String} {p : Int}
    (led : p ∈ partitionsLedInRack cache topic rack count) : InRange count p := by
  unfold partitionsLedInRack at led
  split at led
  · cases led
  · obtain ⟨info, there, rfl⟩ := List.mem_map.mp (List.mem_mergeSort.mp led)
    exact (of_decide_eq_true (List.mem_filter.mp there).2).2.1

theorem inRange_choose (positive : 0 < count) :
    InRange count (b.choose cache topic count avoid draw) := by
  have all : ∀ p ∈ allPartitions count, InRange count p := by
    simp only [allPartitions, List.forall_mem_map, List.mem_range]
    omega
  have some_ : allPartitions count ≠ [] := by simpa [allPartitions] using positive.ne'
  unfold BuiltInPartitioner.choose
  cases b.rack with
  | none => exact all _ (pickOther_mem avoid draw some_)
  | some rack =>
    by_cases none_ : partitionsLedInRack cache topic rack count = []
    · simpa [none_, Option.filter] using all _ (pickOther_mem avoid draw some_)
    · simpa [none_, Option.filter] using inRange_of_led cache topic (pickOther_mem avoid draw none_)

theorem choose_ne (plain : b.rack = none) (more : 2 ≤ count) (p : Int) :
    b.choose cache topic count (some p) draw ≠ p := by
  have listed {k : Nat} (below : k < 2) : (k : Int) ∈ allPartitions count :=
    List.mem_map.mpr ⟨k, List.mem_range.mpr (by omega), by omega⟩
  simp only [BuiltInPartitioner.choose, plain, Option.map_none, Option.filter_none,
    Option.getD_none]
  by_cases first : p = 0
  · exact pickOther_ne draw (listed Nat.one_lt_two) (by omega)
  · exact pickOther_ne draw (listed Nat.two_pos) (Ne.symm first)

end Choice

namespace BuiltInPartitioner

variable {b : BuiltInPartitioner} {topic : String} {count : Nat}

theorem lookup_evicted (draw : Nat) :
    (b.evicted topic draw).lookup topic = b.sticky.lookup topic := by
  unfold evicted
  split
  · next absent =>
    rw [AList.lookup_eq_none.mpr absent.1]
    split
    · exact AList.lookup_eq_none.mpr fun there => absent.1 (AList.mem_erase.mp there).2
    · exact AList.lookup_eq_none.mpr absent.1
  · rfl

theorem partition_keyless (positive : 0 < count) (r : KeylessRecord) {entry : Sticky}
    (found : (b.sticky.lookup topic).getD ⟨b.choose r.cache topic count none (r.draw 1), 0⟩ = entry)
    (inRange : InRange count entry.partition) :
    b.partition r.cache topic count none r.size r.draw =
      (entry.partition, ⟨b.batchSize, b.rack, (b.evicted topic (r.draw 0)).insert topic
        (b.account r.cache topic count entry r.size (r.draw 3))⟩) := by
  simp only [partition, if_neg positive.ne', lookup_evicted, found, if_pos inRange]

/-- The entry of the first record is found or made, those of the later ones are found. -/
theorem sticks_routed (positive : 0 < count) {batchSize : Nat} {rack : Option String}
    {records : List KeylessRecord} {p : Int} {n : Nat}
    (settings : b.batchSize = batchSize ∧ b.rack = rack) (inRange : InRange count p)
    (found : ∀ r ∈ records.head?, (b.sticky.lookup topic).getD
      ⟨b.choose r.cache topic count none (r.draw 1), 0⟩ = ⟨p, n⟩) :
    Sticks count batchSize (rack = none ∧ 2 ≤ count) p n (routed topic count b records) := by
  induction records generalizing b p n with
  | nil => exact .nil
  | cons r records ih =>
    have chosen := inRange_choose (some p) (r.draw 3) b r.cache topic positive
    simp only [routed, partition_keyless positive r (found r rfl) inRange, account]
    obtain ⟨rfl, rfl⟩ := settings
    split
    · next full =>
      exact .leave full chosen (fun free => choose_ne _ b _ _ free.1 free.2 p)
        (ih ⟨rfl, rfl⟩ chosen (by simp))
    · next short => exact .stay (Nat.lt_of_not_le short) (ih ⟨rfl, rfl⟩ inRange (by simp))

end BuiltInPartitioner

/-- Records without keys go to one of the topic's partitions until `batchSize` bytes have gone
there, and then to another, if there is another and no rack is asked for; whatever the metadata
says and whatever is drawn. -/
theorem keyless_records_stick (batchSize : Nat) (rack : Option String) (topic : String)
    (others : Nat) (records : List KeylessRecord) :
    ∃ p, InRange (others + 1) p ∧
      Sticks (others + 1) (max batchSize 1) (rack = none ∧ 2 ≤ others + 1) p 0
        (routed topic (others + 1) (.new batchSize rack) records) := by
  cases records with
  | nil => exact ⟨0, by omega, .nil⟩
  | cons r records =>
    have chosen := inRange_choose none (r.draw 1) (.new batchSize rack) r.cache topic others.succ_pos
    refine ⟨_, chosen, BuiltInPartitioner.sticks_routed others.succ_pos ⟨rfl, rfl⟩ chosen ?_⟩
    rintro _ ⟨⟩
    rfl

end Krafka.Producer
