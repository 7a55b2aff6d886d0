import Krafka.Consumer.Convergence
import Krafka.Library.Lists

/-! How even the range and the round-robin assignor are. -/

namespace Krafka.Consumer

open Function Assignments

/-! What a member gets -/

section Given

variable {members : List MemberSubscription}

theorem ownedAt_rangeOwners {topics : Topics}
    (named : (topics.map (·.1)).Nodup) {t : String × List Int} (listed : t ∈ topics) {rank : Nat}
    {i : Place members} (ranked : (subscribers members t.1)[rank]? = some i) :
    (ownedAt (rangeOwners members topics) i).filter (fun tp => tp.1 = t.1) =
      (rangeRun t.2 (subscribers members t.1).length rank).map fun p => (t.1, p) := by
  have some : ¬ (subscribers members t.1).isEmpty := by
    rw [List.isEmpty_iff]
    exact fun none => by simp [none] at ranked
  have distinct : (subscribers members t.1).Nodup := (List.nodup_finRange _).filter _
  have elsewhere : ∀ t' ∈ topics, t' ≠ t →
      (if (subscribers members t'.1).isEmpty then []
        else (rangeTopic t'.1 t'.2 (subscribers members t'.1)).1).filter
          (fun o => decide (o.2 = i) && decide (o.1.1 = t.1)) = [] := by
    intro t' listed' other
    refine List.filter_eq_nil_iff.mpr fun o there => ?_
    have named' : t'.1 ≠ t.1 := fun same =>
      other (List.inj_on_of_nodup_map named listed' listed same)
    split at there
    · cases there
    · simp [mem_rangeTopic there, named']
  have ranks : ∀ s ∈ (subscribers members t.1).zipIdx, s ≠ (i, rank) →
      ((rangeRun t.2 (subscribers members t.1).length s.2).map fun p =>
        (((t.1, p), s.1) : PartitionKey × Place members)).filter
          (fun o => decide (o.2 = i) && decide (o.1.1 = t.1)) = [] := by
    intro s there other
    have place : s.1 ≠ i := by
      intro same
      have once := (List.getElem?_inj (List.getElem?_eq_some_iff.mp ranked).1 distinct).mp
        (ranked.trans (same ▸ List.mk_mem_zipIdx_iff_getElem?.mp there).symm)
      exact other (Prod.ext same once.symm)
    refine List.filter_eq_nil_iff.mpr fun o there => ?_
    obtain ⟨p, -, rfl⟩ := List.mem_map.mp there
    simp [place]
  have here : (i, rank) ∈ (subscribers members t.1).zipIdx :=
    List.mk_mem_zipIdx_iff_getElem?.mpr ranked
  rw [ownedAt, List.filter_map, List.filter_filter, rangeOwners, List.filter_flatMap]
  simp only [Function.comp_apply, Bool.and_comm (decide (_ = t.1))]
  rw [Lists.flatMap_eq_of_only named.of_map listed elsewhere, if_neg some, rangeTopic_eq,
    List.filter_flatMap,
    Lists.flatMap_eq_of_only (List.nodup_zipIdx_map_snd _).of_map here ranks]
  simp [List.filter_map, Function.comp_def]

end Given

/-! Turns -/

section Turns

variable {members : List MemberSubscription}

theorem length_ownedAt_concat (owners : Owners members) (tp : PartitionKey)
    (i j : Place members) :
    (ownedAt (owners ++ [(tp, i)]) j).length =
      (ownedAt owners j).length + if i = j then 1 else 0 := by
  by_cases here : i = j <;> simp [ownedAt, here]

structure InTurn (turn : Owners members × Nat) : Prop where
  cursor : turn.2 ≤ members.length
  rounds : ∃ rounds, ∀ j : Place members,
    (ownedAt turn.1 j).length = rounds + if (j : Nat) < turn.2 then 1 else 0

theorem chosen_of_alike (alike : Alike members) (filled : 0 < members.length) (cursor : Nat)
    (topic : String) :
    chosen members filled cursor topic = none ∨
      chosen members filled cursor topic =
        some ⟨cursor % members.length, Nat.mod_lt _ filled⟩ := by
  cases found : chosen members filled cursor topic with
  | none => exact .inl rfl
  | some i =>
    refine .inr (found.symm.trans ?_)
    have subscribed : (members.get ⟨cursor % members.length, Nat.mod_lt _ filled⟩).subscribes topic =
        true := by
      rw [alike _ (List.get_mem ..) (members.get i) (List.get_mem ..)]
      exact subscribes_of_chosen found
    obtain ⟨rest, first⟩ : ∃ rest, List.range members.length = 0 :: rest := by
      obtain ⟨n, more⟩ := Nat.exists_eq_succ_of_ne_zero filled.ne'
      exact ⟨_, (congrArg List.range more).trans List.range_succ_eq_map⟩
    rw [chosen, first, List.map_cons]
    exact List.find?_cons_of_pos (by simpa using subscribed)

theorem InTurn.next {turn : Owners members × Nat} (alike : Alike members)
    (filled : 0 < members.length) (inTurn : InTurn turn) (tp : PartitionKey) :
    InTurn (roundRobinTurn members filled turn tp) := by
  unfold roundRobinTurn
  rcases chosen_of_alike alike filled turn.2 tp.1 with nobody | next
  · rw [nobody]
    exact inTurn
  · rw [next]
    obtain ⟨rounds, counts⟩ := inTurn.rounds
    refine ⟨Nat.mod_lt _ filled, ?_⟩
    -- the turn comes round to the first member when the cursor is past the last
    rcases Nat.lt_or_eq_of_le inTurn.cursor with inside | past
    · refine ⟨rounds, fun j => ?_⟩
      simp only [length_ownedAt_concat, counts, Fin.ext_iff, Nat.mod_eq_of_lt inside]
      split_ifs <;> omega
    · refine ⟨rounds + 1, fun j => ?_⟩
      have all := j.isLt
      simp only [length_ownedAt_concat, counts, Fin.ext_iff, past, Nat.mod_self]
      split_ifs <;> omega

theorem inTurn_roundRobin (alike : Alike members) (filled : 0 < members.length)
    (tps : List PartitionKey) {turn : Owners members × Nat}
    (inTurn : InTurn turn) : InTurn (tps.foldl (roundRobinTurn members filled) turn) := by
  induction tps generalizing turn with
  | nil => exact inTurn
  | cons tp tps ih => exact ih (inTurn.next alike filled tp)

theorem roundRobinOwners_level (alike : Alike members) (topics : Topics) :
    Levels.Level fun i => (ownedAt (roundRobinOwners members topics) i).length := by
  intro i j
  have filled : 0 < members.length := i.pos
  have start : InTurn (([], 0) : Owners members × Nat) :=
    ⟨Nat.zero_le _, 0, fun _ => rfl⟩
  obtain ⟨rounds, counts⟩ := (inTurn_roundRobin alike filled (allPartitions topics) start).rounds
  simp only [roundRobinOwners, dif_pos filled, counts]
  split_ifs <;> omega

end Turns

/-- Range gives each subscriber of a topic the run of its rank, the first `partitions % subscribers`
of them longer by one. Where all subscribe to the same topics, the totals of round-robin differ by
at most one. -/
theorem range_and_round_robin_are_even (members : List MemberSubscription)
    (distinct : (members.map (·.memberId)).Nodup) (topics : List (String × List Int)) :
    ((topics.map (·.1)).Nodup → ∀ t ∈ topics,
      (0 < (subscribers members t.1).length →
        (List.range (subscribers members t.1).length).flatMap
          (rangeRun t.2 (subscribers members t.1).length) = t.2) ∧
      ∀ rank i, (subscribers members t.1)[rank]? = some i →
        ((given (collect members (rangeOwners members topics))
          (members.get i).memberId).filter (fun tp => tp.1 = t.1)).Perm
            ((rangeRun t.2 (subscribers members t.1).length rank).map fun p => (t.1, p)) ∧
        (rangeRun t.2 (subscribers members t.1).length rank).length =
          t.2.length / (subscribers members t.1).length +
            if rank < t.2.length % (subscribers members t.1).length then 1 else 0) ∧
    (Alike members → ∀ i j : Place members,
      (given (collect members (roundRobinOwners members topics)) (members.get i).memberId).length ≤
        (given (collect members (roundRobinOwners members topics))
          (members.get j).memberId).length + 1) := by
  refine ⟨fun named t listed => ⟨fun some => ?_, fun rank i ranked => ⟨?_, ?_⟩⟩, fun alike i j => ?_⟩
  · rw [take_rangeStart, rangeStart_self _ some, List.take_length]
  · rw [← ownedAt_rangeOwners named listed ranked]
    exact (given_place distinct _ i).filter _
  · exact length_rangeRun _ (List.getElem?_eq_some_iff.mp ranked).1
  · rw [(given_place distinct _ i).length_eq, (given_place distinct _ j).length_eq]
    exact roundRobinOwners_level alike topics i j

theorem sampleGroup_is_even : (sampleGroup.map (·.memberId)).Nodup ∧
    ((given (collect sampleGroup (rangeOwners sampleGroup [("t", [0, 1, 2])]))
      "a").filter (fun tp => tp.1 = "t")).Perm [("t", 0), ("t", 1)] ∧
    (given (collect sampleGroup (roundRobinOwners sampleGroup [("t", [0, 1, 2])]))
      "a").length ≤
      (given (collect sampleGroup (roundRobinOwners sampleGroup [("t", [0, 1, 2])]))
        "b").length + 1 := by
  have distinct : (sampleGroup.map (·.memberId)).Nodup := by decide
  obtain ⟨range, roundRobin⟩ := range_and_round_robin_are_even sampleGroup distinct
    [("t", [0, 1, 2])]
  refine ⟨distinct, ?_, roundRobin sampleGroup_alike ⟨0, by decide⟩ ⟨1, by decide⟩⟩
  exact ((range (by decide) _ List.mem_cons_self).2 0 ⟨0, by decide⟩ rfl).1

end Krafka.Consumer
