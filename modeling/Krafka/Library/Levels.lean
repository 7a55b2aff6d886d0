import Mathlib.Algebra.BigOperators.Group.Finset.Basic
import Mathlib.Algebra.BigOperators.Fin
import Mathlib.Algebra.Order.BigOperators.Group.Finset
import Mathlib.Logic.Relation
import Mathlib.Data.Fintype.BigOperators
import Mathlib.Data.Fintype.Lattice
import Mathlib.Tactic.Linarith

/-! Counts over finitely many places: filling the least of them one by one, and evening them
out. -/

universe u

namespace Levels

open Finset Function

variable {ι : Type u}

def Level (c : ι → Nat) : Prop := ∀ i j, c i ≤ c j + 1

variable [DecidableEq ι]

def Fill (c c' : ι → Nat) : Prop := ∃ i, (∀ j, c i ≤ c j) ∧ c' = update c i (c i + 1)

variable [Fintype ι]

theorem sum_update_add (c : ι → Nat) (i : ι) (n : Nat) :
    (∑ j, update c i n j) + c i = (∑ j, c j) + n := by
  have before := sum_update_of_mem (mem_univ i) c (c i)
  have after := sum_update_of_mem (mem_univ i) c n
  rw [update_eq_self] at before
  omega

variable {c c' : ι → Nat}

theorem Fill.sum (fill : Fill c c') : ∑ j, c' j = (∑ j, c j) + 1 := by
  obtain ⟨i, -, rfl⟩ := fill
  have total := sum_update_add c i (c i + 1)
  omega

structure Under (g : ι → Nat) (k : Nat) (c : ι → Nat) : Prop where
  most : ∀ i, c i ≤ k + 1
  low : ∀ j, c j < k → ∀ i, c i ≤ g i ∨ c i ≤ k

variable {g : ι → Nat}

theorem Under.fill {k : Nat} (under : Under g k c)
    (most : ∀ i, g i ≤ k + 1) (fill : Fill c c') (room : ∑ j, c' j ≤ ∑ j, g j) : Under g k c' := by
  obtain ⟨i, least, rfl⟩ := id fill
  by_cases lack : ∃ j, c j < k
  · -- the least count is below `k`, so what is raised stays at most `k`
    obtain ⟨j, below⟩ := lack
    have raised : c i + 1 ≤ k := (least j).trans_lt below
    refine ⟨(forall_update_iff c fun _ n => n ≤ k + 1).mpr
      ⟨by omega, fun l _ => under.most l⟩, fun _ _ => ?_⟩
    exact (forall_update_iff c fun l n => n ≤ g l ∨ n ≤ k).mpr
      ⟨.inr raised, fun l _ => under.low j below l⟩
  · have enough : ∀ j, k ≤ c j := fun j => not_lt.mp fun below => lack ⟨j, below⟩
    have exact_ : c i = k := by
      by_contra other
      have full : ∀ j, k + 1 ≤ c j := fun j =>
        (Nat.lt_of_le_of_ne (enough i) (Ne.symm other)).trans_le (least j)
      have much : ∑ j, g j ≤ ∑ j, c j := sum_le_sum fun j _ => (most j).trans (full j)
      have total := fill.sum
      omega
    have higher : ∀ l, c l ≤ update c i (c i + 1) l :=
      (forall_update_iff c fun l n => c l ≤ n).mpr ⟨Nat.le_succ _, fun _ _ => le_rfl⟩
    exact ⟨(forall_update_iff c fun _ n => n ≤ k + 1).mpr ⟨by omega, fun l _ => under.most l⟩,
      fun j below => absurd ((enough j).trans (higher j)) (not_le.mpr below)⟩

/-- Counts that start under a level filling and are filled to the same total end level. -/
theorem level_of_fills (level : Level g) (start : ∀ i, c i ≤ g i)
    (fills : Relation.ReflTransGen Fill c c') (total : ∑ j, c' j = ∑ j, g j) : Level c' := by
  rcases isEmpty_or_nonempty ι with none | some
  · exact fun i => isEmptyElim i
  obtain ⟨lowest, least⟩ := Finite.exists_min g
  have most : ∀ i, g i ≤ g lowest + 1 := fun i => level i lowest
  have reached : (∑ j, c' j ≤ ∑ j, g j) → Under g (g lowest) c' := by
    clear total
    induction fills with
    | refl => exact fun _ => ⟨fun i => (start i).trans (most i), fun _ _ i => .inl (start i)⟩
    | tail _ fill ih =>
      intro room
      have earlier := fill.sum
      exact (ih (by omega)).fill most fill room
  have under := reached total.le
  have enough : ∀ j, g lowest ≤ c' j := by
    intro j
    by_contra short
    have below : c' j < g lowest := not_le.mp short
    have all : ∀ i ∈ univ, c' i ≤ g i := fun i _ =>
      (under.low j below i).elim id fun few => few.trans (least i)
    exact (sum_lt_sum all ⟨j, mem_univ j, below.trans_le (least j)⟩).ne total
  exact fun i j => (under.most i).trans (Nat.add_le_add_right (enough j) 1)

omit [DecidableEq ι] in
/-- Among level counts of one total, those hold most of `k` for which no count that falls short of
`k` is below one that exceeds it. -/
theorem sum_min_le_of_level {k : ι → Nat} (level : Level c) (other : Level g)
    (total : ∑ l, c l = ∑ l, g l) (frugal : ∀ i j, c i < k i → k j < c j → c j ≤ c i) :
    ∑ l, min (k l) (g l) ≤ ∑ l, min (k l) (c l) := by
  by_cases low : ∃ i, c i < k i ∧ ∀ l, c i ≤ c l
  · obtain ⟨i, short, least⟩ := low
    have floor (l : ι) : c i ≤ g l := by
      by_contra below
      have all : ∀ m ∈ univ, g m ≤ c m := fun m _ => by
        have near := other m l
        have bound := least m
        omega
      have strict : g l < c l := (not_le.mp below).trans_le (least l)
      exact (sum_lt_sum all ⟨l, mem_univ l, strict⟩).ne total.symm
    have each : ∑ l, (min (k l) (g l) + c l) ≤ ∑ l, (min (k l) (c l) + g l) := by
      refine sum_le_sum fun l _ => ?_
      have bound := floor l
      have above := frugal i l short
      omega
    rw [sum_add_distrib, sum_add_distrib, total] at each
    exact Nat.le_of_add_le_add_right each
  · refine sum_le_sum fun l _ => ?_
    by_contra above
    have short : c l < k l := by omega
    have higher : c l < g l := by omega
    obtain ⟨m, less⟩ : ∃ m, c m < c l := by
      by_contra none
      exact low ⟨l, short, fun m => not_lt.mp fun less => none ⟨m, less⟩⟩
    have all : ∀ x ∈ univ, c x ≤ g x := fun x _ => by
      have near := level x m
      have near' := other l x
      omega
    exact (sum_lt_sum all ⟨l, mem_univ l, higher⟩).ne total

/-- Moving one from a count to another that is smaller by two or more lowers the sum of the
squares, also where it does not arrive. -/
theorem sum_sq_lt {i j : ι} (apart : c j + 2 ≤ c i) (giver : c' i + 1 = c i)
    (taker : c' j ≤ c j + 1) (others : ∀ l, l ≠ i → l ≠ j → c' l = c l) :
    ∑ l, c' l ^ 2 < ∑ l, c l ^ 2 := by
  have distinct : j ≠ i := by
    rintro rfl
    omega
  have split (d : ι → Nat) : ∑ l, d l ^ 2 = d i ^ 2 + (d j ^ 2 + ∑ l ∈ univ \ {i, j}, d l ^ 2) := by
    have pair : ∑ l ∈ ({i, j} : Finset ι), d l ^ 2 = d i ^ 2 + d j ^ 2 :=
      sum_pair distinct.symm
    have whole := sum_sdiff (f := fun l => d l ^ 2) (subset_univ ({i, j} : Finset ι))
    omega
  have rest : ∑ l ∈ univ \ {i, j}, c' l ^ 2 = ∑ l ∈ univ \ {i, j}, c l ^ 2 := by
    refine sum_congr rfl fun l outside => ?_
    simp only [mem_sdiff, mem_univ, true_and, mem_insert, mem_singleton, not_or] at outside
    rw [others l outside.1 outside.2]
  rw [split c', split c, rest]
  have moved : c' i ^ 2 + c' j ^ 2 < c i ^ 2 + c j ^ 2 := by
    rw [← giver]
    have up : c' j ^ 2 ≤ (c j + 1) ^ 2 := Nat.pow_le_pow_left taker 2
    nlinarith
  omega

end Levels
