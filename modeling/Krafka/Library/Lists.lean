import Mathlib.Algebra.Order.Ring.Int
import Mathlib.Data.List.Perm.Basic
import Mathlib.Data.List.Nodup
import Mathlib.Data.List.Infix
import Mathlib.Data.List.TakeWhile
import Mathlib.Order.MinMax

/-! Lists whose entries carry distinct labels, and what is left of them when some labels are
taken out. -/

universe u v

namespace Lists

open List

variable {α : Type u} {β : Type v} [DecidableEq β] {label : α → β}

def without (label : α → β) (gone : List β) (l : List α) : List α :=
  l.filter fun a => label a ∉ gone

theorem without_append (gone : List β) (l l' : List α) :
    without label gone (l ++ l') = without label gone l ++ without label gone l' :=
  filter_append ..

variable {gone : List β}

theorem without_congr {gone' : List β} (same : ∀ b, b ∈ gone' ↔ b ∈ gone) (l : List α) :
    without label gone' l = without label gone l :=
  filter_congr fun a _ => by simp [same]

variable {l : List α}

theorem mem_without {a : α} : a ∈ without label gone l ↔ a ∈ l ∧ label a ∉ gone := by
  simp [without]

theorem mem_update {f : β → List α} {key k : β} {new : List α} {a : α}
    (there : a ∈ Function.update f key new k) : k = key ∧ a ∈ new ∨ k ≠ key ∧ a ∈ f k := by
  by_cases here : k = key
  · subst here
    exact .inl ⟨rfl, by rwa [Function.update_self] at there⟩
  · exact .inr ⟨here, by rwa [Function.update_of_ne here] at there⟩

theorem without_of_disjoint (fresh : ∀ a ∈ l, label a ∉ gone) : without label gone l = l :=
  filter_eq_self.mpr fun a ha => by simpa using fresh a ha

theorem without_removed {removed kept : List α} (distinct : (l.map label).Nodup)
    (parts : (without label gone l).Perm (removed ++ kept))
    (order : kept.Sublist (without label gone l)) :
    without label (gone ++ removed.map label) l = kept := by
  have twice : without label (gone ++ removed.map label) l =
      without label (removed.map label) (without label gone l) := by
    simp only [without, filter_filter]
    exact filter_congr fun a _ => by rw [Bool.eq_iff_iff]; simp [not_or, and_comm]
  have split : ((removed ++ kept).map label).Nodup :=
    (parts.map label).nodup_iff.mp (distinct.sublist (filter_sublist.map label))
  have apart : ∀ a ∈ kept, label a ∉ removed.map label := by
    intro a ha shared
    rw [map_append, nodup_append] at split
    exact split.2.2 _ shared _ (mem_map_of_mem ha) rfl
  have emptied : without label (removed.map label) removed = [] :=
    filter_eq_nil_iff.mpr fun a ha => by simpa using ⟨a, ha, rfl⟩
  have perm : (without label (removed.map label) (without label gone l)).Perm kept := by
    have filtered : (without label (removed.map label) (without label gone l)).Perm
        (without label (removed.map label) (removed ++ kept)) := parts.filter _
    rwa [without_append, emptied, without_of_disjoint apart, nil_append] at filtered
  have sub : kept.Sublist (without label (removed.map label) (without label gone l)) := by
    have filtered := order.filter fun a => decide (label a ∉ removed.map label)
    rwa [show kept.filter _ = kept from without_of_disjoint apart] at filtered
  rw [twice]
  exact (sub.eq_of_length perm.length_eq.symm).symm

section Ordered

variable {κ : Type v} [LinearOrder κ]

theorem lt_of_mem_dropWhile {key : α → κ} {bound : κ} {l : List α}
    (sorted : (l.map key).Pairwise (· ≤ ·)) : ∀ a ∈ l.dropWhile (key · ≤ bound), bound < key a := by
  induction l with
  | nil => exact fun _ member => nomatch member
  | cons head l ih =>
    rw [map_cons, pairwise_cons] at sorted
    by_cases due : key head ≤ bound
    · rw [dropWhile_cons_of_pos (by simpa using due)]
      exact ih sorted.2
    · rw [dropWhile_cons_of_neg (by simpa using due)]
      rintro a (_ | ⟨_, member⟩)
      · exact lt_of_not_ge due
      · exact (lt_of_not_ge due).trans_le (sorted.1 _ (mem_map_of_mem member))

/-- Of a list in which every entry before one that passes passes too, the front that passes has all
that do. -/
theorem mem_takeWhile {p : α → Bool} {l : List α} (down : l.Pairwise fun a b => p b = true → p a = true)
    {a : α} (there : a ∈ l) (passes : p a) : a ∈ l.takeWhile p := by
  induction l with
  | nil => cases there
  | cons head l ih =>
    obtain ⟨above, down⟩ := pairwise_cons.mp down
    rcases mem_cons.mp there with rfl | later
    · rw [takeWhile_cons_of_pos passes]
      exact mem_cons_self
    · rw [takeWhile_cons_of_pos (above a later passes)]
      exact mem_cons_of_mem _ (ih down later)

theorem mem_dropWhile {p : α → Bool} {l : List α} {a : α} (there : a ∈ l) (fails : ¬ p a) :
    a ∈ l.dropWhile p := by
  rw [← takeWhile_append_dropWhile (p := p) (l := l)] at there
  rcases mem_append.mp there with front | rest
  · exact absurd (mem_takeWhile_imp front) fails
  · exact rest

theorem foldl_min_le (l : List κ) (start : κ) : ∀ a ∈ start :: l, l.foldl min start ≤ a := by
  induction l generalizing start with
  | nil => simp
  | cons head l ih =>
    have least := ih (min start head)
    rw [forall_mem_cons] at least
    rintro a (_ | ⟨_, _ | ⟨_, member⟩⟩)
    · exact least.1.trans (min_le_left ..)
    · exact least.1.trans (min_le_right ..)
    · exact least.2 a member

end Ordered

section Turns

variable {σ : Type u} {ι : Type v} {κ ν : Type} (view : σ → κ → ν) {key : ι → κ} {step : σ → ι → σ}

theorem view_foldl_of_notMem (apart : ∀ s i k, k ≠ key i → view (step s i) k = view s k)
    {l : List ι} {k : κ} (absent : k ∉ l.map key) (s : σ) : view (l.foldl step s) k = view s k := by
  induction l generalizing s with
  | nil => rfl
  | cons i l ih =>
    rw [map_cons, mem_cons, not_or] at absent
    exact (ih absent.2 _).trans (apart s i k absent.1)

/-- If the keys are distinct, each step finds the view at its key as it was at the start, and what
it makes of it stays. -/
theorem view_foldl (apart : ∀ s i k, k ≠ key i → view (step s i) k = view s k) {l : List ι}
    (distinct : (l.map key).Nodup) {i : ι} (there : i ∈ l) (s : σ) :
    ∃ s', view s' (key i) = view s (key i) ∧
      view (l.foldl step s) (key i) = view (step s' i) (key i) := by
  induction l generalizing s with
  | nil => cases there
  | cons head l ih =>
    rw [map_cons, nodup_cons] at distinct
    rcases mem_cons.mp there with rfl | later
    · exact ⟨s, rfl, view_foldl_of_notMem view apart distinct.1 _⟩
    · have other : key i ≠ key head := fun same => distinct.1 (same ▸ mem_map_of_mem later)
      obtain ⟨s', same, final⟩ := ih distinct.2 later (step s head)
      exact ⟨s', same.trans (apart s head (key i) other), final⟩

end Turns

section Indexed

variable {γ : Type v}

variable {l : List α} {a : α}

theorem flatMap_eq_of_only (distinct : l.Nodup) {f : α → List γ}
    (there : a ∈ l) (only : ∀ b ∈ l, b ≠ a → f b = []) : l.flatMap f = f a := by
  obtain ⟨front, back, rfl⟩ := append_of_mem there
  have apart : (a :: (front ++ back)).Nodup := (perm_middle.nodup_iff).mp distinct
  have others {b : α} (listed : b ∈ front ++ back) : f b = [] := by
    refine only b ?_ fun same => (nodup_cons.mp apart).1 (same ▸ listed)
    exact perm_middle.mem_iff.mpr (mem_cons_of_mem _ listed)
  have before : front.flatMap f = [] :=
    flatMap_eq_nil_iff.mpr fun b listed => others (mem_append_left _ listed)
  have after : back.flatMap f = [] :=
    flatMap_eq_nil_iff.mpr fun b listed => others (mem_append_right _ listed)
  rw [flatMap_append, flatMap_cons, before, after, nil_append, append_nil]

theorem exists_flatMap_zipIdx_set (f : α × Nat → List γ) {i : Nat}
    (there : l[i]? = some a) (offset : Nat) : ∃ front back,
      (l.zipIdx offset).flatMap f = front ++ f (a, offset + i) ++ back ∧
        ∀ b, ((l.set i b).zipIdx offset).flatMap f = front ++ f (b, offset + i) ++ back := by
  induction l generalizing i offset with
  | nil => cases there
  | cons head l ih =>
    cases i with
    | zero =>
      cases there
      refine ⟨[], (l.zipIdx (offset + 1)).flatMap f, ?_, fun b => ?_⟩ <;> simp
    | succ i =>
      obtain ⟨front, back, before, after⟩ := ih there (offset + 1)
      have shift : offset + 1 + i = offset + (i + 1) := by omega
      rw [shift] at before after
      refine ⟨f (head, offset) ++ front, back, ?_, fun b => ?_⟩
      · simp only [zipIdx_cons, flatMap_cons, before, append_assoc]
      · simp only [set_cons_succ, zipIdx_cons, flatMap_cons, after,
          append_assoc]

theorem sum_map_set (f : α → Nat) {i : Nat} (there : l[i]? = some a) (b : α) :
    ((l.set i b).map f).sum + f a = (l.map f).sum + f b := by
  induction l generalizing i with
  | nil => cases there
  | cons head l ih =>
    cases i with
    | zero =>
      cases there
      simp only [set_cons_zero, map_cons, sum_cons]
      omega
    | succ =>
      have rest := ih there
      simp only [set_cons_succ, map_cons, sum_cons]
      omega

omit [DecidableEq β] in
theorem map_filterMap_sublist {g : α → Option γ} (label : α → β) (label' : γ → β)
    (kept : ∀ a c, g a = some c → label' c = label a) (l : List α) :
    ((l.filterMap g).map label').Sublist (l.map label) := by
  induction l with
  | nil => exact .slnil
  | cons a l ih =>
    rw [filterMap_cons, map_cons]
    cases given : g a with
    | none => exact ih.cons _
    | some c =>
      rw [map_cons, kept a c given]
      exact ih.cons_cons _

theorem flatMap_filter {p : α → Bool} {f : α → List γ} (only : ∀ a, p a = false → f a = [])
    (l : List α) : (l.filter p).flatMap f = l.flatMap f := by
  induction l with
  | nil => rfl
  | cons a l ih => cases taken : p a <;> simp [taken, ih, only]

theorem filterMap_getElem?_range (l : List γ) (n : Nat) :
    (List.range n).filterMap (l[·]?) = l.take n := by
  induction n with
  | zero => rfl
  | succ n ih =>
    rw [range_succ, filterMap_append, ih, take_add_one]
    cases found : l[n]? <;> simp [found]

end Indexed

end Lists
