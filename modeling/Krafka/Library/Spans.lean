import Mathlib.Data.List.Chain
import Mathlib.Data.List.Sort

/-! Lists of labelled intervals of integers: the label of an integer, an interval laid over a list
of them, and a set of integers filled from left to right. -/

universe u

structure Span (κ : Type u) where
  first : Int
  last : Int
  kind : κ
  ordered : first ≤ last
  deriving DecidableEq

namespace Span

open List

variable {κ : Type u}

def Has (s : Span κ) (i : Int) : Prop := s.first ≤ i ∧ i ≤ s.last

instance (s : Span κ) (i : Int) : Decidable (s.Has i) :=
  inferInstanceAs (Decidable (s.first ≤ i ∧ i ≤ s.last))

def Before (a b : Span κ) : Prop := a.last < b.first

def Labels (spans : List (Span κ)) (i : Int) (k : κ) : Prop := ∃ s ∈ spans, s.Has i ∧ s.kind = k

variable {i : Int}

theorem Before.not_has {a b : Span κ} (before : a.Before b) (here : a.Has i) : ¬ b.Has i := by
  intro there
  exact Int.lt_irrefl _ (Int.lt_of_le_of_lt here.2 (Int.lt_of_lt_of_le before there.1))

theorem labels_nil (i : Int) (k : κ) : ¬ Labels [] i k := by
  rintro ⟨s, there, -⟩
  cases there

variable {s : Span κ} {spans : List (Span κ)} {k : κ}

theorem labels_cons : Labels (s :: spans) i k ↔ (s.Has i ∧ s.kind = k) ∨ Labels spans i k := by
  simp [Labels]

theorem labels_append {more : List (Span κ)} :
    Labels (spans ++ more) i k ↔ Labels spans i k ∨ Labels more i k := by
  simp [Labels, or_and_right, exists_or]

theorem labels_perm {other : List (Span κ)} (perm : spans.Perm other) :
    Labels spans i k ↔ Labels other i k := by
  simp only [Labels, perm.mem_iff]

section Push

variable [DecidableEq κ]

def push (s : Span κ) : List (Span κ) → List (Span κ)
  | [] => [s]
  | [a] =>
    if joins : a.kind = s.kind ∧ a.last + 1 = s.first then
      [{ a with last := s.last, ordered := by have := a.ordered; have := s.ordered; omega }]
    else [a, s]
  | a :: b :: rest => a :: push s (b :: rest)

theorem labels_push (s : Span κ) (spans : List (Span κ)) (i : Int) (k : κ) :
    Labels (push s spans) i k ↔ Labels spans i k ∨ (s.Has i ∧ s.kind = k) := by
  induction spans using push.induct s with
  | case1 => simp [push, Labels]
  | case2 a joins =>
    have long := a.ordered
    have wide := s.ordered
    simp only [push, joins, and_self, dite_true, Labels, Has, mem_singleton, exists_eq_left]
    constructor
    · rintro ⟨⟨low, high⟩, kind⟩
      by_cases early : i ≤ a.last
      · exact .inl ⟨⟨low, early⟩, kind⟩
      · exact .inr ⟨⟨by omega, high⟩, kind⟩
    · rintro (⟨⟨low, high⟩, kind⟩ | ⟨⟨low, high⟩, kind⟩)
      · exact ⟨⟨low, by omega⟩, kind⟩
      · exact ⟨⟨by omega, high⟩, kind⟩
  | case3 a apart =>
    rw [push, dif_neg apart, labels_cons, labels_cons, labels_cons]
    simp [labels_nil]
  | case4 a b rest ih =>
    have spread : Labels (a :: b :: rest) i k ↔ (a.Has i ∧ a.kind = k) ∨ Labels (b :: rest) i k :=
      labels_cons
    rw [push, labels_cons, ih, spread, or_assoc]

variable {s : Span κ} {spans : List (Span κ)}

theorem mem_push {t : Span κ} (there : t ∈ push s spans) :
    t ∈ spans ∨ (t.last = s.last ∧ (t.first = s.first ∨ ∃ a ∈ spans, t.first = a.first)) := by
  induction spans using push.induct s with
  | case1 =>
    obtain rfl := mem_singleton.mp there
    exact .inr ⟨rfl, .inl rfl⟩
  | case2 a joins =>
    simp only [push, joins, and_self, dite_true, mem_singleton] at there
    subst there
    exact .inr ⟨rfl, .inr ⟨a, mem_singleton_self a, rfl⟩⟩
  | case3 a apart =>
    rw [push, dif_neg apart] at there
    rcases mem_cons.mp there with rfl | new
    · exact .inl (mem_singleton_self _)
    · obtain rfl := mem_singleton.mp new
      exact .inr ⟨rfl, .inl rfl⟩
  | case4 a b rest ih =>
    rcases mem_cons.mp there with rfl | later
    · exact .inl mem_cons_self
    · rcases ih later with old | ⟨last, first | ⟨c, listed, first⟩⟩
      · exact .inl (mem_cons_of_mem _ old)
      · exact .inr ⟨last, .inl first⟩
      · exact .inr ⟨last, .inr ⟨c, mem_cons_of_mem _ listed, first⟩⟩

theorem pairwise_push (separated : spans.Pairwise Before)
    (after : ∀ a ∈ spans, a.Before s) : (push s spans).Pairwise Before := by
  induction spans using push.induct s with
  | case1 => exact pairwise_singleton _ _
  | case2 a joins =>
    rw [push, dif_pos joins]
    exact pairwise_singleton _ _
  | case3 a apart =>
    rw [push, dif_neg apart]
    simpa using after a (mem_singleton_self a)
  | case4 a b rest ih =>
    obtain ⟨ahead, separated⟩ := pairwise_cons.mp separated
    rw [push, pairwise_cons]
    refine ⟨fun t there => ?_, ih separated fun c listed => after c (mem_cons_of_mem _ listed)⟩
    rcases mem_push there with old | ⟨-, first | ⟨c, listed, first⟩⟩
    · exact ahead t old
    · exact (after a mem_cons_self).trans_eq first.symm
    · exact (ahead c listed).trans_eq first.symm

def Merged (spans : List (Span κ)) : Prop :=
  spans.IsChain fun a b => a.last + 1 = b.first → a.kind ≠ b.kind

theorem push_cons (s a : Span κ) (rest : List (Span κ)) :
    ∃ t more, push s (a :: rest) = t :: more ∧ t.first = a.first ∧ t.kind = a.kind := by
  cases rest with
  | nil =>
    unfold push
    split
    · exact ⟨_, _, rfl, rfl, rfl⟩
    · exact ⟨_, _, rfl, rfl, rfl⟩
  | cons => exact ⟨a, _, rfl, rfl, rfl⟩

theorem Merged.push (s : Span κ) (merged : Merged spans) : Merged (push s spans) := by
  induction spans using push.induct s with
  | case1 => exact isChain_singleton s
  | case2 a joins =>
    rw [Span.push, dif_pos joins]
    exact isChain_singleton _
  | case3 a apart =>
    rw [Span.push, dif_neg apart]
    exact isChain_pair.mpr fun next same => apart ⟨same, next⟩
  | case4 a b rest ih =>
    obtain ⟨step, merged⟩ := isChain_cons_cons.mp merged
    obtain ⟨t, more, whole, first, kind⟩ := push_cons s b rest
    have later := ih merged
    rw [Span.push, whole]
    rw [whole] at later
    exact isChain_cons_cons.mpr ⟨by rwa [first, kind], later⟩

theorem pairwise_push_append {later : List (Span κ)}
    (apart : (spans ++ s :: later).Pairwise Before) : (push s spans ++ later).Pairwise Before := by
  obtain ⟨before, after, across⟩ := pairwise_append.mp apart
  obtain ⟨ahead, after⟩ := pairwise_cons.mp after
  refine pairwise_append.mpr
    ⟨pairwise_push before fun a listed => across a listed s mem_cons_self, after, ?_⟩
  intro t there u listed
  rcases mem_push there with old | ⟨last, -⟩
  · exact across t old u (mem_cons_of_mem _ listed)
  · exact last.trans_lt (ahead u listed)

theorem foldl_push {later : List (Span κ)} (apart : (spans ++ later).Pairwise Before)
    (merged : Merged spans) :
    (later.foldl (fun spans s => Span.push s spans) spans).Pairwise Before ∧
      Merged (later.foldl (fun spans s => Span.push s spans) spans) := by
  induction later generalizing spans with
  | nil => exact ⟨by rwa [append_nil] at apart, merged⟩
  | cons s later ih => exact ih (pairwise_push_append apart) (merged.push s)

end Push

/-! Laying a span over others -/

def cut (s a : Span κ) : List (Span κ) :=
  if a.last < s.first ∨ s.last < a.first then [a]
  else
    (if low : a.first < s.first then
      [{ a with last := s.first - 1, ordered := Int.le_sub_one_of_lt low }] else []) ++
    (if high : s.last < a.last then
      [{ a with first := s.last + 1, ordered := high }] else [])

theorem mem_cut {a t : Span κ} (there : t ∈ cut s a) :
    t.kind = a.kind ∧ a.first ≤ t.first ∧ t.last ≤ a.last ∧ (t.Before s ∨ s.Before t) := by
  unfold cut at there
  split at there
  · obtain rfl := mem_singleton.mp there
    exact ⟨rfl, Int.le_refl _, Int.le_refl _, ‹_›⟩
  · rename_i meets
    rcases mem_append.mp there with left | right
    · split at left
      · obtain rfl := mem_singleton.mp left
        refine ⟨rfl, Int.le_refl _, ?_, .inl (Int.sub_one_lt_of_le (Int.le_refl _))⟩
        show s.first - 1 ≤ a.last
        omega
      · cases left
    · split at right
      · obtain rfl := mem_singleton.mp right
        refine ⟨rfl, ?_, Int.le_refl _, .inr (Int.lt_succ _)⟩
        show a.first ≤ s.last + 1
        omega
      · cases right

theorem labels_cut (s a : Span κ) (i : Int) (k : κ) :
    Labels (cut s a) i k ↔ (a.Has i ∧ a.kind = k) ∧ ¬ s.Has i := by
  have long := a.ordered
  have wide := s.ordered
  unfold cut
  split
  · rename_i apart
    simp only [Labels, mem_singleton, exists_eq_left, Has]
    constructor
    · rintro ⟨here, rfl⟩
      exact ⟨⟨here, rfl⟩, by omega⟩
    · exact And.left
  · rename_i meets
    rw [labels_append]
    constructor
    · rintro (⟨t, there, ⟨low, high⟩, kind⟩ | ⟨t, there, ⟨low, high⟩, kind⟩)
      · split at there
        · obtain rfl := mem_singleton.mp there
          simp only at low high
          exact ⟨⟨⟨low, by omega⟩, kind⟩, fun inside => by have := inside.1; omega⟩
        · cases there
      · split at there
        · obtain rfl := mem_singleton.mp there
          simp only at low high
          exact ⟨⟨⟨by omega, high⟩, kind⟩, fun inside => by have := inside.2; omega⟩
        · cases there
    · rintro ⟨⟨⟨low, high⟩, kind⟩, outside⟩
      simp only [Has] at outside
      by_cases early : i < s.first
      · rw [dif_pos (by omega : a.first < s.first)]
        exact .inl ⟨_, mem_singleton_self _, ⟨low, Int.le_sub_one_of_lt early⟩, kind⟩
      · rw [dif_pos (by omega : s.last < a.last)]
        exact .inr ⟨_, mem_singleton_self _, ⟨by show s.last + 1 ≤ i; omega, high⟩, kind⟩

theorem pairwise_before_of_sorted
    (sorted : spans.Pairwise fun a b => a.first ≤ b.first)
    (apart : spans.Pairwise fun a b => a.Before b ∨ b.Before a) : spans.Pairwise Before := by
  refine (sorted.and apart).imp fun {a b} h => ?_
  rcases h.2 with before | after
  · exact before
  · have := b.ordered
    have := a.ordered
    have := h.1
    simp only [Before] at *
    omega

def overlay (s : Span κ) (spans : List (Span κ)) : List (Span κ) :=
  (spans.flatMap (cut s) ++ [s]).insertionSort fun a b => a.first ≤ b.first

theorem labels_overlay (s : Span κ) (spans : List (Span κ)) (i : Int) (k : κ) :
    Labels (overlay s spans) i k ↔
      (s.Has i ∧ s.kind = k) ∨ (¬ s.Has i ∧ Labels spans i k) := by
  have pieces : Labels (spans.flatMap (cut s)) i k ↔ ¬ s.Has i ∧ Labels spans i k := by
    induction spans with
    | nil => simp [labels_nil]
    | cons a spans ih =>
      rw [flatMap_cons, labels_append, labels_cut, ih, labels_cons]
      tauto
  rw [overlay, labels_perm (perm_insertionSort _ _), labels_append, pieces, labels_cons]
  simp [labels_nil, or_comm]

theorem pairwise_overlay (s : Span κ) (separated : spans.Pairwise Before) :
    (overlay s spans).Pairwise Before := by
  refine pairwise_before_of_sorted (pairwise_insertionSort _ _) ?_
  rw [overlay, (perm_insertionSort _ _).pairwise_iff (fun h => Or.symm h),
    pairwise_append]
  refine ⟨?_, pairwise_singleton _ _, ?_⟩
  · rw [pairwise_flatMap]
    constructor
    · intro a listed
      have long := a.ordered
      have wide := s.ordered
      unfold cut
      split
      · exact pairwise_singleton _ _
      · split <;> split <;> simp [Before]
        omega
    · refine separated.imp fun {a b} before t there u thereAlso => .inl ?_
      have left := mem_cut there
      have right := mem_cut thereAlso
      simp only [Before] at *
      omega
  · intro t there u last
    obtain rfl := mem_singleton.mp last
    obtain ⟨a, -, piece⟩ := mem_flatMap.mp there
    exact (mem_cut piece).2.2.2

/-! Filling a set from left to right -/

structure Fills (T : Int → κ → Prop) (spans : List (Span κ)) (next : Int) : Prop where
  separated : spans.Pairwise Before
  below : ∀ s ∈ spans, s.last < next
  labels : ∀ i k, Labels spans i k ↔ T i k ∧ i < next

variable {T : Int → κ → Prop} {spans : List (Span κ)} {next : Int}

theorem Fills.nil (none : ∀ i k, i < next → ¬ T i k) : Fills T [] next where
  separated := List.Pairwise.nil
  below := nofun
  labels i k := by
    rw [iff_false_left (labels_nil i k)]
    exact fun h => none i k h.2 h.1

theorem Fills.skip (fills : Fills T spans next) {next' : Int} (le : next ≤ next')
    (none : ∀ i k, next ≤ i → i < next' → ¬ T i k) : Fills T spans next' where
  separated := fills.separated
  below s there := Int.lt_of_lt_of_le (fills.below s there) le
  labels i k := by
    rw [fills.labels]
    constructor
    · exact fun h => ⟨h.1, Int.lt_of_lt_of_le h.2 le⟩
    · intro h
      by_contra late
      exact none i k (Int.not_lt.mp fun early => late ⟨h.1, early⟩) h.2 h.1

theorem Fills.push [DecidableEq κ] (fills : Fills T spans s.first)
    (all : ∀ i k, s.Has i → (T i k ↔ s.kind = k)) : Fills T (push s spans) (s.last + 1) where
  separated := pairwise_push fills.separated fills.below
  below t there := by
    have wide := s.ordered
    rcases mem_push there with old | ⟨last, -⟩
    · have := fills.below t old
      omega
    · omega
  labels i k := by
    have wide := s.ordered
    rw [labels_push, fills.labels]
    constructor
    · rintro (⟨labelled, early⟩ | ⟨here, kind⟩)
      · exact ⟨labelled, by omega⟩
      · exact ⟨(all i k here).mpr kind, Int.lt_add_one_of_le here.2⟩
    · rintro ⟨labelled, early⟩
      by_cases low : i < s.first
      · exact .inl ⟨labelled, low⟩
      · have here : s.Has i := ⟨Int.not_lt.mp low, Int.lt_add_one_iff.mp early⟩
        exact .inr ⟨here, (all i k here).mp labelled⟩

end Span
