import Mathlib.Data.List.AList
import Mathlib.Algebra.BigOperators.Group.List.Basic
import Mathlib.Tactic.Abel

/-! Finite maps with a bulk filter and weighted totals over their entries, and finite
sets kept as duplicate-free lists, for models that iterate over a hash set. -/

universe u v w

namespace AList

open List

variable {α : Type u} {β : Type v} [DecidableEq α]

def retain (p : α → β → Bool) (m : AList fun _ : α => β) : AList fun _ : α => β where
  entries := m.entries.filter fun e => p e.1 e.2
  nodupKeys := m.nodupKeys.sublist (filter_sublist ..)

theorem lookup_retain (p : α → β → Bool) (m : AList fun _ : α => β) (a : α) :
    (m.retain p).lookup a = (m.lookup a).filter (p a) := by
  obtain ⟨entries, nodup⟩ := m
  show (entries.filter fun e => p e.1 e.2).dlookup a = (entries.dlookup a).filter (p a)
  induction entries with
  | nil => rfl
  | cons e entries ih =>
    obtain ⟨k, b⟩ := e
    have tail : entries.NodupKeys := (nodupKeys_cons.mp nodup).2
    have fresh : k ∉ entries.keys := (nodupKeys_cons.mp nodup).1
    by_cases hk : a = k
    · subst hk
      by_cases hp : p a b
      · simp [hp, Option.filter]
      · have absent : entries.dlookup a = none := dlookup_eq_none.mpr fresh
        simp [hp, ih tail, absent, Option.filter]
    · by_cases hp : p k b
      · simp [hp, hk, ih tail]
      · simp [hp, hk, ih tail]

def total {M : Type w} [AddCommMonoid M] (f : α → β → M) (m : AList fun _ : α => β) : M :=
  (m.entries.map fun e => f e.1 e.2).sum

def weight {M : Type w} [AddCommMonoid M] (f : α → β → M) (m : AList fun _ : α => β) (a : α) : M :=
  ((m.lookup a).map (f a)).getD 0

variable {M : Type w} {m : AList fun _ : α => β}

theorem mem_iff_lookup {a : α} : a ∈ m ↔ ∃ b, m.lookup a = some b := by
  rw [← lookup_isSome, Option.isSome_iff_exists]

theorem mem_of_lookup {a : α} {b : β} (found : m.lookup a = some b) : a ∈ m :=
  mem_iff_lookup.mpr ⟨b, found⟩

theorem mem_insert_of_mem {a k : α} (present : a ∈ m) (b : β) : k ∈ m.insert a b ↔ k ∈ m := by
  rw [mem_insert, or_iff_right_iff_imp]
  rintro rfl
  exact present

theorem total_congr [AddCommMonoid M] {f g : α → β → M}
    (same : ∀ a b, m.lookup a = some b → f a b = g a b) : m.total f = m.total g := by
  refine congrArg List.sum (map_congr_left fun e he => ?_)
  exact same e.1 e.2 (mem_dlookup m.nodupKeys he)

theorem total_eq_weight_add_erase [AddCommMonoid M] (f : α → β → M)
    (m : AList fun _ : α => β) (a : α) : m.total f = m.weight f a + (m.erase a).total f := by
  obtain ⟨entries, nodup⟩ := m
  show (entries.map fun e => f e.1 e.2).sum =
    ((entries.dlookup a).map (f a)).getD 0 + ((entries.kerase a).map fun e => f e.1 e.2).sum
  induction entries with
  | nil => simp
  | cons e entries ih =>
    obtain ⟨k, b⟩ := e
    have tail : entries.NodupKeys := (nodupKeys_cons.mp nodup).2
    by_cases hk : a = k
    · subst hk
      simp
    · rw [kerase_cons_ne hk, dlookup_cons_ne _ _ hk, map_cons, map_cons,
        sum_cons, sum_cons, ih tail, add_left_comm]

theorem total_eq_weight [AddCommMonoid M] {f : α → β → M}
    (a : α) (alone : ∀ a' b, m.lookup a' = some b → a' ≠ a → f a' b = 0) :
    m.total f = m.weight f a := by
  have rest : (m.erase a).total f = 0 := by
    refine sum_eq_zero fun x member => ?_
    obtain ⟨e, there, rfl⟩ := mem_map.mp member
    have found : (m.erase a).lookup e.1 = some e.2 :=
      mem_dlookup (m.erase a).nodupKeys there
    have apart : e.1 ≠ a := by
      intro same
      rw [same, lookup_erase] at found
      cases found
    exact alone e.1 e.2 ((lookup_erase_ne apart).symm.trans found) apart
  rw [total_eq_weight_add_erase f m a, rest, add_zero]

theorem total_insert [AddCommMonoid M] (f : α → β → M) (m : AList fun _ : α => β) (a : α) (b : β) :
    (m.insert a b).total f + m.weight f a = m.total f + f a b := by
  have head : (m.insert a b).total f = f a b + (m.erase a).total f := by
    show (((m.insert a b).entries).map fun e => f e.1 e.2).sum = _
    rw [entries_insert, map_cons, sum_cons]
    rfl
  rw [head, total_eq_weight_add_erase f m a]
  abel

theorem total_retain [AddCommMonoid M] (f : α → β → M) (p : α → β → Bool)
    (m : AList fun _ : α => β) (h : ∀ a b, m.lookup a = some b → p a b = false → f a b = 0) :
    (m.retain p).total f = m.total f := by
  obtain ⟨entries, nodup⟩ := m
  show ((entries.filter fun e => p e.1 e.2).map fun e => f e.1 e.2).sum =
    (entries.map fun e => f e.1 e.2).sum
  have light : ∀ e ∈ entries, p e.1 e.2 = false → f e.1 e.2 = 0 := by
    intro e he hp
    exact h e.1 e.2 (mem_dlookup nodup he) hp
  clear h nodup
  induction entries with
  | nil => rfl
  | cons e entries ih =>
    have rest := ih fun e' he' => light e' (mem_cons_of_mem _ he')
    by_cases hp : p e.1 e.2
    · simp [hp, rest]
    · have zero := light e mem_cons_self (by simpa using hp)
      simp [hp, rest, zero]

variable {a : α}

theorem keys_insert_perm (present : a ∈ m.keys) (b : β) : (m.insert a b).keys.Perm m.keys := by
  rw [keys_insert]
  exact (perm_cons_erase present).symm

theorem keys_insert_of_notMem (absent : a ∉ m.keys) (b : β) :
    (m.insert a b).keys = a :: m.keys := by
  rw [keys_insert, erase_of_not_mem absent]

theorem keys_perm_cons_erase (present : a ∈ m.keys) : m.keys.Perm (a :: (m.erase a).keys) := by
  rw [keys_erase]
  exact perm_cons_erase present

theorem erase_of_notMem (absent : a ∉ m.keys) : m.erase a = m := by
  ext1
  exact kerase_of_notMem_keys absent

def insertAll (m : AList fun _ : α => β) (l : List (α × β)) : AList fun _ : α => β :=
  l.foldl (fun m e => m.insert e.1 e.2) m

variable {l : List (α × β)}

theorem lookup_insertAll_of_notMem (absent : a ∉ l.map (·.1))
    (m : AList fun _ : α => β) : (m.insertAll l).lookup a = m.lookup a := by
  induction l generalizing m with
  | nil => rfl
  | cons e l ih =>
    rw [map_cons, mem_cons, not_or] at absent
    exact (ih absent.2 _).trans (lookup_insert_ne absent.1)

variable {b : β}

theorem lookup_insertAll_of_mem (nodup : (l.map (·.1)).Nodup)
    (mem : (a, b) ∈ l) (m : AList fun _ : α => β) : (m.insertAll l).lookup a = some b := by
  induction l generalizing m with
  | nil => cases mem
  | cons e l ih =>
    rw [map_cons, nodup_cons] at nodup
    rcases mem_cons.mp mem with rfl | later
    · exact (lookup_insertAll_of_notMem nodup.1 _).trans (lookup_insert _)
    · exact ih nodup.2 later _

theorem mem_of_lookup_insertAll
    (found : (m.insertAll l).lookup a = some b) : (a, b) ∈ l ∨ m.lookup a = some b := by
  induction l generalizing m with
  | nil => exact .inr found
  | cons e l ih =>
    rcases ih found with later | earlier
    · exact .inl (mem_cons_of_mem e later)
    · by_cases here : a = e.1
      · subst here
        rw [lookup_insert] at earlier
        cases earlier
        exact .inl mem_cons_self
      · exact .inr ((lookup_insert_ne here).symm.trans earlier)

theorem notMem_of_lookup_insertAll
    (absent : (m.insertAll l).lookup a = none) : a ∉ l.map (·.1) := by
  induction l generalizing m with
  | nil => exact not_mem_nil
  | cons e l ih =>
    rw [map_cons, mem_cons, not_or]
    refine ⟨fun here => ?_, ih absent⟩
    have later : a ∉ l.map (·.1) := ih absent
    have here' : ((m.insert e.1 e.2).insertAll l).lookup a = some e.2 := by
      rw [lookup_insertAll_of_notMem later, here, lookup_insert]
    cases absent.symm.trans here'

theorem lookup_insertAll_empty (nodup : (l.map (·.1)).Nodup) :
    (insertAll ∅ l).lookup a = some b ↔ (a, b) ∈ l := by
  constructor
  · intro found
    have listed : a ∈ l.map (·.1) := by
      by_contra absent
      rw [lookup_insertAll_of_notMem absent, lookup_empty] at found
      cases found
    obtain ⟨⟨_, b'⟩, mem, rfl⟩ := mem_map.mp listed
    rw [lookup_insertAll_of_mem nodup mem] at found
    exact Option.some.inj found ▸ mem
  · exact fun mem => lookup_insertAll_of_mem nodup mem ∅

end AList

/-- A finite set, iterated in the order of its list. -/
@[ext]
structure KeySet (α : Type u) where
  keys : List α
  nodup : keys.Nodup

namespace KeySet

variable {α : Type u}

def empty : KeySet α := ⟨[], List.nodup_nil⟩

def insert [DecidableEq α] (s : KeySet α) (a : α) : KeySet α := ⟨s.keys.insert a, s.nodup.insert⟩

def retain (s : KeySet α) (p : α → Bool) : KeySet α := ⟨s.keys.filter p, s.nodup.filter p⟩

def len (s : KeySet α) : Nat := s.keys.length

@[simp] theorem mem_insert [DecidableEq α] (s : KeySet α) (a b : α) :
    b ∈ (s.insert a).keys ↔ b = a ∨ b ∈ s.keys := List.mem_insert_iff

@[simp] theorem mem_retain (s : KeySet α) (p : α → Bool) (a : α) :
    a ∈ (s.retain p).keys ↔ a ∈ s.keys ∧ p a := List.mem_filter

end KeySet
