import Mathlib.Data.List.AList
import Mathlib.Data.List.Sort

/-! Maps whose values are changed in place, and sets that are iterated in order. -/

universe u v w

namespace AList

variable {α : Type u} {β : Type v} {γ : Type w} [DecidableEq α]

omit [DecidableEq α] in
theorem keys_map_values (f : α → β → γ) (entries : List (Sigma fun _ : α => β)) :
    (entries.map fun e => (⟨e.1, f e.1 e.2⟩ : Sigma fun _ : α => γ)).keys = entries.keys := by
  simp [List.keys, Function.comp_def]

def mapValues (f : α → β → γ) (m : AList fun _ : α => β) : AList fun _ : α => γ where
  entries := m.entries.map fun e => ⟨e.1, f e.1 e.2⟩
  nodupKeys := by
    have distinct : m.entries.keys.Nodup := m.nodupKeys
    rwa [← keys_map_values f] at distinct

theorem lookup_mapValues (f : α → β → γ) (m : AList fun _ : α => β) (a : α) :
    (m.mapValues f).lookup a = (m.lookup a).map (f a) := by
  obtain ⟨entries, nodup⟩ := m
  show (entries.map fun e => (⟨e.1, f e.1 e.2⟩ : Sigma fun _ : α => γ)).dlookup a =
    (entries.dlookup a).map (f a)
  clear nodup
  induction entries with
  | nil => rfl
  | cons e entries ih =>
    obtain ⟨k, b⟩ := e
    by_cases here : a = k
    · subst here
      simp
    · simp [here, ih]

end AList

structure TreeSet {α : Type u} (r : α → α → Prop) where
  keys : List α
  nodup : keys.Nodup
  sorted : keys.Pairwise r

namespace TreeSet

variable {α : Type u} {r : α → α → Prop}

def empty : TreeSet r := ⟨[], List.nodup_nil, List.Pairwise.nil⟩

def len (s : TreeSet r) : Nat := s.keys.length

section Insert

variable [DecidableEq α] [DecidableRel r] [Std.Total r] [IsTrans α r]

def insert (s : TreeSet r) (a : α) : TreeSet r :=
  if fresh : a ∈ s.keys then s
  else
    { keys := s.keys.orderedInsert r a
      nodup := (List.perm_orderedInsert r a s.keys).nodup_iff.mpr (List.nodup_cons.mpr ⟨fresh, s.nodup⟩)
      sorted := s.sorted.orderedInsert a _ }

@[simp] theorem mem_insert {s : TreeSet r} {a b : α} :
    b ∈ (s.insert a).keys ↔ b = a ∨ b ∈ s.keys := by
  unfold insert
  split
  · rename_i present
    constructor
    · exact .inr
    · rintro (rfl | old)
      · exact present
      · exact old
  · exact List.mem_orderedInsert ..

theorem len_insert {s : TreeSet r} {a : α} (fresh : a ∉ s.keys) : (s.insert a).len = s.len + 1 := by
  simp [insert, fresh, len, List.orderedInsert_length]

theorem len_insert_le (s : TreeSet r) (a : α) : (s.insert a).len ≤ s.len + 1 := by
  by_cases present : a ∈ s.keys
  · simp [insert, present]
  · exact (len_insert present).le

end Insert

section Erase

variable [DecidableEq α]

def erase (s : TreeSet r) (a : α) : TreeSet r where
  keys := s.keys.erase a
  nodup := s.nodup.erase a
  sorted := s.sorted.sublist List.erase_sublist

@[simp] theorem mem_erase {s : TreeSet r} {a b : α} :
    b ∈ (s.erase a).keys ↔ b ≠ a ∧ b ∈ s.keys := s.nodup.mem_erase_iff

theorem len_erase {s : TreeSet r} {a : α} (present : a ∈ s.keys) : (s.erase a).len + 1 = s.len := by
  have filled : 0 < s.keys.length := List.length_pos_of_mem present
  simp only [erase, len, List.length_erase_of_mem present]
  omega

end Erase

end TreeSet
