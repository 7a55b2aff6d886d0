import Mathlib.Logic.Relation
import Mathlib.Data.List.Infix

/-! Runs of deterministic machines, conditions on every step of a run, and histories in
which every entry is judged by what came before it. -/

universe u v w

namespace Runs

section Machine

variable {σ : Type u} {ι : Type v} (step : σ → ι → σ)

/-- Every step of the run from `s` meets `P`, which sees the state before the step. -/
def Along (P : σ → ι → Prop) : σ → List ι → Prop
  | _, [] => True
  | s, i :: is => P s i ∧ Along P (step s i) is

instance Along.decidable {P : σ → ι → Prop} [∀ s i, Decidable (P s i)] (s : σ) :
    (is : List ι) → Decidable (Along step P s is)
  | [] => .isTrue trivial
  | i :: is => @instDecidableAnd (P s i) (Along step P (step s i) is) _ (Along.decidable (step s i) is)

variable {step}

variable {P : σ → ι → Prop} {s : σ} {is : List ι}

theorem along_append {js : List ι} :
    Along step P s (is ++ js) ↔ Along step P s is ∧ Along step P (is.foldl step s) js := by
  induction is generalizing s with
  | nil => simp [Along]
  | cons i is ih => simp [Along, ih, and_assoc]

theorem Along.and {Q : σ → ι → Prop} (first : Along step P s is)
    (second : Along step Q s is) : Along step (fun s i => P s i ∧ Q s i) s is := by
  induction is generalizing s with
  | nil => trivial
  | cons i is ih => exact ⟨⟨first.1, second.1⟩, ih first.2 second.2⟩

/-- A condition that every step of a conforming run preserves holds at its end. -/
theorem Along.invariant (Inv : σ → Prop) (preserved : ∀ s i, P s i → Inv s → Inv (step s i))
    (run : Along step P s is) (start : Inv s) : Inv (is.foldl step s) := by
  induction is generalizing s with
  | nil => exact start
  | cons i is ih => exact ih run.2 (preserved _ _ run.1 start)

/-- What an invariant says about the next step holds of every step of a conforming run. -/
theorem Along.always {Q : σ → ι → Prop} (Inv : σ → Prop)
    (preserved : ∀ s i, P s i → Inv s → Inv (step s i))
    (shows : ∀ s i, P s i → Inv s → Q s i) (run : Along step P s is)
    (start : Inv s) : Along step Q s is := by
  induction is generalizing s with
  | nil => trivial
  | cons i is ih => exact ⟨shows s i run.1 start, ih run.2 (preserved s i run.1 start)⟩

theorem foldl_keeps {β : Type w} (view : σ → β) (step : σ → ι → σ)
    (same : ∀ s i, view (step s i) = view s) (is : List ι) (s : σ) :
    view (is.foldl step s) = view s :=
  List.foldlRecOn is step (motive := fun s' => view s' = view s) rfl
    fun s' before i _ => (same s' i).trans before

end Machine

section History

variable {α : Type u}

/-- Every entry of the history satisfies `P` together with the entries before it. -/
def Throughout (P : List α → α → Prop) (history : List α) : Prop :=
  ∀ before entry after, history = before ++ entry :: after → P before entry

theorem throughout_nil (P : List α → α → Prop) : Throughout P [] := by
  intro before entry after h
  simp at h

variable {P : List α → α → Prop} {history : List α}

theorem throughout_concat {last : α} :
    Throughout P (history ++ [last]) ↔ Throughout P history ∧ P history last := by
  constructor
  · intro h
    refine ⟨fun before entry after eq => ?_, h history last [] rfl⟩
    exact h before entry (after ++ [last]) (by simp [eq])
  · rintro ⟨old, new⟩ before entry after eq
    rcases List.eq_nil_or_concat after with rfl | ⟨after, tail, rfl⟩
    · obtain ⟨rfl, he⟩ := List.append_inj' eq rfl
      simp only [List.cons.injEq, and_true] at he
      exact he ▸ new
    · rw [List.concat_eq_append, ← List.cons_append, ← List.append_assoc] at eq
      exact old before entry after (List.append_inj' eq rfl).1

theorem throughout_append {more : List α} :
    Throughout P (history ++ more) ↔
      Throughout P history ∧ Throughout (fun before => P (history ++ before)) more := by
  induction more using List.reverseRecOn with
  | nil => simp [throughout_nil]
  | append_singleton more last ih =>
    rw [← List.append_assoc, throughout_concat, ih, throughout_concat, and_assoc]

theorem throughout_of_forall
    (h : ∀ entry ∈ history, ∀ before, P before entry) : Throughout P history := by
  rintro before entry after rfl
  exact h entry (by simp) before

end History

end Runs
