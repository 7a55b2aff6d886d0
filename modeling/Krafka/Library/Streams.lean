import Mathlib.Data.List.Basic

/-! Streams that arrive in pieces: reading up to a mark, reading an exact number, and what both
say of the pieces put together. -/

universe u

namespace Streams

variable {α : Type u} (stop : α → Bool)

def takeUntil : Nat → List α → List α
  | 0, _ => []
  | _, [] => []
  | limit + 1, a :: l => if stop a then [a] else a :: takeUntil limit l

def complete (limit : Nat) (taken : List α) : Bool := taken.any stop || taken.length == limit

def readUntil : Nat → List (List α) → List α × List (List α)
  | _, [] => ([], [])
  | limit, piece :: pieces =>
    let taken := takeUntil stop limit piece
    if complete stop limit taken then (taken, piece.drop taken.length :: pieces)
    else
      let more := readUntil (limit - taken.length) pieces
      (taken ++ more.1, more.2)

def readExact : Nat → List (List α) → Option (List α × List (List α))
  | n, [] => if n = 0 then some ([], []) else none
  | n, piece :: pieces =>
    if n ≤ piece.length then some (piece.take n, piece.drop n :: pieces)
    else (readExact (n - piece.length) pieces).map fun (more, rest) => (piece ++ more, rest)

variable {stop}

theorem takeUntil_append_drop (limit : Nat) (l : List α) :
    takeUntil stop limit l ++ l.drop (takeUntil stop limit l).length = l := by
  induction l generalizing limit with
  | nil => cases limit <;> simp [takeUntil]
  | cons a l ih =>
    cases limit with
    | zero => simp [takeUntil]
    | succ => by_cases stops : stop a <;> simp [takeUntil, stops, ih]

theorem takeUntil_of_incomplete {limit : Nat} {l : List α}
    (more : complete stop limit (takeUntil stop limit l) = false) : takeUntil stop limit l = l := by
  induction l generalizing limit with
  | nil => cases limit <;> rfl
  | cons a l ih =>
    cases limit with
    | zero => simp [takeUntil, complete] at more
    | succ =>
      by_cases stops : stop a
      · simp [takeUntil, complete, stops] at more
      · simp only [takeUntil, stops, Bool.false_eq_true, if_false, List.cons.injEq, true_and]
        refine ih ?_
        simpa [takeUntil, complete, stops] using more

theorem takeUntil_append (limit : Nat) (l l' : List α) :
    takeUntil stop limit (l ++ l') =
      if complete stop limit (takeUntil stop limit l) then takeUntil stop limit l
      else l ++ takeUntil stop (limit - l.length) l' := by
  induction l generalizing limit with
  | nil =>
    cases limit with
    | zero | succ => simp [takeUntil, complete]
  | cons a l ih =>
    cases limit with
    | zero => simp [takeUntil, complete]
    | succ limit =>
      by_cases stops : stop a
      · simp [takeUntil, complete, stops]
      · have same : complete stop (limit + 1) (a :: takeUntil stop limit l) =
            complete stop limit (takeUntil stop limit l) := by
          simp [complete, stops]
        simp only [List.cons_append, takeUntil, stops, Bool.false_eq_true, if_false, ih, same,
          List.length_cons, Nat.add_sub_add_right]
        split <;> rfl

theorem readUntil_fst (limit : Nat) (pieces : List (List α)) :
    (readUntil stop limit pieces).1 = takeUntil stop limit pieces.flatten := by
  induction pieces generalizing limit with
  | nil => cases limit <;> rfl
  | cons piece pieces ih =>
    rw [readUntil, List.flatten_cons, takeUntil_append]
    by_cases done : complete stop limit (takeUntil stop limit piece)
    · simp [done]
    · have all := takeUntil_of_incomplete (Bool.not_eq_true _ ▸ done)
      rw [all] at done
      simp only [all, done, Bool.false_eq_true, if_false, ih]

theorem readUntil_append (limit : Nat) (pieces : List (List α)) :
    (readUntil stop limit pieces).1 ++ (readUntil stop limit pieces).2.flatten =
      pieces.flatten := by
  induction pieces generalizing limit with
  | nil => simp [readUntil]
  | cons piece pieces ih =>
    rw [readUntil]
    by_cases done : complete stop limit (takeUntil stop limit piece)
    · simp only [done, if_true, List.flatten_cons, ← List.append_assoc, takeUntil_append_drop]
    · have all := takeUntil_of_incomplete (Bool.not_eq_true _ ▸ done)
      rw [all] at done
      simp only [all, done, Bool.false_eq_true, if_false, List.append_assoc, ih, List.flatten_cons]

theorem readUntil_line {limit : Nat} {line rest : List α} {last : α} {pieces : List (List α)}
    (whole : pieces.flatten = line ++ last :: rest) (goes : ∀ a ∈ line, stop a = false)
    (stops : stop last) (short : line.length < limit) :
    (readUntil stop limit pieces).1 = line ++ [last] ∧
      (readUntil stop limit pieces).2.flatten = rest := by
  have taken : takeUntil stop limit (line ++ last :: rest) = line ++ [last] := by
    clear whole
    induction line generalizing limit with
    | nil =>
      cases limit with
      | zero => simp at short
      | succ => simp [takeUntil, stops]
    | cons a line ih =>
      cases limit with
      | zero => simp at short
      | succ =>
        simp only [List.mem_cons, forall_eq_or_imp] at goes
        simp [takeUntil, goes.1, ih goes.2 (by simpa using short)]
  have first : (readUntil stop limit pieces).1 = line ++ [last] := by
    rw [readUntil_fst, whole, taken]
  have both := @readUntil_append _ stop limit pieces
  rw [first, whole, List.append_assoc] at both
  exact ⟨first, by simpa using both⟩

theorem length_of_readExact {n : Nat} {pieces rest : List (List α)} {taken : List α}
    (found : readExact n pieces = some (taken, rest)) : taken.length = n := by
  induction pieces generalizing n taken with
  | nil =>
    simp only [readExact] at found
    split at found <;> simp_all
  | cons piece pieces ih =>
    rw [readExact] at found
    split at found
    next enough =>
      cases found
      simp [enough]
    next short =>
      obtain ⟨⟨more, rest'⟩, later, eq⟩ := Option.map_eq_some_iff.mp found
      cases eq
      have := ih later
      simp only [List.length_append]
      omega

theorem readExact_append {taken rest : List α} {pieces : List (List α)}
    (whole : pieces.flatten = taken ++ rest) :
    ∃ left, readExact taken.length pieces = some (taken, left) ∧ left.flatten = rest := by
  induction pieces generalizing taken with
  | nil =>
    obtain ⟨rfl, rfl⟩ := List.append_eq_nil_iff.mp whole.symm
    exact ⟨[], rfl, rfl⟩
  | cons piece pieces ih =>
    rw [List.flatten_cons] at whole
    rw [readExact]
    split
    next enough =>
      have front := congrArg (List.take taken.length) whole
      have back := congrArg (List.drop taken.length) whole
      rw [List.take_append_of_le_length enough, List.take_left] at front
      rw [List.drop_append_of_le_length enough, List.drop_left] at back
      exact ⟨_, by rw [front], by simpa using back⟩
    next short =>
      obtain ⟨more, rfl⟩ : ∃ more, taken = piece ++ more :=
        ⟨taken.drop piece.length, by
          have front := congrArg (List.take piece.length) whole
          rw [List.take_left, List.take_append_of_le_length (by omega)] at front
          conv_lhs => rw [← List.take_append_drop piece.length taken, ← front]⟩
      rw [List.append_assoc, List.append_cancel_left_eq] at whole
      obtain ⟨left, found, eq⟩ := ih whole
      refine ⟨left, ?_, eq⟩
      have len : (piece ++ more).length - piece.length = more.length := by simp
      rw [len, found]
      rfl

end Streams
