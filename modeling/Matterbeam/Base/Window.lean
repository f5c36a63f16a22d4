import Mathlib.Data.List.Destutter
import Mathlib.Data.List.DropRight
import Mathlib.Data.List.Induction
import Mathlib.Tactic.Common

/-!
# A window over what comes by

Who looks at a sequence one element at a time and keeps the last `w` elements, repeats in a row
counted once, can tell whether an element comes back, as long as it left no more than `w`
changes ago.

* `push`: the window after one more element; `foldl_push` says what it holds.
* `comebacks_eq_zero`: **no comeback is counted if and only if** none is that close.
-/

namespace Window

variable {α : Type*}

/-! ## The last elements -/

theorem getLast?_rtake {w : ℕ} (hw : 0 < w) (l : List α) : (l.rtake w).getLast? = l.getLast? := by
  obtain ⟨v, rfl⟩ : ∃ v, w = v + 1 := ⟨w - 1, by omega⟩
  rcases List.eq_nil_or_concat l with rfl | ⟨m, x, rfl⟩
  · simp
  · rw [List.concat_eq_append, List.rtake_concat_succ, List.getLast?_concat, List.getLast?_concat]

theorem rtake_concat_rtake (w : ℕ) (l : List α) (a : α) : (l.rtake w ++ [a]).rtake w = (l ++ [a]).rtake w := by
  cases w with
  | zero => rw [List.rtake_zero, List.rtake_zero]
  | succ v =>
    rw [List.rtake_concat_succ, List.rtake_concat_succ, List.rtake_eq_reverse_take_reverse,
      List.rtake_eq_reverse_take_reverse, List.rtake_eq_reverse_take_reverse, List.reverse_reverse, List.take_take,
      Nat.min_eq_left (Nat.le_succ v)]

theorem mem_rtake {w : ℕ} {l : List α} {a : α} : a ∈ l.rtake w ↔ ∃ i, l.length ≤ i + w ∧ l[i]? = some a := by
  rw [List.rtake, List.mem_iff_getElem?]
  constructor
  · rintro ⟨i, hi⟩
    rw [List.getElem?_drop] at hi
    exact ⟨_, by omega, hi⟩
  · rintro ⟨i, hle, hi⟩
    refine ⟨i - (l.length - w), ?_⟩
    rw [List.getElem?_drop, ← hi]
    congr 1
    omega

/-- Equal elements are more than `w` apart. -/
def Apart (w : ℕ) (l : List α) : Prop := ∀ i j, i < j → j ≤ i + w → j < l.length → l[i]? ≠ l[j]?

theorem apart_concat {w : ℕ} {l : List α} {a : α} : Apart w (l ++ [a]) ↔ Apart w l ∧ a ∉ l.rtake w := by
  have hold : ∀ i < l.length, (l ++ [a])[i]? = l[i]? := fun i hi => List.getElem?_append_left hi
  constructor
  · intro h
    refine ⟨fun i j hij hj hlen he => ?_, fun hm => ?_⟩
    · refine h i j hij hj (by rw [List.length_append]; omega) ?_
      rw [hold i (by omega), hold j hlen, he]
    · obtain ⟨i, hle, hi⟩ := mem_rtake.1 hm
      have hlt := (List.getElem?_eq_some_iff.1 hi).1
      refine h i l.length hlt hle (by simp) ?_
      rw [hold i hlt, hi, List.getElem?_concat_length]
  · rintro ⟨h, hm⟩ i j hij hj hlen he
    rw [List.length_append, List.length_singleton] at hlen
    rcases Nat.lt_or_ge j l.length with hlt | hge
    · exact h i j hij hj hlt (by rwa [hold i (by omega), hold j hlt] at he)
    · obtain rfl : j = l.length := by omega
      rw [hold i hij, List.getElem?_concat_length] at he
      exact hm (mem_rtake.2 ⟨i, hj, he⟩)

/-! ## Changes -/

variable [DecidableEq α]

/-- The sequence without repeats in a row. -/
abbrev changes (l : List α) : List α := l.destutter (· ≠ ·)

theorem changes_concat (l : List α) (a : α) :
    changes (l ++ [a]) = if l.getLast? = some a then changes l else changes l ++ [a] := by
  -- over the tail, from its first element on
  suffices H : ∀ (l : List α) (b : α), (l ++ [a]).destutter' (· ≠ ·) b =
      if (b :: l).getLast? = some a then l.destutter' (· ≠ ·) b else l.destutter' (· ≠ ·) b ++ [a] by
    cases l with
    | nil => rfl
    | cons b l => exact H l b
  intro l
  induction l with
  | nil =>
    intro b
    by_cases h : b = a <;> simp [h]
  | cons c l ih =>
    intro b
    have hlast : (b :: c :: l).getLast? = (c :: l).getLast? := by simp
    rw [List.cons_append, List.destutter'_cons, List.destutter'_cons, hlast]
    by_cases h : b ≠ c
    · rw [if_pos h, if_pos h, ih c]
      split <;> rfl
    · rw [if_neg h, if_neg h, ih b, not_not.1 h]

theorem getLast?_changes (l : List α) : (changes l).getLast? = l.getLast? := by
  induction l using List.reverseRecOn with
  | nil => rfl
  | append_singleton l a ih =>
    rw [changes_concat, List.getLast?_concat]
    split
    · rename_i h
      rw [ih, h]
    · exact List.getLast?_concat

/-! ## The window -/

/-- The window after one more element. -/
def push (w : ℕ) (order : List α) (a : α) : List α :=
  if order.getLast? = some a then order else (order ++ [a]).rtake w

/-- **The window holds the last changes.** -/
theorem foldl_push {w : ℕ} (hw : 0 < w) (l : List α) : l.foldl (push w) [] = (changes l).rtake w := by
  induction l using List.reverseRecOn with
  | nil => simp
  | append_singleton l a ih =>
    rw [List.foldl_append, List.foldl_cons, List.foldl_nil, ih, changes_concat, push, getLast?_rtake hw, getLast?_changes]
    split
    · rfl
    · exact rtake_concat_rtake w _ a

/-! ## Comebacks -/

/-- One more element comes by: the window, and how many have come back. -/
def note (w : ℕ) (s : List α × ℕ) (a : α) : List α × ℕ :=
  (push w s.1 a, s.2 + if s.1.getLast? ≠ some a ∧ a ∈ s.1 then 1 else 0)

theorem foldl_note_fst (w : ℕ) (l : List α) (s : List α × ℕ) : (l.foldl (note w) s).1 = l.foldl (push w) s.1 := by
  induction l generalizing s with
  | nil => rfl
  | cons a l ih => exact ih _

/-- **No comeback is counted if and only if** equal elements are more than `w` changes apart. -/
theorem comebacks_eq_zero {w : ℕ} (hw : 0 < w) (l : List α) :
    (l.foldl (note w) ([], 0)).2 = 0 ↔ Apart w (changes l) := by
  induction l using List.reverseRecOn with
  | nil => simp [Apart]
  | append_singleton l a ih =>
    have hwindow : (l.foldl (note w) ([], 0)).1 = (changes l).rtake w := by rw [foldl_note_fst, foldl_push hw]
    rw [List.foldl_append, List.foldl_cons, List.foldl_nil, note, hwindow, getLast?_rtake hw, getLast?_changes,
      changes_concat, Nat.add_eq_zero_iff, ih]
    by_cases hlast : l.getLast? = some a
    · simp [hlast]
    · by_cases hm : a ∈ (changes l).rtake w <;> simp [hlast, hm, apart_concat]

end Window
