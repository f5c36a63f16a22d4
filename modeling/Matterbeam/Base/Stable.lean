import Mathlib.Data.List.Pairwise
import Mathlib.Data.List.Sort

/-!
# Stable sorting

Sorting by a relation that may hold both ways between different elements, which are tied then.
A stable sort leaves tied elements in the order in which it found them, and that decides it.

* `pairwise_insertionSort_of`: the sort is sorted, if the relation is total and transitive on
  the elements of the list.
* `filter_insertionSort`: tied elements stay in order.
* `eq_of_stable`: **there is only one stable sort of a list**.
* `filter_append_filter`: a list whose elements with a property come last, cut there.
-/

namespace Stable

variable {α : Type*} {r : α → α → Prop}

/-- Sorting by a relation that is total and transitive on the elements of the list. -/
theorem pairwise_insertionSort_of (r : α → α → Prop) [DecidableRel r] {l : List α}
    (htot : ∀ a ∈ l, ∀ b ∈ l, r a b ∨ r b a)
    (htrans : ∀ a ∈ l, ∀ b ∈ l, ∀ c ∈ l, r a b → r b c → r a c) : (l.insertionSort r).Pairwise r := by
  let r' : {a // a ∈ l} → {a // a ∈ l} → Prop := fun a b => r a b
  have : DecidableRel r' := fun a b => inferInstanceAs (Decidable (r a b))
  have : Std.Total r' := ⟨fun a b => htot a a.2 b b.2⟩
  have : IsTrans {a // a ∈ l} r' := ⟨fun a b c => htrans a a.2 b b.2 c c.2⟩
  have hmap := List.map_insertionSort r' r Subtype.val l.attach fun _ _ _ _ => Iff.rfl
  rw [List.attach_map_subtype_val] at hmap
  rw [← hmap]
  exact (List.pairwise_insertionSort r' l.attach).map _ fun _ _ h => h

/-! ## Stability -/

/-- An element is inserted before those that it is tied with. -/
theorem filter_orderedInsert [DecidableRel r] {p : α → Bool} {a : α} {l : List α}
    (h : p a = true → ∀ b ∈ l, p b = true → r a b) : (l.orderedInsert r a).filter p = (a :: l).filter p := by
  induction l with
  | nil => rfl
  | cons b l ih =>
    rw [List.orderedInsert_cons]
    by_cases hab : r a b
    · rw [if_pos hab]
    · rw [if_neg hab, List.filter_cons, ih fun ha c hc => h ha c (List.mem_cons_of_mem _ hc)]
      by_cases ha : p a = true
      · -- the element goes behind `b`, so `b` is not one of those
        have hb : ¬ p b = true := fun hb => hab (h ha b List.mem_cons_self hb)
        rw [if_neg hb, List.filter_cons_of_pos ha, List.filter_cons_of_pos ha, List.filter_cons_of_neg hb]
      · rw [List.filter_cons_of_neg ha, List.filter_cons_of_neg ha, List.filter_cons]

/-- **Insertion sort is stable**: elements that are tied with one another stay in order. -/
theorem filter_insertionSort [DecidableRel r] {p : α → Bool} {l : List α}
    (h : ∀ a ∈ l, ∀ b ∈ l, p a = true → p b = true → r a b) : (l.insertionSort r).filter p = l.filter p := by
  induction l with
  | nil => rfl
  | cons a l ih =>
    have ih := ih fun x hx y hy => h x (List.mem_cons_of_mem _ hx) y (List.mem_cons_of_mem _ hy)
    rw [List.insertionSort_cons, filter_orderedInsert, List.filter_cons, List.filter_cons, ih]
    exact fun ha b hb hpb => h a List.mem_cons_self b (List.mem_cons_of_mem _ ((List.mem_insertionSort r).1 hb)) ha hpb

/-- **There is only one stable sort**: two sorted lists of the same elements are equal, if for each
element those that it is tied with are in the same order. -/
theorem eq_of_stable (tied : α → α → Bool) (htied : ∀ a b, tied a b = true ↔ r a b ∧ r b a) {l₁ l₂ : List α}
    (hperm : l₁.Perm l₂) (hrefl : ∀ a ∈ l₁, r a a) (h₁ : l₁.Pairwise r) (h₂ : l₂.Pairwise r)
    (hties : ∀ a ∈ l₁, l₁.filter (tied a) = l₂.filter (tied a)) : l₁ = l₂ := by
  induction l₁ generalizing l₂ with
  | nil => exact hperm.nil_eq
  | cons a t₁ ih =>
    cases l₂ with
    | nil => exact absurd hperm.symm.nil_eq (List.cons_ne_nil _ _).symm
    | cons b t₂ =>
      have haa : tied a a = true := (htied a a).2 ⟨hrefl a List.mem_cons_self, hrefl a List.mem_cons_self⟩
      -- each of the two first elements stands before the other, so they are tied
      have hab : tied a b = true := by
        rcases List.mem_cons.1 (hperm.mem_iff.2 List.mem_cons_self : b ∈ a :: t₁) with rfl | hb
        · exact haa
        rcases List.mem_cons.1 (hperm.mem_iff.1 List.mem_cons_self : a ∈ b :: t₂) with rfl | ha
        · exact haa
        exact (htied a b).2 ⟨(List.pairwise_cons.1 h₁).1 b hb, (List.pairwise_cons.1 h₂).1 a ha⟩
      have hfirst := hties a List.mem_cons_self
      rw [List.filter_cons_of_pos haa, List.filter_cons_of_pos hab] at hfirst
      obtain ⟨rfl, -⟩ := List.cons.inj hfirst
      refine congrArg (a :: ·) (ih hperm.cons_inv (fun c hc => hrefl c (List.mem_cons_of_mem _ hc))
        (List.pairwise_cons.1 h₁).2 (List.pairwise_cons.1 h₂).2 fun c hc => ?_)
      have hc := hties c (List.mem_cons_of_mem _ hc)
      rw [List.filter_cons, List.filter_cons] at hc
      split at hc
      · exact (List.cons.inj hc).2
      · exact hc

/-- A list whose elements with a property come last is cut there. -/
theorem filter_append_filter {p : α → Bool} {l : List α} (h : l.Pairwise fun a b => p a = true → p b = true) :
    l.filter (fun a => !p a) ++ l.filter p = l := by
  induction l with
  | nil => rfl
  | cons a l ih =>
    obtain ⟨ha, hl⟩ := List.pairwise_cons.1 h
    by_cases hp : p a = true
    · have hall : ∀ b ∈ a :: l, p b = true := List.forall_mem_cons.2 ⟨hp, fun b hb => ha b hb hp⟩
      rw [List.filter_eq_self.2 hall, List.filter_eq_nil_iff.2 fun b hb => by simp [hall b hb], List.nil_append]
    · rw [List.filter_cons_of_pos (by simp [hp]), List.filter_cons_of_neg hp, List.cons_append, ih hl]

end Stable
