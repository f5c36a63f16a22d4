import Mathlib.Data.List.Basic
import Mathlib.Data.Nat.Notation
import Mathlib.Tactic.Common

/-!
# Sifting chunks by the keys seen

Chunks of items go through a filter one after another. An item may have a key; it is
dropped when its key was seen before, and the keys of a chunk count as seen once the
whole chunk is through, so within a chunk nothing is dropped.

* `sift key items seen xs`: the chunks `xs` with the items of each that are kept.
* `sift_congr`: only membership of the seen keys matters.
* `kept_congr_items`: what is kept depends only on the keys and the values read.
* `kept_eq_iff`: the chunks with a tag are sifted as if they were alone **exactly
  when** no key of theirs is first seen in a chunk without the tag.
-/

namespace Sift

variable {ι α κ β : Type*}

/-- The keys of some items. -/
def keys (key : α → Option κ) (as : List α) : List κ := as.filterMap key

theorem mem_keys {key : α → Option κ} {as : List α} {k : κ} :
    k ∈ keys key as ↔ ∃ a ∈ as, key a = some k := by
  unfold keys
  exact List.mem_filterMap

variable [DecidableEq κ]

/-- The item is kept: it has no key, or one that was not seen. -/
def fresh (key : α → Option κ) (seen : List κ) (a : α) : Bool :=
  match key a with
  | some k => k ∉ seen
  | none => true

/-- The chunks, with the items of each that are kept. -/
def sift (key : α → Option κ) (items : ι → List α) : List κ → List ι → List (ι × List α)
  | _, [] => []
  | seen, x :: xs =>
    (x, (items x).filter (fresh key seen)) :: sift key items (keys key (items x) ++ seen) xs

variable {key : α → Option κ} {items : ι → List α} {seen seen' : List κ}

theorem fresh_iff {a : α} : fresh key seen a = true ↔ ∀ k, key a = some k → k ∉ seen := by
  unfold fresh
  cases key a <;> simp

theorem fresh_congr (h : ∀ k, k ∈ seen ↔ k ∈ seen') : fresh key seen = fresh key seen' := by
  funext a
  rw [Bool.eq_iff_iff, fresh_iff, fresh_iff]
  simp only [h]

/-- **Only membership of the seen keys matters.** -/
theorem sift_congr (h : ∀ k, k ∈ seen ↔ k ∈ seen') (xs : List ι) :
    sift key items seen xs = sift key items seen' xs := by
  induction xs generalizing seen seen' with
  | nil => rfl
  | cons x xs ih =>
    unfold sift
    have hseen : ∀ k, k ∈ keys key (items x) ++ seen ↔ k ∈ keys key (items x) ++ seen' := fun k => by simp [h]
    rw [fresh_congr h, ih hseen]

/-- Sifting keeps the chunks. -/
theorem fst_mem {xs : List ι} {x : ι × List α} (hx : x ∈ sift key items seen xs) : x.1 ∈ xs := by
  induction xs generalizing seen with
  | nil => cases hx
  | cons y xs ih =>
    rw [sift] at hx
    rcases List.mem_cons.1 hx with rfl | hx
    · exact List.mem_cons_self
    · exact List.mem_cons_of_mem _ (ih hx)

/-! ## Chunks with a tag -/

variable {tag : ι → Bool}

/-- What is kept of the chunks with a tag, in order. -/
def kept (tag : ι → Bool) (f : α → β) (xs : List (ι × List α)) : List β :=
  (xs.filter fun x => tag x.1).flatMap fun x => x.2.map f

/-- No chunk with the tag has a key that is among `seen` or was first seen in another chunk, but
for those in `own` or in an earlier chunk with the tag. -/
def Clean (key : α → Option κ) (items : ι → List α) (tag : ι → Bool) (seen own : List κ) (xs : List ι) : Prop :=
  ∀ xs₁ x xs₂, xs = xs₁ ++ x :: xs₂ → tag x = true → ∀ a ∈ items x, ∀ k, key a = some k →
    (k ∈ seen ∨ ∃ y ∈ xs₁, k ∈ keys key (items y)) → k ∈ own ∨ ∃ y ∈ xs₁, tag y = true ∧ k ∈ keys key (items y)

variable {own : List κ}

theorem clean_cons {x : ι} {xs : List ι} : Clean key items tag seen own (x :: xs) ↔
    (tag x = true → ∀ a ∈ items x, ∀ k, key a = some k → k ∈ seen → k ∈ own) ∧
      Clean key items tag (keys key (items x) ++ seen) (if tag x then keys key (items x) ++ own else own) xs := by
  constructor
  · intro h
    refine ⟨fun ht a ha k hk hs => ?_, fun xs₁ y xs₂ he ht a ha k hk hs => ?_⟩
    · rcases h [] x xs rfl ht a ha k hk (Or.inl hs) with ho | ⟨y, hy, -⟩
      · exact ho
      · cases hy
    · -- what was seen before the first chunk, or in it, was seen before the later one
      have hs' : k ∈ seen ∨ ∃ z ∈ x :: xs₁, k ∈ keys key (items z) := by
        simp only [List.mem_append, List.mem_cons, exists_eq_or_imp] at hs ⊢
        tauto
      have := h (x :: xs₁) y xs₂ (by rw [he]; rfl) ht a ha k hk hs'
      simp only [List.mem_cons, exists_eq_or_imp] at this
      cases htx : tag x <;> simp only [htx, Bool.false_eq_true, if_false, if_true, List.mem_append] at this ⊢ <;> tauto
  · rintro ⟨h₁, h₂⟩ xs₁ y xs₂ he ht a ha k hk hs
    -- the chunk is the first one, or one of the others
    cases xs₁ with
    | nil =>
      cases he
      rcases hs with hs | ⟨z, hz, -⟩
      · exact Or.inl (h₁ ht a ha k hk hs)
      · cases hz
    | cons z xs₁ =>
      cases he
      have hs' : k ∈ keys key (items x) ++ seen ∨ ∃ w ∈ xs₁, k ∈ keys key (items w) := by
        simp only [List.mem_append, List.mem_cons, exists_eq_or_imp] at hs ⊢
        tauto
      have := h₂ xs₁ y xs₂ rfl ht a ha k hk hs'
      simp only [List.mem_cons, exists_eq_or_imp]
      cases htx : tag x <;> simp only [htx, Bool.false_eq_true, if_false, if_true, List.mem_append] at this ⊢ <;> tauto

/-- More seen keys keep fewer items, and as many only if they are the same. -/
theorem filter_fresh_sublist (h : ∀ k ∈ own, k ∈ seen) (as : List α) :
    (as.filter (fresh key seen)).Sublist (as.filter (fresh key own)) :=
  List.monotone_filter_right as fun a ha => by
    rw [fresh_iff] at ha ⊢
    exact fun k hk ho => ha k hk (h k ho)

theorem filter_fresh_eq_iff (h : ∀ k ∈ own, k ∈ seen) (as : List α) :
    as.filter (fresh key seen) = as.filter (fresh key own) ↔
      ∀ a ∈ as, ∀ k, key a = some k → k ∈ seen → k ∈ own := by
  constructor
  · intro he a ha k hk hs
    by_contra ho
    have hf : fresh key own a = true := fresh_iff.2 fun k' hk' => by rw [hk] at hk'; cases hk'; exact ho
    have hm : a ∈ as.filter (fresh key seen) := he ▸ List.mem_filter.2 ⟨ha, hf⟩
    exact fresh_iff.1 (List.mem_filter.1 hm).2 k hk hs
  · intro hall
    refine List.filter_congr fun a ha => ?_
    rw [Bool.eq_iff_iff, fresh_iff, fresh_iff]
    exact ⟨fun hf k hk ho => hf k hk (h k ho), fun hf k hk hs => hf k hk (hall a ha k hk hs)⟩

theorem kept_cons (f : α → β) (x : ι × List α) (xs : List (ι × List α)) :
    kept tag f (x :: xs) = (if tag x.1 then x.2.map f else []) ++ kept tag f xs := by
  unfold kept
  by_cases h : tag x.1 = true <;> simp [h]

theorem kept_congr {tag' : ι → Bool} {f : α → β} {xs : List (ι × List α)} (h : ∀ x ∈ xs, tag x.1 = tag' x.1) :
    kept tag f xs = kept tag' f xs := by
  unfold kept
  rw [List.filter_congr h]

/-- Without a tag, everything is kept that the filter lets through. -/
theorem kept_all (f : α → β) (xs : List (ι × List α)) : kept (fun _ => true) f xs = (xs.flatMap Prod.snd).map f := by
  unfold kept
  rw [List.filter_true, List.map_flatMap]

/-- **What is kept depends only on the keys and the values read.** -/
theorem kept_congr_items {ι' α' : Type*} {key' : α' → Option κ} {items' : ι' → List α'} {f : α → β} {f' : α' → β}
    {xs : List ι} {ys : List ι'} (h : List.Forall₂ (fun x y =>
      (items x).map (fun a => (key a, f a)) = (items' y).map fun a => (key' a, f' a)) xs ys) :
    kept (fun _ => true) f (sift key items seen xs) = kept (fun _ => true) f' (sift key' items' seen ys) := by
  induction h generalizing seen with
  | nil => rfl
  | @cons x y xs ys hxy _ ih =>
    have hkeys : keys key (items x) = keys key' (items' y) := by
      have := congrArg (List.filterMap Prod.fst) hxy
      rwa [List.filterMap_map, List.filterMap_map] at this
    have hvals : ((items x).filter (fresh key seen)).map f = ((items' y).filter (fresh key' seen)).map f' := by
      have := congrArg (fun l => (l.filter (fresh Prod.fst seen)).map Prod.snd) hxy
      simp only [List.filter_map, List.map_map] at this
      exact this
    rw [sift, sift, kept_cons, kept_cons, hvals, hkeys, ih]

/-- The chunks with the tag keep no more among others than alone. -/
theorem kept_length_le (f : α → β) (h : ∀ k ∈ own, k ∈ seen) (xs : List ι) :
    (kept tag f (sift key items seen xs)).length ≤ (kept tag f (sift key items own (xs.filter tag))).length := by
  induction xs generalizing seen own with
  | nil => exact Nat.le_refl _
  | cons x xs ih =>
    rw [sift, kept_cons]
    cases ht : tag x with
    | false =>
      rw [List.filter_cons_of_neg (by simp [ht])]
      simpa using @ih _ own fun k hk => List.mem_append_right _ (h k hk)
    | true =>
      rw [List.filter_cons_of_pos ht, sift, kept_cons]
      simp only [ht, if_true, List.length_append, List.length_map]
      refine Nat.add_le_add (filter_fresh_sublist h _).length_le (ih fun k hk => ?_)
      rw [List.mem_append] at hk ⊢
      exact hk.imp id (h k)

/-- **The chunks with a tag are sifted as if they were alone exactly when** they are clean. -/
theorem kept_eq_iff (f : α → β) (h : ∀ k ∈ own, k ∈ seen) (xs : List ι) :
    kept tag f (sift key items seen xs) = kept tag f (sift key items own (xs.filter tag)) ↔
      Clean key items tag seen own xs := by
  induction xs generalizing seen own with
  | nil =>
    refine ⟨fun _ xs₁ x xs₂ he => ?_, fun _ => rfl⟩
    cases xs₁ <;> cases he
  | cons x xs ih =>
    rw [clean_cons, sift, kept_cons]
    cases ht : tag x with
    | false =>
      rw [List.filter_cons_of_neg (by simp [ht])]
      simpa using @ih _ own fun k hk => List.mem_append_right _ (h k hk)
    | true =>
      have hsub : ∀ k ∈ keys key (items x) ++ own, k ∈ keys key (items x) ++ seen := by
        intro k hk
        rw [List.mem_append] at hk ⊢
        exact hk.imp id (h k)
      rw [List.filter_cons_of_pos ht, sift, kept_cons]
      simp only [ht, if_true, true_imp_iff]
      rw [← filter_fresh_eq_iff h, ← ih hsub]
      have hsubl : ((items x).filter (fresh key seen)).Sublist ((items x).filter (fresh key own)) :=
        filter_fresh_sublist h _
      have hle := hsubl.length_le
      have hle' : (kept tag f (sift key items (keys key (items x) ++ seen) xs)).length ≤
          (kept tag f (sift key items (keys key (items x) ++ own) (xs.filter tag))).length :=
        kept_length_le f hsub xs
      constructor
      · -- the lengths decide: neither part can make up for the other
        intro he
        have hlen := congrArg List.length he
        simp only [List.length_append, List.length_map] at hlen
        exact ⟨hsubl.eq_of_length (by omega),
          (List.append_inj he (by rw [List.length_map, List.length_map]; omega)).2⟩
      · rintro ⟨h₁, h₂⟩
        rw [h₁, h₂]

end Sift
