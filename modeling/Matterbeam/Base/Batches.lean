import Mathlib.Data.List.Induction
import Mathlib.Data.List.Nodup
import Mathlib.Data.List.Perm.Subperm

/-!
# Batches in a log

Batches of entries are appended to a log, in order and each as often as it takes; of a batch only those
entries are appended that are not there yet. Others append to the log as well.

* `Grows`: what is appended in one go.
* `Upto`: the log has the batches up to some number.
* `Upto.all`: **a log that has all entries has each of them once**, in the order of their first appearance.
-/

namespace Batches

variable {α : Type*} [DecidableEq α] {cs : List (List α)} {l l' : List α}

/-! ## First appearances -/

theorem eraseDups_of_nodup (h : l.Nodup) : l.eraseDups = l := by
  induction l with
  | nil => rfl
  | cons a l ih =>
    obtain ⟨ha, hl⟩ := List.nodup_cons.1 h
    have hfilter : l.filter (fun b => !b == a) = l :=
      List.filter_eq_self.2 fun b hb => by
        have hne : b ≠ a := fun he => ha (he ▸ hb)
        simpa using hne
    rw [List.eraseDups_cons, hfilter, ih hl]

/-- What is appended to a list adds what is not in it. -/
theorem eraseDups_append_nodup {a b : List α} (h : b.Nodup) :
    (a ++ b).eraseDups = a.eraseDups ++ b.filter (· ∉ a) := by
  have hremove : b.removeAll a = b.filter (· ∉ a) := by
    unfold List.removeAll
    exact List.filter_congr fun x _ => by simp
  rw [List.eraseDups_append, hremove, eraseDups_of_nodup (h.filter _)]

/-- What is already in a list adds nothing. -/
theorem eraseDups_append_of_subset {a b : List α} (h : ∀ x ∈ b, x ∈ a) : (a ++ b).eraseDups = a.eraseDups := by
  have hremove : b.removeAll a = [] := List.filter_eq_nil_iff.2 fun x hx => by simp [h x hx]
  rw [List.eraseDups_append, hremove, List.eraseDups_nil, List.append_nil]

/-- First appearances, of the values of a map that tells the entries apart. -/
theorem map_eraseDups {β : Type*} [DecidableEq β] {f : α → β} (hf : ∀ a ∈ l, ∀ b ∈ l, f a = f b → a = b) :
    (l.map f).eraseDups = l.eraseDups.map f := by
  induction l using List.reverseRecOn with
  | nil => rfl
  | append_singleton l a ih =>
    have hmem : f a ∈ l.map f ↔ a ∈ l := by
      refine ⟨fun h => ?_, List.mem_map_of_mem⟩
      obtain ⟨b, hb, he⟩ := List.mem_map.1 h
      exact hf b (List.mem_append_left _ hb) a List.mem_concat_self he ▸ hb
    rw [List.map_append, List.map_singleton, eraseDups_append_nodup (List.nodup_singleton _),
      eraseDups_append_nodup (List.nodup_singleton _), List.map_append,
      ih fun x hx y hy => hf x (List.mem_append_left _ hx) y (List.mem_append_left _ hy)]
    rw [List.filter_singleton, List.filter_singleton, decide_eq_decide.2 (not_congr hmem)]
    cases decide (a ∉ l) <;> rfl

/-! ## A log -/

/-- One growth of the log: it has nothing to do with the batches, or it is what is missing of a batch
when all batches before it are there. -/
inductive Grows (cs : List (List α)) (l : List α) : List α → Prop
  | apart {new : List α} (h : ∀ x ∈ new, x ∉ cs.flatten) : Grows cs l (l ++ new)
  | batch {j : ℕ} {c : List α} (hj : cs[j]? = some c) (hbefore : ∀ c' ∈ cs.take j, ∀ x ∈ c', x ∈ l) :
      Grows cs l (l ++ c.filter (· ∉ l))

/-- Of the batches' entries, the log has those of the first batches, once and in order. -/
def Upto (cs : List (List α)) (l : List α) : Prop :=
  ∃ i, l.filter (· ∈ cs.flatten) = (cs.take i).flatten.eraseDups

theorem upto_nil (cs : List (List α)) : Upto cs [] := ⟨0, rfl⟩

theorem Upto.mem_iff {i : ℕ} (h : l.filter (· ∈ cs.flatten) = (cs.take i).flatten.eraseDups) {x : α} (hx : x ∈ cs.flatten) :
    x ∈ l ↔ x ∈ (cs.take i).flatten := by
  rw [← List.mem_eraseDups (l := (cs.take i).flatten), ← h, List.mem_filter]
  simp [hx]

/-- **A growth of the log keeps the order.** -/
theorem Grows.upto (hcs : ∀ c ∈ cs, c.Nodup) (h : Grows cs l l') (hl : Upto cs l) : Upto cs l' := by
  obtain ⟨i, hi⟩ := hl
  cases h with
  | apart hnew =>
    refine ⟨i, ?_⟩
    rw [List.filter_append, hi, List.filter_eq_nil_iff.2 fun x hx => by simpa using hnew x hx, List.append_nil]
  | @batch j c hj hbefore =>
    obtain ⟨hlt, rfl⟩ := List.getElem?_eq_some_iff.1 hj
    have hsub : ∀ x ∈ cs[j], x ∈ cs.flatten := fun x hx => List.mem_flatten.2 ⟨_, List.getElem_mem hlt, hx⟩
    rw [Upto, List.filter_append, hi]
    rcases Nat.lt_or_ge j i with hji | hij
    · -- all of the batch is there
      refine ⟨i, ?_⟩
      rw [List.filter_eq_nil_iff.2 fun x hx => ?_, List.append_nil]
      obtain ⟨hx, hn⟩ := List.mem_filter.1 hx
      refine absurd ((Upto.mem_iff hi (hsub x hx)).2 (List.mem_flatten.2 ⟨cs[j], ?_, hx⟩)) (by simpa using hn)
      exact List.mem_take_iff_getElem.2 ⟨j, by omega, rfl⟩
    · -- what is there is what is in the batches before it
      obtain ⟨rest, hrest⟩ := List.take_prefix_take_left hij (l := cs)
      have hsame : (cs.take j).flatten.eraseDups = (cs.take i).flatten.eraseDups := by
        rw [← hrest, List.flatten_append]
        refine eraseDups_append_of_subset fun x hx => ?_
        obtain ⟨c, hc, hx⟩ := List.mem_flatten.1 hx
        have hct : c ∈ cs.take j := hrest ▸ List.mem_append_right _ hc
        exact (Upto.mem_iff hi (List.mem_flatten.2 ⟨c, List.mem_of_mem_take hct, hx⟩)).1 (hbefore c hct x hx)
      refine ⟨j + 1, ?_⟩
      rw [List.take_succ_eq_append_getElem hlt, List.flatten_append, List.flatten_singleton,
        eraseDups_append_nodup (hcs _ (List.getElem_mem hlt)), hsame, List.filter_filter]
      congr 1
      refine List.filter_congr fun x hx => ?_
      have hiff : x ∈ l ↔ x ∈ (cs.take j).flatten := by
        rw [← List.mem_eraseDups (l := (cs.take j).flatten), hsame, List.mem_eraseDups]
        exact Upto.mem_iff hi (hsub x hx)
      simp [hiff, hsub x hx]

/-- **A log that has all entries** has each of them once, in the order of their first appearance. -/
theorem Upto.all (hl : Upto cs l) (hall : ∀ x ∈ cs.flatten, x ∈ l) : l.filter (· ∈ cs.flatten) = cs.flatten.eraseDups := by
  obtain ⟨i, hi⟩ := hl
  obtain ⟨rest, hrest⟩ := List.take_prefix i cs
  have hflat : cs.flatten = (cs.take i).flatten ++ rest.flatten := by rw [← List.flatten_append, hrest]
  rw [hi, hflat]
  refine (eraseDups_append_of_subset fun x hx => ?_).symm
  have hx' : x ∈ cs.flatten := by
    rw [hflat]
    exact List.mem_append_right _ hx
  exact (Upto.mem_iff hi hx').1 (hall x hx')

end Batches
