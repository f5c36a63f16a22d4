import Mathlib.Data.List.Induction
import Mathlib.Data.Nat.Notation
import Mathlib.Logic.Function.Basic
import Mathlib.Tactic.Common

/-!
# Replaying a keyed log

A log entry `(k, some a)` sets `k` to `a`, and `(k, none)` removes `k`. `replay`
is the map the log leaves behind, the last entry of each key winning.

* `replay_eq`: the map at `k` is what the last entry of `k` says.
* `replay_append`: a log after another one.
* `replay_resend`: a stretch of entries whose keys all occur again later leaves no
  trace, so a prefix that is sent again in full does no harm.
-/

namespace Replay

variable {κ α : Type*} [DecidableEq κ]

/-- The map a log leaves behind. -/
def replay (l : List (κ × Option α)) : κ → Option α :=
  l.foldl (fun m e => Function.update m e.1 e.2) fun _ => none

/-- The last entry of a key. -/
def lastOp (l : List (κ × Option α)) (k : κ) : Option (Option α) :=
  ((l.filter fun e => e.1 = k).getLast?).map Prod.snd

theorem lastOp_append (l m : List (κ × Option α)) (k : κ) :
    lastOp (l ++ m) k = (lastOp m k).or (lastOp l k) := by
  unfold lastOp
  rw [List.filter_append, List.getLast?_append]
  cases (m.filter fun e => e.1 = k).getLast? <;> simp

theorem lastOp_singleton (e : κ × Option α) (k : κ) :
    lastOp [e] k = if e.1 = k then some e.2 else none := by
  by_cases h : e.1 = k <;> simp [lastOp, h]

theorem lastOp_eq_none {l : List (κ × Option α)} {k : κ} :
    lastOp l k = none ↔ ∀ e ∈ l, e.1 ≠ k := by
  simp [lastOp]

/-- The last element of a list whose entry has the key of a given one's. -/
theorem lastOp_map {ι : Type*} (op : ι → κ × Option α) (m : List ι) {x : ι} (hx : x ∈ m) :
    ∃ m₁ y m₂, m = m₁ ++ y :: m₂ ∧ (op y).1 = (op x).1 ∧ (∀ z ∈ m₂, (op z).1 ≠ (op x).1) ∧
      lastOp (m.map op) (op x).1 = some (op y).2 := by
  induction m using List.reverseRecOn with
  | nil => cases hx
  | append_singleton m e ih =>
    rw [List.map_append, List.map_singleton, lastOp_append, lastOp_singleton]
    by_cases he : (op e).1 = (op x).1
    · exact ⟨m, e, [], rfl, he, by simp, by rw [if_pos he]; rfl⟩
    · have hm : x ∈ m := by
        rcases List.mem_append.1 hx with h | h
        · exact h
        · exact absurd (by rw [List.mem_singleton.1 h]) he
      obtain ⟨m₁, y, m₂, rfl, hy, hlast, hop⟩ := ih hm
      refine ⟨m₁, y, m₂ ++ [e], by simp, hy, ?_, by rw [if_neg he, Option.none_or, hop]⟩
      intro z hz
      rcases List.mem_append.1 hz with hz | hz
      · exact hlast z hz
      · rw [List.mem_singleton.1 hz]; exact he

theorem replay_snoc (l : List (κ × Option α)) (e : κ × Option α) :
    replay (l ++ [e]) = Function.update (replay l) e.1 e.2 := by
  simp [replay, List.foldl_append]

/-- **The map at a key is what the last entry of the key says.** -/
theorem replay_eq (l : List (κ × Option α)) (k : κ) : replay l k = (lastOp l k).join := by
  induction l using List.reverseRecOn with
  | nil => rfl
  | append_singleton l e ih =>
    rw [replay_snoc, lastOp_append, lastOp_singleton]
    by_cases h : e.1 = k
    · subst h; simp
    · rw [Function.update_of_ne (Ne.symm h), ih, if_neg h, Option.none_or]

theorem replay_append (l m : List (κ × Option α)) (k : κ) :
    replay (l ++ m) k = ((lastOp m k).or (lastOp l k)).join := by
  rw [replay_eq, lastOp_append]

/-- What a log says from a map on depends on the map alone. -/
theorem replay_append_congr {l l' : List (κ × Option α)} (h : replay l = replay l')
    (m : List (κ × Option α)) : replay (l ++ m) = replay (l' ++ m) := by
  unfold replay at h ⊢
  rw [List.foldl_append, List.foldl_append, h]

/-- Changing the values of a log changes the values of the map. -/
theorem replay_map {β : Type*} (f : α → β) (l : List (κ × Option α)) (k : κ) :
    replay (l.map fun e => (e.1, e.2.map f)) k = (replay l k).map f := by
  induction l using List.reverseRecOn with
  | nil => rfl
  | append_singleton l e ih =>
    rw [List.map_append, List.map_singleton, replay_snoc, replay_snoc]
    by_cases h : k = e.1
    · subst h; simp
    · rw [Function.update_of_ne h, Function.update_of_ne h, ih]

/-- **Re-sending is harmless.** Entries whose keys all occur again later leave no trace. -/
theorem replay_resend (l p m : List (κ × Option α)) (h : ∀ e ∈ p, ∃ e' ∈ m, e'.1 = e.1) :
    replay (l ++ p ++ m) = replay (l ++ m) := by
  funext k
  rw [replay_append, replay_append, lastOp_append]
  cases hm : lastOp m k with
  | some o => simp
  | none =>
    have hp : lastOp p k = none := by
      rw [lastOp_eq_none] at hm ⊢
      intro e he hk
      obtain ⟨e', he', hk'⟩ := h e he
      exact hm e' he' (hk'.trans hk)
    rw [hp, Option.none_or]

end Replay
