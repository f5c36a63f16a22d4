import Mathlib.Data.List.Nodup
import Mathlib.Data.Nat.Notation
import Mathlib.Tactic.Common

/-!
# Insertion-ordered dictionaries

`Dict κ α` is a list of key-value pairs with distinct keys, in insertion order.
Setting a present key keeps its place, setting a new one appends it, and erasing
a key closes the gap.

* `get?_set`, `get?_erase`, `get?_keep`: what each operation does to a lookup.
* `erase_set`: erasing a key that was just set is erasing it.
-/

/-- A dictionary with its keys in insertion order. -/
@[ext] structure Dict (κ α : Type*) where
  entries : List (κ × α)
  nodup : (entries.map Prod.fst).Nodup

namespace Dict

variable {κ α β : Type*} [DecidableEq κ]

instance [DecidableEq α] : DecidableEq (Dict κ α) := fun d d' =>
  decidable_of_iff (d.entries = d'.entries) Dict.ext_iff.symm

/-- The empty dictionary. -/
def empty : Dict κ α := ⟨[], List.nodup_nil⟩

/-- The keys, in order. -/
def keys (d : Dict κ α) : List κ := d.entries.map Prod.fst

/-- The value under a key. -/
def get? (d : Dict κ α) (k : κ) : Option α := d.entries.lookup k

/-- The entries whose key satisfies `p`. -/
def keep (d : Dict κ α) (p : κ → Bool) : Dict κ α where
  entries := d.entries.filter fun e => p e.1
  nodup := d.nodup.sublist (List.filter_sublist.map _)

/-- Remove a key. -/
def erase (d : Dict κ α) (k : κ) : Dict κ α := d.keep fun k' => k' ≠ k

/-- Change the values, keeping the keys. -/
def mapVal (f : α → β) (d : Dict κ α) : Dict κ β where
  entries := d.entries.map fun e => (e.1, f e.2)
  nodup := by simpa [Function.comp_def] using d.nodup

/-- Replace the value under `k` where it stands, in a list of entries. -/
def replace (k : κ) (a : α) (l : List (κ × α)) : List (κ × α) :=
  l.map fun e => if e.1 = k then (k, a) else e

theorem replace_keys (k : κ) (a : α) (l : List (κ × α)) :
    (replace k a l).map Prod.fst = l.map Prod.fst := by
  unfold replace
  rw [List.map_map]
  apply List.map_congr_left
  intro e _
  by_cases h : e.1 = k <;> simp [h]

/-- Set a key: in place when it is there, at the end when it is not. -/
def set (d : Dict κ α) (k : κ) (a : α) : Dict κ α where
  entries := if k ∈ d.keys then replace k a d.entries else d.entries ++ [(k, a)]
  nodup := by
    split
    · rw [replace_keys]; exact d.nodup
    · rename_i hk
      have hd : (d.entries.map Prod.fst).Nodup := d.nodup
      simp only [List.map_append, List.map_cons, List.map_nil]
      exact List.nodup_append.2 ⟨hd, by simp, fun x hx y hy hxy => hk (by simp_all [keys])⟩

/-- A dictionary from a list of pairs, a later pair winning over an earlier one. -/
def ofEntries (l : List (κ × α)) : Dict κ α := l.foldl (fun d e => d.set e.1 e.2) empty

/-! ## Lookups -/

@[simp] theorem get?_empty (k : κ) : (empty : Dict κ α).get? k = none := rfl

theorem get?_eq_none {d : Dict κ α} {k : κ} : d.get? k = none ↔ k ∉ d.keys := by
  unfold get? keys
  rw [List.lookup_eq_none_iff]
  simp only [bne_iff_ne, ne_eq, List.mem_map, not_exists, not_and]
  exact ⟨fun h e he hk => h e he hk.symm, fun h e he hk => h e he hk.symm⟩

theorem mem_keys_of_get? {d : Dict κ α} {k : κ} {a : α} (h : d.get? k = some a) : k ∈ d.keys := by
  by_contra hk
  rw [get?_eq_none.2 hk] at h
  exact absurd h (by simp)

theorem mem_entries_of_get? {d : Dict κ α} {k : κ} {a : α} (h : d.get? k = some a) : (k, a) ∈ d.entries := by
  obtain ⟨l₁, l₂, he, -⟩ := List.lookup_eq_some_iff.1 h
  rw [he]
  exact List.mem_append_right _ List.mem_cons_self

/-- The entries, once a key has been set. -/
theorem mem_set {d : Dict κ α} {k : κ} {a : α} {e : κ × α} (h : e ∈ (d.set k a).entries) : e = (k, a) ∨ e ∈ d.entries := by
  unfold set at h
  dsimp only at h
  split_ifs at h
  · obtain ⟨e', he', rfl⟩ := List.mem_map.1 h
    split_ifs
    · exact .inl rfl
    · exact .inr he'
  · rcases List.mem_append.1 h with h | h
    · exact .inr h
    · exact .inl (List.mem_singleton.1 h)

theorem exists_get? {d : Dict κ α} {k : κ} (h : k ∈ d.keys) : ∃ a, d.get? k = some a := by
  cases hd : d.get? k with
  | none => exact absurd h (get?_eq_none.1 hd)
  | some a => exact ⟨a, rfl⟩

theorem lookup_filter (p : κ → Bool) (k : κ) (l : List (κ × α)) :
    (l.filter fun e => p e.1).lookup k = if p k then l.lookup k else none := by
  induction l with
  | nil => simp
  | cons e l ih =>
    obtain ⟨k₀, a₀⟩ := e
    by_cases hk : k = k₀
    · subst hk
      by_cases hp : p k <;> simp [hp, ih]
    · have hb : (k == k₀) = false := by simpa using hk
      by_cases hp : p k₀ <;> simp [hp, List.lookup_cons, hb, ih]

theorem lookup_replace (k k' : κ) (a : α) (l : List (κ × α)) :
    (replace k a l).lookup k' =
      if k' = k then (if k ∈ l.map Prod.fst then some a else none) else l.lookup k' := by
  induction l with
  | nil => simp [replace]
  | cons e l ih =>
    obtain ⟨k₀, a₀⟩ := e
    have hr : replace k a ((k₀, a₀) :: l) =
        (if k₀ = k then (k, a) else (k₀, a₀)) :: replace k a l := rfl
    rw [hr]
    by_cases he : k₀ = k
    · by_cases hk : k' = k
      · simp [he, hk]
      · have h1 : (k' == k) = false := by simpa using hk
        simp [he, hk, h1, List.lookup_cons, ih]
    · by_cases hk : k' = k
      · have h1 : (k == k₀) = false := by simpa using Ne.symm he
        have h2 : ¬ k = k₀ := Ne.symm he
        rw [hk] at ih ⊢
        rw [if_neg he, List.lookup_cons, h1]
        simp only [ih, if_true, List.map_cons, List.mem_cons, h2, false_or]
      · rw [if_neg he, List.lookup_cons, ih, if_neg hk, if_neg hk, List.lookup_cons]

@[simp] theorem get?_keep (d : Dict κ α) (p : κ → Bool) (k : κ) :
    (d.keep p).get? k = if p k then d.get? k else none := lookup_filter p k d.entries

@[simp] theorem get?_erase (d : Dict κ α) (k k' : κ) :
    (d.erase k).get? k' = if k' = k then none else d.get? k' := by
  unfold erase
  by_cases h : k' = k <;> simp [h]

@[simp] theorem get?_set (d : Dict κ α) (k k' : κ) (a : α) :
    (d.set k a).get? k' = if k' = k then some a else d.get? k' := by
  unfold get? set
  by_cases hk : k ∈ d.keys
  · have hk' : k ∈ d.entries.map Prod.fst := hk
    simp [hk, lookup_replace, hk']
  · have hd : d.entries.lookup k = none := get?_eq_none.2 hk
    simp only [hk, if_false, List.lookup_append]
    by_cases h : k' = k
    · simp [h, hd]
    · have hb : (k' == k) = false := by simpa using h
      simp [h, hb, List.lookup_cons]

theorem lookup_map (f : α → β) (k : κ) (l : List (κ × α)) :
    (l.map fun e => (e.1, f e.2)).lookup k = (l.lookup k).map f := by
  induction l with
  | nil => rfl
  | cons e l ih =>
    obtain ⟨k₀, a₀⟩ := e
    by_cases h : k == k₀ <;> simp [List.lookup_cons, h, ih]

@[simp] theorem get?_mapVal (f : α → β) (d : Dict κ α) (k : κ) :
    (d.mapVal f).get? k = (d.get? k).map f := lookup_map f k d.entries

/-! ## Keys -/

/-- Setting new keys appends them. -/
theorem foldl_set_entries (l : List (κ × α)) (d : Dict κ α) (h : ((d.entries ++ l).map Prod.fst).Nodup) :
    (l.foldl (fun d e => d.set e.1 e.2) d).entries = d.entries ++ l := by
  induction l generalizing d with
  | nil => exact (List.append_nil _).symm
  | cons e l ih =>
    have hnew : e.1 ∉ d.keys := by
      rw [List.map_append, List.nodup_append] at h
      exact fun hk => h.2.2 e.1 hk e.1 List.mem_cons_self rfl
    have hset : (d.set e.1 e.2).entries = d.entries ++ [e] := if_neg hnew
    rw [List.foldl_cons, ih _ (by rw [hset, List.append_assoc]; exact h), hset, List.append_assoc]
    rfl

/-- A dictionary of pairs with distinct keys has just these entries. -/
theorem ofEntries_entries {l : List (κ × α)} (h : (l.map Prod.fst).Nodup) : (ofEntries l).entries = l :=
  foldl_set_entries l empty h

/-- Erasing a key that was just set is erasing it from the start. -/
@[simp] theorem erase_set (d : Dict κ α) (k : κ) (a : α) : (d.set k a).erase k = d.erase k := by
  ext1
  simp only [erase, keep, set]
  split
  · unfold replace
    rw [List.filter_map]
    have hp : ((fun e : κ × α => decide (e.1 ≠ k)) ∘ fun e => if e.1 = k then (k, a) else e) =
        fun e => decide (e.1 ≠ k) := by
      funext e; by_cases h : e.1 = k <;> simp [h]
    rw [hp]
    conv_rhs => rw [← List.map_id (d.entries.filter _)]
    apply List.map_congr_left
    intro e he
    have : e.1 ≠ k := by simpa using (List.mem_filter.1 he).2
    simp [this]
  · simp

end Dict
