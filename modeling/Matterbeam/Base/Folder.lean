import Mathlib.Data.List.Induction
import Matterbeam.Base.Dict

/-!
# Files that are written beside their place

A writer puts a file under a name that readers skip, piece by piece, and then renames it. A
reader sees the file as a whole or not at all, wherever the writer is stopped.

* `Op`: what a writer does; `Event`: a save that went through, or was cut short.
* `visible`: the files that readers look at.
* `visible_run`: **a reader sees the latest save of each name**, and nothing of what was cut short.
* `listing_perm`: the names that a reader finds.
-/

namespace Folder

variable {ν β α : Type*} [DecidableEq ν]

/-! ## Operations -/

/-- An operation on a folder. -/
inductive Op (ν β : Type*)
  | create (n : ν)
  | write (n : ν) (bs : List β)
  | replace (n m : ν)

/-- A folder after an operation: the contents of its files, by name. -/
def Op.run : Op ν β → Dict ν (List β) → Dict ν (List β)
  | create n, d => d.set n []
  | write n bs, d => d.set n ((d.get? n).getD [] ++ bs)
  | replace n m, d => match d.get? n with
    | some bs => (d.erase n).set m bs
    | none => d

def runAll (ops : List (Op ν β)) (d : Dict ν (List β)) : Dict ν (List β) := ops.foldl (fun d op => op.run d) d

/-- A file is written in pieces. -/
def writing (n : ν) (parts : List (List β)) : List (Op ν β) := .create n :: parts.map (Op.write n)

/-- A file is written beside its place, and renamed. -/
def save (n m : ν) (parts : List (List β)) : List (Op ν β) := writing n parts ++ [.replace n m]

/-- A file loses what has not reached the disk. -/
def truncate (n : ν) (kept : ℕ) (d : Dict ν (List β)) : Dict ν (List β) :=
  match d.get? n with
  | some bs => d.set n (bs.take kept)
  | none => d

/-! ## What readers see -/

variable (hidden : ν → Bool)

/-- The files that readers look at. -/
def visible (d : Dict ν (List β)) (n : ν) : Option (List β) := if hidden n then none else d.get? n

variable {hidden} {d : Dict ν (List β)} {n m : ν}

theorem visible_set (h : hidden n) (bs : List β) : visible hidden (d.set n bs) = visible hidden d := by
  funext k
  unfold visible
  by_cases hk : k = n
  · subst hk
    rw [if_pos h, if_pos h]
  · rw [Dict.get?_set, if_neg hk]

theorem visible_truncate (h : hidden n) (kept : ℕ) : visible hidden (truncate n kept d) = visible hidden d := by
  unfold truncate
  split
  · exact visible_set h _
  · rfl

/-- What is written beside its place is not seen. -/
theorem visible_writing (h : hidden n) (parts : List (List β)) (k : ℕ) :
    visible hidden (runAll ((writing n parts).take k) d) = visible hidden d := by
  suffices H : ∀ ops : List (Op ν β), (∀ op ∈ ops, op = .create n ∨ ∃ bs, op = .write n bs) → ∀ d : Dict ν (List β),
      visible hidden (runAll ops d) = visible hidden d by
    refine H _ (fun op hop => ?_) d
    rcases List.mem_cons.1 (List.mem_of_mem_take hop) with he | hop
    · exact Or.inl he
    · obtain ⟨bs, -, he⟩ := List.mem_map.1 hop
      exact Or.inr ⟨bs, he.symm⟩
  intro ops hops
  induction ops with
  | nil => exact fun d => rfl
  | cons op ops ih =>
    intro d
    obtain ⟨hop, hops⟩ := List.forall_mem_cons.1 hops
    rw [runAll, List.foldl_cons, ← runAll, ih hops]
    rcases hop with rfl | ⟨bs, rfl⟩
    · exact visible_set h _
    · exact visible_set h _

/-- What has been written is there. -/
theorem get?_writing (n : ν) (parts : List (List β)) (d : Dict ν (List β)) :
    (runAll (writing n parts) d).get? n = some parts.flatten := by
  suffices H : ∀ (parts : List (List β)) (d : Dict ν (List β)) (bs : List β), d.get? n = some bs →
      (runAll (parts.map (Op.write n)) d).get? n = some (bs ++ parts.flatten) by
    exact H parts (d.set n []) [] (by rw [Dict.get?_set, if_pos rfl])
  intro parts
  induction parts with
  | nil =>
    intro d bs hd
    rw [List.flatten_nil, List.append_nil]
    exact hd
  | cons part parts ih =>
    intro d bs hd
    rw [List.map_cons, runAll, List.foldl_cons, ← runAll, List.flatten_cons, ← List.append_assoc]
    refine ih _ _ ?_
    rw [Op.run, Dict.get?_set, if_pos rfl, hd, Option.getD_some]

/-- **A save is seen at once.** -/
theorem visible_save (hn : hidden n) (hm : hidden m = false) (parts : List (List β)) :
    visible hidden (runAll (save n m parts) d) = Function.update (visible hidden d) m (some parts.flatten) := by
  have hbefore := visible_writing (d := d) hn parts (writing n parts).length
  rw [List.take_length] at hbefore
  have hsave : runAll (save n m parts) d = Op.run (.replace n m) (runAll (writing n parts) d) := by
    unfold runAll save
    rw [List.foldl_append]
    rfl
  rw [hsave, ← hbefore, Op.run, get?_writing]
  funext k
  unfold visible
  dsimp only
  by_cases hk : k = m
  · subst hk
    rw [Function.update_self, if_neg (by simp [hm]), Dict.get?_set, if_pos rfl]
  · rw [Function.update_of_ne hk, Dict.get?_set, if_neg hk, Dict.get?_erase]
    by_cases hkn : k = n
    · subst hkn
      rw [if_pos hn, if_pos hn]
    · rw [if_neg hkn]

/-! ## Events -/

/-- What a writer of the file of `a` came to: `n` is the name beside its place. -/
inductive Event (α ν : Type*)
  | whole (a : α) (n : ν)
  | cut (a : α) (n : ν) (k kept : ℕ)

/-- The name beside its place. -/
def Event.aside : Event α ν → ν
  | whole _ n => n
  | cut _ n _ _ => n

/-- What was saved as a whole. -/
def Event.saved : Event α ν → Option α
  | whole a _ => some a
  | cut _ _ _ _ => none

variable (name : α → ν) (parts : α → List (List β))

/-- The folder after an event. -/
def Event.run : Event α ν → Dict ν (List β) → Dict ν (List β)
  | whole a n, d => runAll (save n (name a) (parts a)) d
  | cut a n k kept, d => truncate n kept (runAll ((writing n (parts a)).take k) d)

/-- The folder after events, from an empty one. -/
def folder (evs : List (Event α ν)) : Dict ν (List β) := evs.foldl (fun d ev => ev.run name parts d) Dict.empty

/-- What no later one of the same name has replaced. -/
def latest : List α → List α
  | [] => []
  | a :: l => if name a ∈ l.map name then latest l else a :: latest l

variable {name parts}

theorem latest_sublist (l : List α) : (latest name l).Sublist l := by
  induction l with
  | nil => exact List.Sublist.slnil
  | cons a l ih =>
    unfold latest
    split
    · exact ih.cons a
    · exact ih.cons_cons a

theorem latest_nodup (l : List α) : ((latest name l).map name).Nodup := by
  induction l with
  | nil => exact List.nodup_nil
  | cons a l ih =>
    unfold latest
    split
    · exact ih
    · rename_i h
      exact List.nodup_cons.2 ⟨fun hm => h (((latest_sublist l).map name).subset hm), ih⟩

theorem latest_of_nodup {l : List α} (h : (l.map name).Nodup) : latest name l = l := by
  induction l with
  | nil => rfl
  | cons a l ih =>
    obtain ⟨ha, hl⟩ := List.nodup_cons.1 h
    rw [latest, if_neg ha, ih hl]

theorem mem_latest_concat {l : List α} {a b : α} :
    b ∈ latest name (l ++ [a]) ↔ b = a ∨ b ∈ latest name l ∧ name b ≠ name a := by
  induction l with
  | nil => simp [latest]
  | cons c l ih =>
    have hlast : name c ∈ (l ++ [a]).map name ↔ name c ∈ l.map name ∨ name c = name a := by
      rw [List.map_append, List.mem_append, List.map_singleton, List.mem_singleton]
    rw [List.cons_append, latest, latest]
    by_cases hc : name c ∈ l.map name
    · rw [if_pos (hlast.2 (Or.inl hc)), if_pos hc, ih]
    · rw [if_neg hc]
      by_cases hca : name c = name a
      · rw [if_pos (hlast.2 (Or.inr hca)), ih, List.mem_cons]
        constructor
        · rintro (rfl | ⟨hb, hne⟩)
          · exact Or.inl rfl
          · exact Or.inr ⟨Or.inr hb, hne⟩
        · rintro (rfl | ⟨rfl | hb, hne⟩)
          · exact Or.inl rfl
          · exact absurd hca hne
          · exact Or.inr ⟨hb, hne⟩
      · rw [if_neg fun h => (hlast.1 h).elim hc hca, List.mem_cons, List.mem_cons, ih]
        constructor
        · rintro (rfl | rfl | ⟨hb, hne⟩)
          · exact Or.inr ⟨Or.inl rfl, hca⟩
          · exact Or.inl rfl
          · exact Or.inr ⟨Or.inr hb, hne⟩
        · rintro (rfl | ⟨rfl | hb, hne⟩)
          · exact Or.inr (Or.inl rfl)
          · exact Or.inl rfl
          · exact Or.inr (Or.inr ⟨hb, hne⟩)

/-- **A reader sees the latest save of each name**, and nothing of what was cut short. -/
theorem visible_run {evs : List (Event α ν)} (haside : ∀ ev ∈ evs, hidden ev.aside) (hname : ∀ a, hidden (name a) = false)
    {n : ν} {bs : List β} : visible hidden (folder name parts evs) n = some bs ↔
      ∃ a ∈ latest name (evs.filterMap Event.saved), name a = n ∧ (parts a).flatten = bs := by
  induction evs using List.reverseRecOn with
  | nil => simp [folder, visible, latest]
  | append_singleton evs ev ih =>
    have hev := haside ev (by simp)
    have ih := ih fun ev hev => haside ev (List.mem_append_left _ hev)
    rw [folder, List.foldl_append, List.foldl_cons, List.foldl_nil, ← folder, List.filterMap_append]
    cases ev with
    | cut a m k kept =>
      have hm : hidden m = true := hev
      rw [Event.run, visible_truncate hm, visible_writing hm, ih]
      have hnone : List.filterMap Event.saved [(Event.cut a m k kept : Event α ν)] = [] := rfl
      rw [hnone, List.append_nil]
    | whole a m =>
      have hm : hidden m = true := hev
      rw [Event.run, visible_save hm (hname a)]
      have hsome : List.filterMap Event.saved [(Event.whole a m : Event α ν)] = [a] := rfl
      simp only [hsome, mem_latest_concat]
      by_cases hn : n = name a
      · subst hn
        rw [Function.update_self, Option.some.injEq]
        constructor
        · rintro rfl
          exact ⟨a, Or.inl rfl, rfl, rfl⟩
        · rintro ⟨b, rfl | ⟨-, hne⟩, hb, he⟩
          · exact he
          · exact absurd hb hne
      · rw [Function.update_of_ne hn, ih]
        constructor
        · rintro ⟨b, hb, rfl, he⟩
          exact ⟨b, Or.inr ⟨hb, hn⟩, rfl, he⟩
        · rintro ⟨b, rfl | ⟨hb, -⟩, rfl, he⟩
          · exact absurd rfl hn
          · exact ⟨b, hb, rfl, he⟩

/-- The names that a reader finds, in whichever order they are listed. -/
theorem listing_perm {evs : List (Event α ν)} (haside : ∀ ev ∈ evs, hidden ev.aside) (hname : ∀ a, hidden (name a) = false)
    {listing : List ν} (h : listing.Perm (folder name parts evs).keys) :
    (listing.filter fun n => !hidden n).Perm ((latest name (evs.filterMap Event.saved)).map name) := by
  have hnodup : listing.Nodup := h.nodup_iff.2 (folder name parts evs).nodup
  refine (List.perm_ext_iff_of_nodup (hnodup.filter _) (latest_nodup _)).2 fun n => ?_
  have hseen : n ∈ listing ∧ hidden n = false ↔ ∃ bs, visible hidden (folder name parts evs) n = some bs := by
    unfold visible
    rw [h.mem_iff]
    constructor
    · rintro ⟨hn, hv⟩
      obtain ⟨bs, hbs⟩ := Dict.exists_get? hn
      exact ⟨bs, by simp [hv, hbs]⟩
    · rintro ⟨bs, hbs⟩
      by_cases hv : hidden n
      · rw [if_pos hv] at hbs
        cases hbs
      · rw [if_neg hv] at hbs
        exact ⟨Dict.mem_keys_of_get? hbs, by simpa using hv⟩
  rw [List.mem_filter, Bool.not_eq_true', hseen]
  simp only [visible_run haside hname, List.mem_map]
  constructor
  · rintro ⟨bs, a, ha, hn, -⟩
    exact ⟨a, ha, hn⟩
  · rintro ⟨a, ha, hn⟩
    exact ⟨_, a, ha, hn, rfl⟩

end Folder
