import Mathlib.Data.List.Infix
import Mathlib.Tactic.Common

/-!
# Texts and marks, glued together

Pieces of a text and a mark are glued together with nothing between them. The marks have one
length and do not overlap, so the glued text shows where all the marks in it are, but not which
of them were marks of pieces and which were parts of a text.

* `Whole`: a piece with no mark in it but its own. `glue_inj`: whole pieces are read back.
* `cut`: a piece, cut at the marks that are in its text.
* `glue_eq_iff`: **two lists of pieces glue to one text just if they cut to the same pieces**.
-/

namespace Cut

universe u

/-- Marks have one length and do not overlap. -/
structure Marks (α : Type u) where
  IsMark : List α → Prop
  size : ℕ
  size_pos : 0 < size
  length_eq : ∀ {e : List α}, IsMark e → e.length = size
  apart : ∀ {u v w : List α}, IsMark (u ++ v) → IsMark (v ++ w) → v ≠ [] → u = []

variable {α : Type u} (M : Marks α)

/-- The pieces, with nothing between them. -/
def glue (ps : List (List α × List α)) : List α := ps.flatMap fun p => p.1 ++ p.2

/-- There is no mark in the text. -/
def Free (q : List α) : Prop := ∀ x e y, q = x ++ e ++ y → ¬ M.IsMark e

/-- The piece has a mark, and no other in it. -/
def Whole (p : List α × List α) : Prop :=
  M.IsMark p.2 ∧ ∀ x e y, p.1 ++ p.2 = x ++ e ++ y → M.IsMark e → y = []

variable {M}

theorem glue_cons (p : List α × List α) (ps : List (List α × List α)) : glue (p :: ps) = p.1 ++ p.2 ++ glue ps := rfl

theorem Whole.ne_nil {p : List α × List α} (h : Whole M p) : p.1 ++ p.2 ≠ [] := by
  intro hn
  have hlen := M.length_eq h.1
  rw [(List.append_eq_nil_iff.1 hn).2] at hlen
  have := M.size_pos
  simp only [List.length_nil] at hlen
  omega

/-- A whole piece is not the beginning of another. -/
theorem Whole.eq_of_prefix {p p' : List α × List α} (h : Whole M p) (h' : Whole M p') {a : List α}
    (ha : p'.1 ++ p'.2 = p.1 ++ p.2 ++ a) : p = p' ∧ a = [] := by
  obtain rfl := h'.2 _ _ _ ha h.1
  rw [List.append_nil] at ha
  have hlen : p'.2.length = p.2.length := by rw [M.length_eq h.1, M.length_eq h'.1]
  obtain ⟨h₁, h₂⟩ := List.append_inj' ha hlen
  exact ⟨Prod.ext h₁.symm h₂.symm, rfl⟩

/-- **Whole pieces are read back** from what they are glued to. -/
theorem glue_inj {ps ps' : List (List α × List α)} (h : ∀ p ∈ ps, Whole M p) (h' : ∀ p ∈ ps', Whole M p)
    (he : glue ps = glue ps') : ps = ps' := by
  induction ps generalizing ps' with
  | nil =>
    cases ps' with
    | nil => rfl
    | cons p' ps' =>
      rw [glue_cons] at he
      exact absurd (List.append_eq_nil_iff.1 he.symm).1 (h' p' List.mem_cons_self).ne_nil
  | cons p ps ih =>
    obtain ⟨hp, hps⟩ := List.forall_mem_cons.1 h
    cases ps' with
    | nil =>
      rw [glue_cons] at he
      exact absurd (List.append_eq_nil_iff.1 he).1 hp.ne_nil
    | cons p' ps' =>
      obtain ⟨hp', hps'⟩ := List.forall_mem_cons.1 h'
      rw [glue_cons, glue_cons] at he
      rcases List.append_eq_append_iff.1 he with ⟨a, ha, hrest⟩ | ⟨a, ha, hrest⟩
      · obtain ⟨rfl, rfl⟩ := hp.eq_of_prefix hp' ha
        rw [ih hps hps' hrest]
      · obtain ⟨rfl, rfl⟩ := hp'.eq_of_prefix hp ha
        rw [ih hps hps' hrest.symm]

theorem Free.of_length_lt {q : List α} (h : q.length < M.size) : Free M q := by
  rintro x e y rfl he
  have hlen := M.length_eq he
  simp only [List.length_append] at h
  omega

/-- A text without marks, before a mark. -/
theorem Free.whole {q e : List α} (hq : Free M q) (he : M.IsMark e) : Whole M (q, e) := by
  refine ⟨he, fun x e' y h he' => ?_⟩
  have hlen : e'.length = e.length := by rw [M.length_eq he, M.length_eq he']
  change q ++ e = x ++ e' ++ y at h
  have htotal := congrArg List.length h
  simp only [List.length_append] at htotal
  rw [List.append_assoc] at h
  rcases List.append_eq_append_iff.1 h with ⟨a, rfl, ha⟩ | ⟨a, rfl, ha⟩
  · -- the mark starts after the text
    rw [List.length_append] at htotal
    exact List.eq_nil_of_length_eq_zero (by omega)
  · rcases List.append_eq_append_iff.1 ha with ⟨b, rfl, hb⟩ | ⟨b, rfl, hb⟩
    · exact absurd he' (hq x e' b (List.append_assoc _ _ _).symm)
    · -- it starts in the text, and ends after it
      by_cases hn : b = []
      · subst hn
        rw [List.append_nil] at he'
        exact absurd he' (hq x a [] (List.append_nil _).symm)
      · subst hb
        obtain rfl := M.apart he' he hn
        simp only [List.length_append, List.nil_append] at hlen
        exact List.eq_nil_of_length_eq_zero (by omega)

/-! ## Cuts -/

variable (M) [DecidablePred M.IsMark]

/-- The first mark of a text, with what is before and after it. -/
def firstMark : List α → Option (List α × List α × List α)
  | [] => none
  | a :: q =>
    if M.IsMark ((a :: q).take M.size) then some ([], (a :: q).take M.size, (a :: q).drop M.size)
    else (firstMark q).map fun r => (a :: r.1, r.2)

variable {M}

theorem firstMark_none {q : List α} (h : firstMark M q = none) : Free M q := by
  induction q with
  | nil =>
    intro x e y hq he
    have hlen := M.length_eq he
    have hpos := M.size_pos
    have hnil := congrArg List.length hq
    simp only [List.length_append, List.length_nil] at hnil
    omega
  | cons a q ih =>
    unfold firstMark at h
    split at h
    · cases h
    · rename_i hstart
      intro x e y hq he
      cases x with
      | nil =>
        rw [List.nil_append] at hq
        rw [hq, ← M.length_eq he, List.take_left] at hstart
        exact hstart he
      | cons a' x =>
        obtain ⟨rfl, htail⟩ := List.cons.inj hq
        exact ih (Option.map_eq_none_iff.1 h) x e y htail he

theorem firstMark_some {q x e y : List α} (h : firstMark M q = some (x, e, y)) : q = x ++ e ++ y ∧ Whole M (x, e) := by
  induction q generalizing x with
  | nil => cases h
  | cons a q ih =>
    unfold firstMark at h
    split at h
    · rename_i hstart
      cases h
      refine ⟨(List.take_append_drop _ _).symm, hstart, fun x' e' y' hw he' => ?_⟩
      have hlen := congrArg List.length hw
      simp only [List.nil_append, List.length_append, M.length_eq hstart, M.length_eq he'] at hlen
      exact List.eq_nil_of_length_eq_zero (by omega)
    · rename_i hstart
      obtain ⟨⟨x₀, e₀, y₀⟩, hr, heq⟩ := Option.map_eq_some_iff.1 h
      cases heq
      obtain ⟨rfl, hwhole⟩ := ih hr
      refine ⟨rfl, hwhole.1, fun x' e' y' hw he' => ?_⟩
      cases x' with
      | nil =>
        -- the mark would be right at the start
        have htake : (a :: (x₀ ++ e ++ y)).take M.size = e' := by
          change a :: (x₀ ++ e) = e' ++ y' at hw
          rw [← List.cons_append, hw, List.append_assoc, ← M.length_eq he', List.take_left]
        rw [htake] at hstart
        exact absurd he' hstart
      | cons a' x' =>
        obtain ⟨rfl, htail⟩ := List.cons.inj hw
        exact hwhole.2 x' e' y' htail he'

theorem firstMark_lt {q x e y : List α} (h : firstMark M q = some (x, e, y)) : y.length < q.length := by
  obtain ⟨rfl, hmark, -⟩ := firstMark_some h
  have hlen := M.length_eq hmark
  have hpos := M.size_pos
  simp only [List.length_append] at *
  omega

variable (M)

/-- A piece, cut at the marks that are in its text. -/
def cut (q e : List α) : List (List α × List α) :=
  match h : firstMark M q with
  | none => [(q, e)]
  | some (x, e', y) =>
    have := firstMark_lt h
    (x, e') :: cut y e
termination_by q.length

/-- The pieces, each cut at the marks that are in its text. -/
def cutAll (ps : List (List α × List α)) : List (List α × List α) := ps.flatMap fun p => cut M p.1 p.2

variable {M}

/-- What is cut glues back. -/
theorem glue_cut (q e : List α) : glue (cut M q e) = q ++ e := by
  induction q using (measure (@List.length α)).wf.induction with
  | _ q ih =>
    unfold cut
    split
    · exact List.append_nil _
    · rename_i x e' y h
      rw [glue_cons, ih y (firstMark_lt h), ← List.append_assoc, (firstMark_some h).1]

theorem glue_cutAll (ps : List (List α × List α)) : glue (cutAll M ps) = glue ps := by
  induction ps with
  | nil => rfl
  | cons p ps ih =>
    have happ : glue (cut M p.1 p.2 ++ cutAll M ps) = glue (cut M p.1 p.2) ++ glue (cutAll M ps) := List.flatMap_append
    change glue (cut M p.1 p.2 ++ cutAll M ps) = _
    rw [happ, glue_cut, ih, glue_cons]

/-- A piece is cut into whole pieces. -/
theorem cut_whole (q : List α) {e : List α} (he : M.IsMark e) : ∀ p ∈ cut M q e, Whole M p := by
  induction q using (measure (@List.length α)).wf.induction with
  | _ q ih =>
    unfold cut
    split
    · rename_i h
      intro p hp
      rw [List.mem_singleton.1 hp]
      exact (firstMark_none h).whole he
    · rename_i x e' y h
      exact List.forall_mem_cons.2 ⟨(firstMark_some h).2, ih y (firstMark_lt h)⟩

/-- A text without marks is not cut. -/
theorem Free.cut_eq {q : List α} (h : Free M q) (e : List α) : cut M q e = [(q, e)] := by
  unfold cut
  split
  · rfl
  · rename_i x e' y hf
    obtain ⟨rfl, hwhole⟩ := firstMark_some hf
    exact absurd hwhole.1 (h x e' y rfl)

theorem cutAll_free {ps : List (List α × List α)} (h : ∀ p ∈ ps, Free M p.1) : cutAll M ps = ps := by
  induction ps with
  | nil => rfl
  | cons p ps ih =>
    obtain ⟨hp, hps⟩ := List.forall_mem_cons.1 h
    change cut M p.1 p.2 ++ cutAll M ps = _
    rw [hp.cut_eq, ih hps]
    rfl

/-- **Pieces glue to one text just if they cut to the same pieces.** -/
theorem glue_eq_iff {ps ps' : List (List α × List α)} (h : ∀ p ∈ ps, M.IsMark p.2) (h' : ∀ p ∈ ps', M.IsMark p.2) :
    glue ps = glue ps' ↔ cutAll M ps = cutAll M ps' := by
  have hwhole : ∀ {ps : List (List α × List α)}, (∀ p ∈ ps, M.IsMark p.2) → ∀ p ∈ cutAll M ps, Whole M p := by
    intro ps h p hp
    obtain ⟨p', hp', hcut⟩ := List.mem_flatMap.1 hp
    exact cut_whole p'.1 (h p' hp') p hcut
  constructor
  · intro he
    refine glue_inj (hwhole h) (hwhole h') ?_
    rw [glue_cutAll, glue_cutAll, he]
  · intro he
    rw [← glue_cutAll (M := M) ps, he, glue_cutAll]

end Cut
