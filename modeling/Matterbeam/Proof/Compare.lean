import Matterbeam.Base.Stable
import Matterbeam.Model.Envelope

/-!
# Python's `<` on comparable values

`<` is partial on JSON values, and two lists may be comparable because they differ
early, whatever comes after. Where it is defined it behaves as an order:

* `pyLt_trans`, `not_pyEq_of_pyLt`: it is transitive, and `==` excludes it.
* `pyEq_of_not_pyLt`: comparable values neither of which is below the other are `==`.
* `not_pyLt_trans`: so "not above" is transitive among comparable values.
* `pairwise_sortLe`: **rows with comparable values are sorted**, in either direction.
-/

namespace Matterbeam

/-- Of two elements of a list one is first. -/
theorem rel_or_rel {α : Type*} {R : α → α → Prop} {l : List α} (h : l.Pairwise R) {a b : α} (ha : a ∈ l) (hb : b ∈ l)
    (hab : a ≠ b) : R a b ∨ R b a := by
  have : Std.Symm fun x y => R x y ∨ R y x := ⟨fun _ _ => Or.symm⟩
  exact (h.imp Or.inl : l.Pairwise fun x y => R x y ∨ R y x).forall ha hb hab

namespace Json

/-- The three ways two values are comparable. -/
theorem pyLt_cases {a b : Json} {r : Bool} (h : pyLt a b = some r) :
    (∃ s t, a = .str s ∧ b = .str t ∧ r = decide (s < t)) ∨
    (∃ xs ys, a = .arr xs ∧ b = .arr ys ∧ pyLtList xs ys = some r) ∨
    (∃ p q, num? a = some p ∧ num? b = some q ∧ r = decide (p < q)) := by
  cases a <;> cases b <;> simp_all [pyLt, num?]

/-- The five ways two values are equal. -/
theorem pyEq_cases {a b : Json} (h : pyEq a b = true) :
    (a = .null ∧ b = .null) ∨ (∃ s, a = .str s ∧ b = .str s) ∨
    (∃ xs ys, a = .arr xs ∧ b = .arr ys ∧ pyEqList xs ys = true) ∨
    (∃ xs ys, a = .obj xs ∧ b = .obj ys ∧ xs.length = ys.length ∧ pyEqObj xs ys = true) ∨
    (∃ p, num? a = some p ∧ num? b = some p) := by
  cases a <;> cases b <;> simp_all [pyEq, num?]

theorem pyLt_num {a b : Json} {p q : ℚ} (ha : num? a = some p) (hb : num? b = some q) :
    pyLt a b = some (decide (p < q)) := by
  cases a <;> cases b <;> simp_all [pyLt, num?]

theorem pyEq_num {a b : Json} {p q : ℚ} (ha : num? a = some p) (hb : num? b = some q) :
    pyEq a b = decide (p = q) := by
  cases a <;> cases b <;> simp_all [pyEq, num?]

/-- An entry of an equal dict is in the other one. -/
theorem pyEqObj_mem {as bs : List (String × Json)} (h : pyEqObj as bs = true) {k : String} {a : Json}
    (ha : (k, a) ∈ as) : ∃ b, bs.lookup k = some b ∧ pyEq a b = true := by
  induction as with
  | nil => cases ha
  | cons e as ih =>
    obtain ⟨k', a'⟩ := e
    simp only [pyEqObj, Bool.and_eq_true] at h
    rcases List.mem_cons.1 ha with he | ha
    · cases he
      cases hl : bs.lookup k with
      | none => simp [hl] at h
      | some b => exact ⟨b, rfl, by simpa [hl] using h.1⟩
    · exact ih h.2 ha

theorem mem_of_lookup {bs : List (String × Json)} {k : String} {b : Json} (h : bs.lookup k = some b) :
    (k, b) ∈ bs := by
  induction bs with
  | nil => cases h
  | cons e bs ih =>
    obtain ⟨k', b'⟩ := e
    by_cases hk : k = k'
    · subst hk; simp at h; simp [h]
    · have hb : (k == k') = false := by simpa using hk
      rw [List.lookup_cons, hb] at h
      exact List.mem_cons_of_mem _ (ih h)

mutual
/-- `==` is transitive. -/
theorem pyEq_trans (a b c : Json) (h : pyEq a b = true) (h' : pyEq b c = true) : pyEq a c = true := by
  rcases pyEq_cases h with ⟨rfl, rfl⟩ | ⟨s, rfl, rfl⟩ | ⟨xs, ys, rfl, rfl, hl⟩ |
    ⟨xs, ys, rfl, rfl, hlen, hl⟩ | ⟨p, ha, hb⟩
  · exact h'
  · exact h'
  · rcases pyEq_cases h' with ⟨hn, -⟩ | ⟨s, hn, -⟩ | ⟨ys', zs, hy, rfl, hl'⟩ | ⟨_, _, hn, -⟩ | ⟨p, hn, -⟩
    · cases hn
    · cases hn
    · cases hy
      simp only [pyEq]
      exact pyEqList_trans xs ys zs hl hl'
    · cases hn
    · cases hn
  · rcases pyEq_cases h' with ⟨hn, -⟩ | ⟨s, hn, -⟩ | ⟨_, _, hn, -⟩ | ⟨ys', zs, hy, rfl, hlen', hl'⟩ | ⟨p, hn, -⟩
    · cases hn
    · cases hn
    · cases hn
    · cases hy
      simp only [pyEq, hlen, hlen', decide_true, Bool.true_and]
      exact pyEqObj_trans xs ys zs hl hl'
    · cases hn
  · rcases pyEq_cases h' with ⟨rfl, -⟩ | ⟨s, rfl, -⟩ | ⟨_, _, rfl, -⟩ | ⟨_, _, rfl, -⟩ | ⟨p', hb', hc⟩
    · cases hb
    · cases hb
    · cases hb
    · cases hb
    · rw [hb] at hb'
      cases hb'
      rw [pyEq_num ha hc, decide_eq_true rfl]
termination_by sizeOf a

theorem pyEqList_trans (as bs cs : List Json) (h : pyEqList as bs = true) (h' : pyEqList bs cs = true) :
    pyEqList as cs = true := by
  cases as with
  | nil => cases bs with
    | nil => exact h'
    | cons => cases h
  | cons a as => cases bs with
    | nil => cases h
    | cons b bs => cases cs with
      | nil => cases h'
      | cons c cs =>
        simp only [pyEqList, Bool.and_eq_true] at h h' ⊢
        exact ⟨pyEq_trans a b c h.1 h'.1, pyEqList_trans as bs cs h.2 h'.2⟩
termination_by sizeOf as

theorem pyEqObj_trans (as bs cs : List (String × Json)) (h : pyEqObj as bs = true)
    (h' : pyEqObj bs cs = true) : pyEqObj as cs = true := by
  match as with
  | [] => rfl
  | (k, a) :: as =>
    obtain ⟨b, hb, hab⟩ := pyEqObj_mem h List.mem_cons_self
    obtain ⟨c, hc, hbc⟩ := pyEqObj_mem h' (mem_of_lookup hb)
    simp only [pyEqObj, Bool.and_eq_true] at h ⊢
    refine ⟨?_, pyEqObj_trans as bs cs h.2 h'⟩
    rw [hc]
    exact pyEq_trans a b c hab hbc
termination_by sizeOf as
end

/-! ## `==` and `<` exclude each other -/

theorem not_pyLtList_of_pyEqList (as bs : List Json) (h : pyEqList as bs = true) :
    pyLtList as bs ≠ some true := by
  induction as generalizing bs with
  | nil => cases bs with
    | nil => simp [pyLtList]
    | cons => cases h
  | cons a as ih => cases bs with
    | nil => cases h
    | cons b bs =>
      simp only [pyEqList, Bool.and_eq_true] at h
      simp only [pyLtList, h.1, if_true]
      exact ih bs h.2

/-- Equal values are not below one another. -/
theorem not_pyLt_of_pyEq (a b : Json) (h : pyEq a b = true) : pyLt a b ≠ some true := by
  intro h'
  rcases pyLt_cases h' with ⟨s, t, rfl, rfl, hr⟩ | ⟨xs, ys, rfl, rfl, hl⟩ | ⟨p, q, ha, hb, hr⟩
  · simp only [pyEq, decide_eq_true_eq] at h
    subst h
    exact String.lt_irrefl _ (of_decide_eq_true hr.symm)
  · simp only [pyEq] at h
    exact not_pyLtList_of_pyEqList xs ys h hl
  · rw [pyEq_num ha hb, decide_eq_true_eq] at h
    subst h
    exact absurd (of_decide_eq_true hr.symm) (lt_irrefl _)

theorem not_pyEq_of_pyLt {a b : Json} (h : pyLt a b = some true) : pyEq a b = false := by
  cases he : pyEq a b with
  | false => rfl
  | true => exact absurd h (not_pyLt_of_pyEq a b he)

mutual
/-- A value equal to a smaller one is smaller. -/
theorem pyLt_of_pyEq_of_pyLt (a b c : Json) (h : pyEq a b = true) (h' : pyLt b c = some true) :
    pyLt a c = some true := by
  rcases pyLt_cases h' with ⟨s, t, rfl, rfl, hr⟩ | ⟨ys, zs, rfl, rfl, hl⟩ | ⟨p, q, hb, hc, hr⟩
  · rcases pyEq_cases h with ⟨-, hn⟩ | ⟨s', rfl, hs⟩ | ⟨_, _, -, hn, -⟩ | ⟨_, _, -, hn, -⟩ | ⟨p, -, hn⟩
    · cases hn
    · cases hs; exact h'
    · cases hn
    · cases hn
    · cases hn
  · rcases pyEq_cases h with ⟨-, hn⟩ | ⟨s', -, hn⟩ | ⟨xs, ys', rfl, hy, he⟩ | ⟨_, _, -, hn, -⟩ | ⟨p, -, hn⟩
    · cases hn
    · cases hn
    · cases hy
      simp only [pyLt]
      exact pyLtList_of_pyEqList_of_pyLtList xs ys zs he hl
    · cases hn
    · cases hn
  · rcases pyEq_cases h with ⟨-, rfl⟩ | ⟨s', -, rfl⟩ | ⟨_, _, -, rfl, -⟩ | ⟨_, _, -, rfl, -⟩ | ⟨p', ha, hb'⟩
    · cases hb
    · cases hb
    · cases hb
    · cases hb
    · rw [hb] at hb'
      cases hb'
      rw [pyLt_num ha hc, ← hr]
termination_by sizeOf a

theorem pyLtList_of_pyEqList_of_pyLtList (as bs cs : List Json) (h : pyEqList as bs = true)
    (h' : pyLtList bs cs = some true) : pyLtList as cs = some true := by
  cases as with
  | nil => cases bs with
    | nil => exact h'
    | cons => cases h
  | cons a as => cases bs with
    | nil => cases h
    | cons b bs => cases cs with
      | nil => cases h'
      | cons c cs =>
        simp only [pyEqList, Bool.and_eq_true] at h
        simp only [pyLtList] at h' ⊢
        by_cases hbc : pyEq b c = true
        · rw [if_pos hbc] at h'
          rw [if_pos (pyEq_trans a b c h.1 hbc)]
          exact pyLtList_of_pyEqList_of_pyLtList as bs cs h.2 h'
        · rw [if_neg hbc] at h'
          have hac := pyLt_of_pyEq_of_pyLt a b c h.1 h'
          rw [if_neg (by simp [not_pyEq_of_pyLt hac]), hac]
termination_by sizeOf as
end

mutual
/-- A value below another is below what that one equals. -/
theorem pyLt_of_pyLt_of_pyEq (a b c : Json) (h : pyLt a b = some true) (h' : pyEq b c = true) :
    pyLt a c = some true := by
  rcases pyLt_cases h with ⟨s, t, rfl, rfl, hr⟩ | ⟨xs, ys, rfl, rfl, hl⟩ | ⟨p, q, ha, hb, hr⟩
  · rcases pyEq_cases h' with ⟨hn, -⟩ | ⟨s', hs, rfl⟩ | ⟨_, _, hn, -⟩ | ⟨_, _, hn, -⟩ | ⟨p, hn, -⟩
    · cases hn
    · cases hs; exact h
    · cases hn
    · cases hn
    · cases hn
  · rcases pyEq_cases h' with ⟨hn, -⟩ | ⟨s', hn, -⟩ | ⟨ys', zs, hy, rfl, he⟩ | ⟨_, _, hn, -⟩ | ⟨p, hn, -⟩
    · cases hn
    · cases hn
    · cases hy
      simp only [pyLt]
      exact pyLtList_of_pyLtList_of_pyEqList xs ys zs hl he
    · cases hn
    · cases hn
  · rcases pyEq_cases h' with ⟨rfl, -⟩ | ⟨s', rfl, -⟩ | ⟨_, _, rfl, -⟩ | ⟨_, _, rfl, -⟩ | ⟨p', hb', hc⟩
    · cases hb
    · cases hb
    · cases hb
    · cases hb
    · rw [hb] at hb'
      cases hb'
      rw [pyLt_num ha hc, ← hr]
termination_by sizeOf a

theorem pyLtList_of_pyLtList_of_pyEqList (as bs cs : List Json) (h : pyLtList as bs = some true)
    (h' : pyEqList bs cs = true) : pyLtList as cs = some true := by
  cases as with
  | nil => cases bs with
    | nil => cases h
    | cons => cases cs with
      | nil => cases h'
      | cons => rfl
  | cons a as => cases bs with
    | nil => cases h
    | cons b bs => cases cs with
      | nil => cases h'
      | cons c cs =>
        simp only [pyEqList, Bool.and_eq_true] at h'
        simp only [pyLtList] at h ⊢
        by_cases hab : pyEq a b = true
        · rw [if_pos hab] at h
          rw [if_pos (pyEq_trans a b c hab h'.1)]
          exact pyLtList_of_pyLtList_of_pyEqList as bs cs h h'.2
        · rw [if_neg hab] at h
          have hac := pyLt_of_pyLt_of_pyEq a b c h h'.1
          rw [if_neg (by simp [not_pyEq_of_pyLt hac]), hac]
termination_by sizeOf as
end

/-! ## `<` is transitive -/

mutual
/-- **`<` is transitive.** -/
theorem pyLt_trans (a b c : Json) (h : pyLt a b = some true) (h' : pyLt b c = some true) :
    pyLt a c = some true := by
  rcases pyLt_cases h with ⟨s, t, rfl, rfl, hr⟩ | ⟨xs, ys, rfl, rfl, hl⟩ | ⟨p, q, ha, hb, hr⟩
  · rcases pyLt_cases h' with ⟨t', u, ht, rfl, hr'⟩ | ⟨_, _, hn, -⟩ | ⟨p, q, hn, -⟩
    · cases ht
      have hlt := String.lt_trans (of_decide_eq_true hr.symm) (of_decide_eq_true hr'.symm)
      simp only [pyLt, hlt, decide_true]
    · cases hn
    · cases hn
  · rcases pyLt_cases h' with ⟨_, _, hn, -⟩ | ⟨ys', zs, hy, rfl, hl'⟩ | ⟨p, q, hn, -⟩
    · cases hn
    · cases hy
      simp only [pyLt]
      exact pyLtList_trans xs ys zs hl hl'
    · cases hn
  · rcases pyLt_cases h' with ⟨_, _, rfl, -⟩ | ⟨_, _, rfl, -⟩ | ⟨q', r, hb', hc, hr'⟩
    · cases hb
    · cases hb
    · rw [hb] at hb'
      cases hb'
      have hlt := lt_trans (of_decide_eq_true hr.symm) (of_decide_eq_true hr'.symm)
      rw [pyLt_num ha hc, decide_eq_true hlt]
termination_by sizeOf a

theorem pyLtList_trans (as bs cs : List Json) (h : pyLtList as bs = some true)
    (h' : pyLtList bs cs = some true) : pyLtList as cs = some true := by
  cases as with
  | nil => cases bs with
    | nil => exact h'
    | cons => cases cs with
      | nil => cases h'
      | cons => rfl
  | cons a as => cases bs with
    | nil => cases h
    | cons b bs => cases cs with
      | nil => cases h'
      | cons c cs =>
        simp only [pyLtList] at h h' ⊢
        by_cases hab : pyEq a b = true
        · rw [if_pos hab] at h
          by_cases hbc : pyEq b c = true
          · rw [if_pos hbc] at h'
            rw [if_pos (pyEq_trans a b c hab hbc)]
            exact pyLtList_trans as bs cs h h'
          · rw [if_neg hbc] at h'
            have hac := pyLt_of_pyEq_of_pyLt a b c hab h'
            rw [if_neg (by simp [not_pyEq_of_pyLt hac]), hac]
        · rw [if_neg hab] at h
          have hac : pyLt a c = some true := by
            by_cases hbc : pyEq b c = true
            · exact pyLt_of_pyLt_of_pyEq a b c h hbc
            · rw [if_neg hbc] at h'
              exact pyLt_trans a b c h h'
          rw [if_neg (by simp [not_pyEq_of_pyLt hac]), hac]
termination_by sizeOf as
end

/-! ## Comparable values are totally ordered -/

mutual
/-- Among comparable values `==` is symmetric. -/
theorem pyEq_symm_of_comparable (a b : Json) (h : pyEq a b = true) (hc : (pyLt b a).isSome = true) :
    pyEq b a = true := by
  obtain ⟨r, hr⟩ := Option.isSome_iff_exists.1 hc
  rcases pyLt_cases hr with ⟨s, t, rfl, rfl, -⟩ | ⟨ys, xs, rfl, rfl, hl⟩ | ⟨p, q, hb, ha, -⟩
  · simpa only [pyEq, decide_eq_true_eq, eq_comm] using h
  · simp only [pyEq] at h ⊢
    exact pyEqList_symm_of_comparable xs ys h (by rw [hl]; rfl)
  · rw [pyEq_num ha hb, decide_eq_true_eq] at h
    rw [pyEq_num hb ha, decide_eq_true h.symm]
termination_by sizeOf a

theorem pyEqList_symm_of_comparable (as bs : List Json) (h : pyEqList as bs = true)
    (hc : (pyLtList bs as).isSome = true) : pyEqList bs as = true := by
  cases as with
  | nil => cases bs with
    | nil => rfl
    | cons => cases h
  | cons a as => cases bs with
    | nil => cases h
    | cons b bs =>
      simp only [pyEqList, Bool.and_eq_true] at h ⊢
      simp only [pyLtList] at hc
      by_cases hba : pyEq b a = true
      · rw [if_pos hba] at hc
        exact ⟨hba, pyEqList_symm_of_comparable as bs h.2 hc⟩
      · rw [if_neg hba] at hc
        exact absurd (pyEq_symm_of_comparable a b h.1 hc) hba
termination_by sizeOf as
end

mutual
/-- **Of two comparable values one is below the other, or they are equal.** -/
theorem pyEq_of_not_pyLt (a b : Json) (h : pyLt a b = some false) (h' : pyLt b a = some false) :
    pyEq a b = true := by
  rcases pyLt_cases h with ⟨s, t, rfl, rfl, hr⟩ | ⟨xs, ys, rfl, rfl, hl⟩ | ⟨p, q, ha, hb, hr⟩
  · simp only [pyLt, Option.some.injEq, decide_eq_false_iff_not] at h h'
    simp only [pyEq, decide_eq_true_eq]
    exact String.le_antisymm (String.not_lt.1 h') (String.not_lt.1 h)
  · simp only [pyLt] at h'
    simp only [pyEq]
    exact pyEqList_of_not_pyLtList xs ys hl h'
  · rw [pyLt_num ha hb, Option.some.injEq, decide_eq_false_iff_not] at h
    rw [pyLt_num hb ha, Option.some.injEq, decide_eq_false_iff_not] at h'
    rw [pyEq_num ha hb, decide_eq_true (le_antisymm (not_lt.1 h') (not_lt.1 h))]
termination_by sizeOf a

theorem pyEqList_of_not_pyLtList (as bs : List Json) (h : pyLtList as bs = some false)
    (h' : pyLtList bs as = some false) : pyEqList as bs = true := by
  cases as with
  | nil => cases bs with
    | nil => rfl
    | cons => cases h
  | cons a as => cases bs with
    | nil => cases h'
    | cons b bs =>
      simp only [pyLtList] at h h'
      simp only [pyEqList, Bool.and_eq_true]
      by_cases hab : pyEq a b = true
      · rw [if_pos hab] at h
        have hba : pyEq b a = true := by
          by_contra hba
          rw [if_neg hba] at h'
          exact hba (pyEq_symm_of_comparable a b hab (by rw [h']; rfl))
        rw [if_pos hba] at h'
        exact ⟨hab, pyEqList_of_not_pyLtList as bs h h'⟩
      · rw [if_neg hab] at h
        have hba : ¬ pyEq b a = true := fun hba =>
          hab (pyEq_symm_of_comparable b a hba (by rw [h]; rfl))
        rw [if_neg hba] at h'
        exact absurd (pyEq_of_not_pyLt a b h h') hab
termination_by sizeOf as
end

mutual
/-- No value is below itself. -/
theorem not_pyLt_self (a : Json) : pyLt a a ≠ some true := by
  intro h
  rcases pyLt_cases h with ⟨s, t, rfl, hs, hr⟩ | ⟨xs, ys, rfl, hx, hl⟩ | ⟨p, q, ha, ha', hr⟩
  · cases hs
    exact String.lt_irrefl _ (of_decide_eq_true hr.symm)
  · cases hx
    exact not_pyLtList_self xs hl
  · rw [ha] at ha'
    cases ha'
    exact lt_irrefl _ (of_decide_eq_true hr.symm)
termination_by sizeOf a

theorem not_pyLtList_self (as : List Json) : pyLtList as as ≠ some true := by
  cases as with
  | nil => simp [pyLtList]
  | cons a as =>
    intro h
    simp only [pyLtList] at h
    by_cases ha : pyEq a a = true
    · rw [if_pos ha] at h
      exact not_pyLtList_self as h
    · rw [if_neg ha] at h
      exact not_pyLt_self a h
termination_by sizeOf as
end

/-- `<` is asymmetric. -/
theorem not_pyLt_of_pyLt {a b : Json} (h : pyLt a b = some true) : pyLt b a ≠ some true := fun h' =>
  not_pyLt_self a (pyLt_trans a b a h h')

/-- Two values can be compared, either way round. -/
def Comparable (a b : Json) : Prop := (pyLt a b).isSome = true ∧ (pyLt b a).isSome = true

/-- Among comparable values "not above" is transitive. -/
theorem not_pyLt_trans {a b c : Json} (hab : Comparable a b) (h : pyLt b a ≠ some true)
    (h' : pyLt c b ≠ some true) : pyLt c a ≠ some true := by
  intro hca
  obtain ⟨r, hr⟩ := Option.isSome_iff_exists.1 hab.1
  obtain ⟨r', hr'⟩ := Option.isSome_iff_exists.1 hab.2
  cases r with
  | true => exact h' (pyLt_trans c a b hca hr)
  | false => cases r' with
    | true => exact h hr'
    | false => exact h' (pyLt_of_pyLt_of_pyEq c a b hca (pyEq_of_not_pyLt a b hr hr'))

end Json

/-- **Rows with comparable values are sorted**, in either direction. -/
theorem pairwise_sortLe {col direction : String} {rows : List Row}
    (h : ∀ a ∈ rows, ∀ b ∈ rows, a ≠ b → Json.Comparable (a.get col) (b.get col)) :
    (rows.insertionSort (sortLe col direction)).Pairwise (sortLe col direction) := by
  apply Stable.pairwise_insertionSort_of
  · intro a ha b hb
    unfold sortLe
    by_cases hd : direction = "desc"
    · simp only [hd, if_true]
      by_cases hab : (a.get col).pyLt (b.get col) = some true
      · exact Or.inr (Json.not_pyLt_of_pyLt hab)
      · exact Or.inl hab
    · simp only [hd, if_false]
      by_cases hab : (b.get col).pyLt (a.get col) = some true
      · exact Or.inr (Json.not_pyLt_of_pyLt hab)
      · exact Or.inl hab
  · intro a ha b hb c hc h₁ h₂
    unfold sortLe at h₁ h₂ ⊢
    by_cases hd : direction = "desc"
    · simp only [hd, if_true] at h₁ h₂ ⊢
      by_cases hbc : b = c
      · rwa [← hbc]
      · exact Json.not_pyLt_trans (h c hc b hb (Ne.symm hbc)) h₂ h₁
    · simp only [hd, if_false] at h₁ h₂ ⊢
      by_cases hab : a = b
      · rwa [hab]
      · exact Json.not_pyLt_trans (h a ha b hb hab) h₁ h₂

end Matterbeam
