import Matterbeam.Proof.Compare

/-!
# The order within a file

`sort_rows` takes the rows without a value out, sorts the others in the direction of the hint, and
puts those without one behind them.

* `sortRows_ok`: rows whose values can be compared are sorted, which raises nothing.
* `sortRows_ordered`: nothing is lost, and rows with equal values stay in the order of the file.
* `Ordered.unique`: no other list is ordered so.
* `sort_rows_stable`: **the rows are ordered by the hint, stably, in either direction**.
-/

namespace Matterbeam

/-- The values of a column are totally ordered: any two that are not null can be compared. -/
def TotallyOrdered (col : String) (rows : List Row) : Prop :=
  ∀ a ∈ rows, ∀ b ∈ rows, a.get col ≠ .null → b.get col ≠ .null → Json.Comparable (a.get col) (b.get col)

/-- `a` may stand before `b`: its value is not above, for `asc`, and not below, for `desc`. -/
def HintLe (col direction : String) (a b : Row) : Prop :=
  if direction = "desc" then (b.get col).pyLe (a.get col) = some true else (a.get col).pyLe (b.get col) = some true

/-- What the sorted rows are to be. -/
structure Ordered (col direction : String) (rows sorted : List Row) : Prop where
  /-- No row is lost, and none is added. -/
  perm : sorted.Perm rows
  /-- Rows without a value come last. -/
  nullsLast : sorted.Pairwise fun a b => a.get col = .null → b.get col = .null
  /-- Rows with one are in the order of the hint. -/
  inOrder : sorted.Pairwise fun a b => a.get col ≠ .null → b.get col ≠ .null → HintLe col direction a b
  /-- Rows with equal values are in the order of the file. -/
  ties : ∀ row ∈ rows, row.get col ≠ .null →
    sorted.filter (fun r => (r.get col).pyEq (row.get col)) = rows.filter fun r => (r.get col).pyEq (row.get col)
  /-- So are rows without one. -/
  nulls : sorted.filter (fun r => r.get col = .null) = rows.filter fun r => r.get col = .null

section

variable {col direction : String} {rows : List Row}

/-! ## Comparable values -/

theorem comparable_cases {a b : Json} (h : Json.Comparable a b) :
    a.pyLt b = some true ∧ b.pyLt a = some false ∨ a.pyLt b = some false ∧ b.pyLt a = some true ∨
      a.pyLt b = some false ∧ b.pyLt a = some false := by
  obtain ⟨p, hp⟩ := Option.isSome_iff_exists.1 h.1
  obtain ⟨q, hq⟩ := Option.isSome_iff_exists.1 h.2
  cases p with
  | false => cases q with
    | false => exact Or.inr (Or.inr ⟨hp, hq⟩)
    | true => exact Or.inr (Or.inl ⟨hp, hq⟩)
  | true => cases q with
    | false => exact Or.inl ⟨hp, hq⟩
    | true => exact absurd hq (Json.not_pyLt_of_pyLt hp)

/-- Comparable values are equal if neither is below the other. -/
theorem pyEq_iff_of_comparable {a b : Json} (h : Json.Comparable a b) :
    a.pyEq b = true ↔ a.pyLt b ≠ some true ∧ b.pyLt a ≠ some true := by
  constructor
  · intro he
    exact ⟨Json.not_pyLt_of_pyEq a b he, Json.not_pyLt_of_pyEq b a (Json.pyEq_symm_of_comparable a b he h.2)⟩
  · rintro ⟨h₁, h₂⟩
    rcases comparable_cases h with ⟨h, -⟩ | ⟨-, h⟩ | ⟨h, h'⟩
    · exact absurd h h₁
    · exact absurd h h₂
    · exact Json.pyEq_of_not_pyLt a b h h'

/-- The order of the sort is that of the hint. -/
theorem sortLe_iff {a b : Row} (h : Json.Comparable (a.get col) (b.get col)) :
    sortLe col direction a b ↔ HintLe col direction a b := by
  unfold sortLe HintLe Json.pyLe
  rcases comparable_cases h with ⟨h, h'⟩ | ⟨h, h'⟩ | ⟨h, h'⟩ <;> simp [h, h']

/-- Rows that may stand either way have equal values. -/
theorem tied_iff {a b : Row} (h : Json.Comparable (a.get col) (b.get col)) :
    sortLe col direction a b ∧ sortLe col direction b a ↔ (b.get col).pyEq (a.get col) = true := by
  rw [pyEq_iff_of_comparable h.symm]
  unfold sortLe
  by_cases hd : direction = "desc"
  · rw [if_pos hd, if_pos hd, and_comm]
  · rw [if_neg hd, if_neg hd]

theorem sortLe_self (a : Row) : sortLe col direction a a := by
  unfold sortLe
  split <;> exact Json.not_pyLt_self _

/-- A value that equals one that is not null is not null. -/
theorem ne_null_of_pyEq {a b : Json} (h : a.pyEq b = true) (hb : b ≠ .null) : a ≠ .null := by
  rintro rfl
  rcases Json.pyEq_cases h with ⟨-, hn⟩ | ⟨s, hs, -⟩ | ⟨xs, ys, hs, -⟩ | ⟨xs, ys, hs, -⟩ | ⟨p, hs, -⟩
  · exact hb hn
  all_goals cases hs

/-! ## The sorted rows -/

/-- The rows with a value, sorted, then those without one. -/
def sortedRows (col direction : String) (rows : List Row) : List Row :=
  (rows.filter fun r => r.get col ≠ .null).insertionSort (sortLe col direction) ++ rows.filter fun r => r.get col = .null

theorem mem_present {r : Row} : r ∈ (rows.filter fun r => r.get col ≠ .null) ↔ r ∈ rows ∧ r.get col ≠ .null := by
  rw [List.mem_filter, decide_eq_true_iff]

theorem mem_missing {r : Row} : r ∈ (rows.filter fun r => r.get col = .null) ↔ r ∈ rows ∧ r.get col = .null := by
  rw [List.mem_filter, decide_eq_true_iff]

/-- Rows with an equal value have one, so they are not among those without. -/
theorem filter_ties {row : Row} (hval : row.get col ≠ .null) :
    (rows.filter fun r => r.get col ≠ .null).filter (fun r => (r.get col).pyEq (row.get col)) =
        rows.filter (fun r => (r.get col).pyEq (row.get col)) ∧
      (rows.filter fun r => r.get col = .null).filter (fun r => (r.get col).pyEq (row.get col)) = [] := by
  refine ⟨?_, List.filter_eq_nil_iff.2 fun r hr he => ne_null_of_pyEq he hval (mem_missing.1 hr).2⟩
  rw [List.filter_filter]
  refine List.filter_congr fun r _ => ?_
  by_cases he : (r.get col).pyEq (row.get col) = true
  · rw [he, Bool.true_and, decide_eq_true_iff]
    exact ne_null_of_pyEq he hval
  · rw [Bool.not_eq_true] at he
    rw [he, Bool.false_and]

variable (h : TotallyOrdered col rows)
include h

/-- Rows whose values can be compared are sorted. -/
theorem sortRows_ok : sortRows rows (some (col, direction)) = .ok (sortedRows col direction rows) := by
  refine if_pos (List.pairwise_of_forall_mem_list fun a ha b hb => ?_)
  exact h a (mem_present.1 ha).1 b (mem_present.1 hb).1 (mem_present.1 ha).2 (mem_present.1 hb).2

/-- The rows with a value are in the order of the hint. -/
theorem present_pairwise : ((rows.filter fun r => r.get col ≠ .null).insertionSort (sortLe col direction)).Pairwise
    (sortLe col direction) :=
  pairwise_sortLe fun a ha b hb _ =>
    h a (mem_present.1 ha).1 b (mem_present.1 hb).1 (mem_present.1 ha).2 (mem_present.1 hb).2

/-- The sort leaves rows with equal values in the order of the file. -/
theorem sort_ties {row : Row} (hrow : row ∈ rows) (hval : row.get col ≠ .null) :
    ((rows.filter fun r => r.get col ≠ .null).insertionSort (sortLe col direction)).filter
        (fun r => (r.get col).pyEq (row.get col)) =
      (rows.filter fun r => r.get col ≠ .null).filter fun r => (r.get col).pyEq (row.get col) := by
  refine Stable.filter_insertionSort fun a ha b hb hae hbe => ?_
  obtain ⟨ha, hna⟩ := mem_present.1 ha
  obtain ⟨hb, hnb⟩ := mem_present.1 hb
  -- both are equal to the row, and so to each other
  have hre : (row.get col).pyEq (b.get col) = true := Json.pyEq_symm_of_comparable _ _ hbe (h b hb row hrow hnb hval).2
  have hba : (b.get col).pyEq (a.get col) = true :=
    Json.pyEq_symm_of_comparable _ _ (Json.pyEq_trans _ _ _ hae hre) (h a ha b hb hna hnb).2
  exact ((tied_iff (h a ha b hb hna hnb)).2 hba).1

/-- **The rows are ordered**, and nothing is lost. -/
theorem sortedRows_ordered : Ordered col direction rows (sortedRows col direction rows) := by
  have hmem : ∀ r, r ∈ (rows.filter fun r => r.get col ≠ .null).insertionSort (sortLe col direction) →
      r ∈ rows ∧ r.get col ≠ .null := fun r hr => mem_present.1 ((List.mem_insertionSort _).1 hr)
  unfold sortedRows
  refine ⟨?_, ?_, ?_, fun row hrow hval => ?_, ?_⟩
  · refine ((List.perm_insertionSort _ _).append_right _).trans ?_
    have hsplit := List.filter_append_perm (fun r : Row => r.get col ≠ .null) rows
    simpa using hsplit
  · refine List.pairwise_append.2 ⟨?_, ?_, fun a ha b _ hn => ((hmem a ha).2 hn).elim⟩
    · exact List.pairwise_of_forall_mem_list fun a ha b _ hn => ((hmem a ha).2 hn).elim
    · exact List.pairwise_of_forall_mem_list fun a _ b hb _ => (mem_missing.1 hb).2
  · refine List.pairwise_append.2 ⟨?_, ?_, fun a _ b hb _ hn => (hn (mem_missing.1 hb).2).elim⟩
    · refine (present_pairwise h).imp_of_mem fun {a b} ha hb hab hna hnb => ?_
      exact (sortLe_iff (h a (hmem a ha).1 b (hmem b hb).1 hna hnb)).1 hab
    · exact List.pairwise_of_forall_mem_list fun a ha b _ hna _ => (hna (mem_missing.1 ha).2).elim
  · rw [List.filter_append, sort_ties h hrow hval, (filter_ties hval).1, (filter_ties hval).2, List.append_nil]
  · have hnone : ((rows.filter fun r => r.get col ≠ .null).insertionSort (sortLe col direction)).filter
        (fun r => r.get col = .null) = [] :=
      List.filter_eq_nil_iff.2 fun r hr hn => (hmem r hr).2 (of_decide_eq_true hn)
    rw [List.filter_append, hnone, List.nil_append, List.filter_filter]
    simp only [Bool.and_self]

/-- **No other list is ordered so.** -/
theorem Ordered.unique {sorted : List Row} (hs : Ordered col direction rows sorted) :
    sorted = sortedRows col direction rows := by
  have hcut : sorted.filter (fun r => r.get col ≠ .null) ++ sorted.filter (fun r => r.get col = .null) = sorted := by
    have hcut := Stable.filter_append_filter (p := fun r : Row => decide (r.get col = .null)) (l := sorted)
      (hs.nullsLast.imp fun {a b} hab hn => decide_eq_true (hab (of_decide_eq_true hn)))
    simpa using hcut
  have hpresent : sorted.filter (fun r => r.get col ≠ .null) =
      (rows.filter fun r => r.get col ≠ .null).insertionSort (sortLe col direction) := by
    have hmem : ∀ r, r ∈ sorted.filter (fun r => r.get col ≠ .null) → r ∈ rows ∧ r.get col ≠ .null := fun r hr =>
      ⟨hs.perm.mem_iff.1 (mem_present.1 hr).1, (mem_present.1 hr).2⟩
    refine Stable.eq_of_stable (r := sortLe col direction)
      (fun a b => sortLe col direction a b ∧ sortLe col direction b a) (fun a b => decide_eq_true_iff)
      ((hs.perm.filter _).trans (List.perm_insertionSort _ _).symm) (fun a ha => ?_) ?_ (present_pairwise h) fun a ha => ?_
    · exact sortLe_self a
    · refine (hs.inOrder.filter _).imp_of_mem fun {a b} ha hb hab => ?_
      obtain ⟨ha, hna⟩ := hmem a ha
      obtain ⟨hb, hnb⟩ := hmem b hb
      exact (sortLe_iff (h a ha b hb hna hnb)).2 (hab hna hnb)
    · obtain ⟨har, hna⟩ := hmem a ha
      -- tied rows with a value are those with an equal value
      have htied : ∀ l : List Row, (∀ r ∈ l, r ∈ rows ∧ r.get col ≠ .null) →
          l.filter (fun b => decide (sortLe col direction a b ∧ sortLe col direction b a)) =
            l.filter fun b => (b.get col).pyEq (a.get col) := fun l hl =>
        List.filter_congr fun b hb => by
          rw [Bool.eq_iff_iff, decide_eq_true_iff, tied_iff (h a har b (hl b hb).1 hna (hl b hb).2)]
      rw [htied _ hmem, htied _ fun r hr => mem_present.1 ((List.mem_insertionSort _).1 hr), sort_ties h har hna,
        (filter_ties hna).1, (filter_ties hna).1]
      exact hs.ties a har hna
  rw [← hcut, hpresent, hs.nulls]
  rfl

end

/-- **The rows are ordered by the hint, stably, in either direction.** For every column whose values
can be compared, and for both directions, the sorted rows are those of the file; the rows without a
value come last, the others are in the order of the hint; rows with equal values, and rows without
one, are in the order of the file; and no other list is ordered so. -/
theorem sort_rows_stable (col direction : String) (rows : List Row) (h : TotallyOrdered col rows) :
    ∃ sorted, sortRows rows (some (col, direction)) = .ok sorted ∧ Ordered col direction rows sorted ∧
      ∀ l, Ordered col direction rows l → l = sorted :=
  ⟨_, sortRows_ok h, sortedRows_ordered h, fun _ hl => hl.unique h⟩

/-- Rows with two equal versions, and a row without one. -/
def tiedRows : List Row :=
  [Dict.ofEntries [("id", .int 1), ("version", .int 2)], Dict.ofEntries [("id", .int 2)],
    Dict.ofEntries [("id", .int 3), ("version", .float 2)], Dict.ofEntries [("id", .int 4), ("version", .int 5)]]

/-- Sorted by `desc`, the two equal versions stay in order. -/
theorem sort_rows_stable_tied : ∃ sorted, sortRows tiedRows (some ("version", "desc")) = .ok sorted ∧
    Ordered "version" "desc" tiedRows sorted ∧ ∀ l, Ordered "version" "desc" tiedRows l → l = sorted :=
  sort_rows_stable "version" "desc" tiedRows (by unfold TotallyOrdered Json.Comparable; decide)

example : (sortedRows "version" "desc" tiedRows).map (fun r => r.get "id") = [.int 4, .int 1, .int 3, .int 2] := by decide

end Matterbeam
