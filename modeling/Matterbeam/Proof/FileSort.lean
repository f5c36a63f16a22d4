import Mathlib.Data.List.Pairwise
import Matterbeam.Proof.Compare
import Matterbeam.Proof.FileRun

/-!
# What survives of a sorted load file

A `dedup_sort` table sorts its whole file in the direction of the hint and sends the
rows in that order. The fold keeps the last row of each key, which is the one the hint
puts last.

* `sortRows_sorted`: rows with comparable values are sorted, none is lost.
* `sorted_bodies`: the fold says for each key what the row at the far end of the
  hint's order says.
* `keepsHint_iff`: **the row the hint asks for is kept exactly when the rows at the two
  ends of its key say the same.**
* `desc_keeps_lowest`: two rows of one key, and the lower one survives `desc`.
-/

namespace Matterbeam

open Function Prog

/-- The other direction. -/
def opposite (direction : String) : String := if direction = "desc" then "asc" else "desc"

/-- The hint prefers `a` to `b`: it has the higher value for `desc`, the lower one for `asc`. -/
def Preferred (col direction : String) (a b : Row) : Prop :=
  if direction = "desc" then (b.get col).pyLt (a.get col) = some true
  else (a.get col).pyLt (b.get col) = some true

/-- A row of the file to which the hint prefers no other row of its key. -/
def First (P : Runtime) (keys : List String) (col direction : String) (rows : List Row) (row : Row) : Prop :=
  row ∈ rows ∧ ∀ r ∈ rows, foldKey P keys r = foldKey P keys row → ¬ Preferred col direction r row

/-- The rows can be sorted by the column: every one has a value there, any two values
compare, and within one key they differ. -/
structure Sortable (P : Runtime) (keys : List String) (col : String) (rows : List Row) : Prop where
  nonNull : ∀ r ∈ rows, r.get col ≠ .null
  comparable : rows.Pairwise fun a b => Json.Comparable (a.get col) (b.get col)
  distinct : rows.Pairwise fun a b => foldKey P keys a = foldKey P keys b →
    (a.get col).pyEq (b.get col) = false

section

variable {P : Runtime} {keys : List String} {col direction : String} {rows : List Row}

/-- Two rows whose values compare, and differ if the rows have one key. -/
def Apart (P : Runtime) (keys : List String) (col : String) (a b : Row) : Prop :=
  Json.Comparable (a.get col) (b.get col) ∧ (foldKey P keys a = foldKey P keys b →
    (a.get col).pyEq (b.get col) = false ∧ (b.get col).pyEq (a.get col) = false)

instance : Std.Symm (Apart P keys col) :=
  ⟨fun _ _ h => ⟨And.symm h.1, fun hk => And.symm (h.2 hk.symm)⟩⟩

theorem Sortable.apart (h : Sortable P keys col rows) {a b : Row} (ha : a ∈ rows) (hb : b ∈ rows)
    (hab : a ≠ b) : Apart P keys col a b := by
  have hp : rows.Pairwise (Apart P keys col) := (h.comparable.and h.distinct).imp fun {x y} hxy => by
    refine ⟨hxy.1, fun hk => ⟨hxy.2 hk, ?_⟩⟩
    cases he : (y.get col).pyEq (x.get col) with
    | false => rfl
    | true =>
      -- among comparable values `==` is symmetric
      have hsymm := Json.pyEq_symm_of_comparable _ _ he hxy.1.1
      rw [hxy.2 hk] at hsymm
      cases hsymm
  exact hp.forall ha hb hab

/-- Rows of one key with values that are not ordered are one row. -/
theorem Sortable.eq_of_not_lt (h : Sortable P keys col rows) {a b : Row} (ha : a ∈ rows) (hb : b ∈ rows)
    (hkey : foldKey P keys a = foldKey P keys b) (h₁ : (a.get col).pyLt (b.get col) ≠ some true)
    (h₂ : (b.get col).pyLt (a.get col) ≠ some true) : a = b := by
  by_contra hab
  obtain ⟨⟨hc₁, hc₂⟩, hdiff⟩ := h.apart ha hb hab
  obtain ⟨r₁, hr₁⟩ := Option.isSome_iff_exists.1 hc₁
  obtain ⟨r₂, hr₂⟩ := Option.isSome_iff_exists.1 hc₂
  have hf₁ : r₁ = false := by cases r₁ with | false => rfl | true => exact absurd hr₁ h₁
  have hf₂ : r₂ = false := by cases r₂ with | false => rfl | true => exact absurd hr₂ h₂
  subst hf₁ hf₂
  have hne := (hdiff hkey).1
  rw [Json.pyEq_of_not_pyLt _ _ hr₁ hr₂] at hne
  cases hne

/-- **The rows are sorted**, in the direction of the hint, and none is lost. -/
theorem sortRows_sorted (h : Sortable P keys col rows) (direction : String) :
    ∃ sorted, sortRows rows (some (col, direction)) = .ok sorted ∧
      sorted.Pairwise (sortLe col direction) ∧ ∀ r, r ∈ sorted ↔ r ∈ rows := by
  have hpresent : rows.filter (fun r => r.get col ≠ .null) = rows :=
    List.filter_eq_self.2 fun r hr => by simpa using h.nonNull r hr
  have hmissing : rows.filter (fun r => r.get col = .null) = [] :=
    List.filter_eq_nil_iff.2 fun r hr => by simpa using h.nonNull r hr
  refine ⟨rows.insertionSort (sortLe col direction), ?_, ?_, fun r => List.mem_insertionSort _⟩
  · unfold sortRows
    simp only [hpresent, hmissing, List.append_nil]
    exact if_pos h.comparable
  · exact pairwise_sortLe fun a ha b hb hab => (h.apart ha hb hab).1

/-- Sorted before is not preferred by the other direction. -/
theorem not_preferred_of_sortLe (hd : direction = "asc" ∨ direction = "desc") {a b : Row}
    (h : sortLe col direction a b) : ¬ Preferred col (opposite direction) a b := by
  unfold sortLe at h
  unfold Preferred opposite
  rcases hd with rfl | rfl
  · simpa using h
  · simpa using h

/-- A row with which the order of the hint ends, for its key, is one to which the other
direction prefers no row of the key; and what is written last there is what it says. -/
theorem sorted_last (hd : direction = "asc" ∨ direction = "desc") {sorted : List Row}
    (hsort : sorted.Pairwise (sortLe col direction)) (hmem : ∀ r, r ∈ sorted ↔ r ∈ rows) (hardDelete : List String) {row : Row} (hrow : row ∈ rows) :
    ∃ last, First P keys col (opposite direction) rows last ∧ foldKey P keys last = foldKey P keys row ∧
      Replay.replay (sorted.map (walkOp P keys hardDelete)) (foldKey P keys row) =
        (walkOp P keys hardDelete last).2 := by
  obtain ⟨l₁, last, l₂, hsplit, hkey, hlast, hop⟩ :=
    Replay.lastOp_map (walkOp P keys hardDelete) sorted ((hmem row).2 hrow)
  refine ⟨last, ⟨(hmem last).1 (by rw [hsplit]; simp), fun r hr hrk => ?_⟩, hkey, ?_⟩
  · have hr' : r ∈ l₁ ∨ r = last ∨ r ∈ l₂ := by
      have := (hmem r).2 hr
      rw [hsplit] at this
      simpa using this
    rcases hr' with h | rfl | h
    · -- the row stands before the last one
      rw [hsplit] at hsort
      exact not_preferred_of_sortLe hd ((List.pairwise_append.1 hsort).2.2 r h last (by simp))
    · unfold Preferred
      split <;> exact Json.not_pyLt_self _
    · exact absurd (hrk.trans hkey) (hlast r h)
  · rw [Replay.replay_eq]
    exact congrArg Option.join hop

/-- Within one key the hint leaves no choice. -/
theorem First.unique (hs : Sortable P keys col rows) {a b : Row} (ha : First P keys col direction rows a)
    (hb : First P keys col direction rows b) (hkey : foldKey P keys a = foldKey P keys b) : a = b := by
  have h₁ := ha.2 b hb.1 hkey.symm
  have h₂ := hb.2 a ha.1 hkey
  unfold Preferred at h₁ h₂
  by_cases hd : direction = "desc"
  · rw [if_pos hd] at h₁ h₂
    exact hs.eq_of_not_lt ha.1 hb.1 hkey h₁ h₂
  · rw [if_neg hd] at h₁ h₂
    exact hs.eq_of_not_lt ha.1 hb.1 hkey h₂ h₁

end

/-- The file that a run of a job leaves, from an empty directory. -/
def runFile (P : Runtime) (datasetName : String) (a : Attempt) (job : LoadJob) : List Row :=
  ((job.run P a.active (a.client datasetName)).exec appendTo fun _ => []).1 (job.file datasetName)

/-- After the run, the fold of the file says for every key what the row says that the hint asks for. -/
def KeepsHint (P : Runtime) (keys : List String) (col direction datasetName : String) (a : Attempt)
    (job : LoadJob) : Prop :=
  ∀ row, First P keys col direction (job.fileRows P) row →
    bodies P (runFile P datasetName a job) keys (foldKey P keys row) =
      (walkOp P keys (dataColumns (hardDeleteFields job.table)) row).2

section

variable {P : Runtime} {keys : List String} {col direction : String} {job : LoadJob}

/-- **What a sorted file folds to.** -/
theorem sorted_bodies (hk : KeysOk keys) (hj : KeyedJob P keys job)
    (hsort : dedupSort job.table = some (col, direction)) (hd : direction = "asc" ∨ direction = "desc")
    (hs : Sortable P keys col (job.fileRows P)) (datasetName : String) (a : Attempt) {row : Row}
    (hrow : row ∈ job.fileRows P) :
    ∃ last, First P keys col (opposite direction) (job.fileRows P) last ∧
      foldKey P keys last = foldKey P keys row ∧
      bodies P (runFile P datasetName a job) keys (foldKey P keys row) =
        (walkOp P keys (dataColumns (hardDeleteFields job.table)) last).2 := by
  obtain ⟨sorted, hrows, hpair, hmem⟩ := sortRows_sorted hs direction
  have hjob : job.rows P = .ok sorted := by
    unfold LoadJob.rows
    rw [hsort, hrows]
  obtain ⟨rs, cl', hrun, hops⟩ := run_files hk hj hjob (fun r hr => hj.rows r ((hmem r).1 hr))
    datasetName a fun _ => []
  obtain ⟨last, hfirst, hkey, hlast⟩ := sorted_last hd hpair hmem
    (dataColumns (hardDeleteFields job.table)) hrow
  refine ⟨last, hfirst, hkey, ?_⟩
  have hfile : runFile P datasetName a job = rs := by
    unfold runFile
    rw [hrun]
    simp
  rw [hfile, bodies_eq, hops, hlast]

end

/-- **`dedup_sort` keeps the row the hint asks for exactly when, for every key, the row with
the highest value and the row with the lowest say the same.** -/
theorem keepsHint_iff (P : Runtime) (keys : List String) (col direction datasetName : String) (a : Attempt)
    (job : LoadJob) (hk : KeysOk keys) (hj : KeyedJob P keys job)
    (hsort : dedupSort job.table = some (col, direction)) (hd : direction = "asc" ∨ direction = "desc")
    (hs : Sortable P keys col (job.fileRows P)) :
    KeepsHint P keys col direction datasetName a job ↔
      ∀ hi lo, First P keys col "desc" (job.fileRows P) hi → First P keys col "asc" (job.fileRows P) lo →
        foldKey P keys hi = foldKey P keys lo →
        (walkOp P keys (dataColumns (hardDeleteFields job.table)) hi).2 =
          (walkOp P keys (dataColumns (hardDeleteFields job.table)) lo).2 := by
  have hends : (∀ r last, First P keys col direction (job.fileRows P) r →
        First P keys col (opposite direction) (job.fileRows P) last → foldKey P keys last = foldKey P keys r →
        (walkOp P keys (dataColumns (hardDeleteFields job.table)) last).2 =
          (walkOp P keys (dataColumns (hardDeleteFields job.table)) r).2) ↔
      ∀ hi lo, First P keys col "desc" (job.fileRows P) hi → First P keys col "asc" (job.fileRows P) lo →
        foldKey P keys hi = foldKey P keys lo →
        (walkOp P keys (dataColumns (hardDeleteFields job.table)) hi).2 =
          (walkOp P keys (dataColumns (hardDeleteFields job.table)) lo).2 := by
    rcases hd with rfl | rfl
    · exact ⟨fun h hi lo hhi hlo hkey => h lo hi hlo hhi hkey, fun h r l hr hl hkey => h l r hl hr hkey⟩
    · exact ⟨fun h hi lo hhi hlo hkey => (h hi lo hhi hlo hkey.symm).symm,
        fun h r l hr hl hkey => (h r l hr hl hkey.symm).symm⟩
  rw [← hends]
  constructor
  · intro h r last hr hlast hkey
    obtain ⟨last', hfirst, hkey', hbody⟩ := sorted_bodies hk hj hsort hd hs datasetName a hr.1
    rw [hlast.unique hs hfirst (hkey.trans hkey'.symm), ← hbody]
    exact h r hr
  · intro h row hrow
    obtain ⟨last, hfirst, hkey, hbody⟩ := sorted_bodies hk hj hsort hd hs datasetName a hrow.1
    rw [hbody]
    exact h row last hrow hfirst hkey

/-! ### Two rows of one key -/

/-- A keyed table, sorted by version, the newest row first. -/
def versions : Table where
  name := "versions"
  writeDisposition := some "merge"
  columns := Dict.ofEntries [("id", { name := "id", primaryKey := true }),
    ("version", { name := "version", dedupSort := some "desc" })]

/-- A load of that table, with the versions given. -/
def versionsJob (vs : List ℤ) : LoadJob where
  table := versions
  lines := vs.map fun v => .bare (Dict.ofEntries [("id", .int 1), ("version", .int v), ("_dlt_id", .str "a")])
  loadId := "1.0"
  jobId := "versions.a.jsonl"

/-- An attempt with all rows in one chunk. -/
def oneChunk : Attempt where
  files := { clock := fun _ _ => "2026-01-01T00:00:00Z" }
  chunkRecords := 50000
  chunkBytes := 4194304
  schemaName := "shop"
  active := some "shop"

theorem keepsHint_iff_versions :
    KeepsHint .plain ["id"] "version" "desc" "shop" oneChunk (versionsJob [2, 1]) ↔
      ∀ hi lo, First .plain ["id"] "version" "desc" ((versionsJob [2, 1]).fileRows .plain) hi →
        First .plain ["id"] "version" "asc" ((versionsJob [2, 1]).fileRows .plain) lo →
        foldKey .plain ["id"] hi = foldKey .plain ["id"] lo →
        (walkOp .plain ["id"] (dataColumns (hardDeleteFields versions)) hi).2 =
          (walkOp .plain ["id"] (dataColumns (hardDeleteFields versions)) lo).2 :=
  keepsHint_iff .plain ["id"] "version" "desc" "shop" oneChunk (versionsJob [2, 1])
    ⟨by decide, by decide, by decide, by decide⟩ ⟨by decide, ⟨none, by decide⟩, by decide⟩ (by decide)
    (by decide) ⟨by decide, by unfold Json.Comparable; decide, by decide⟩

/-- **Of two rows of one key, `desc` keeps the lower.** -/
theorem desc_keeps_lowest :
    ¬ KeepsHint .plain ["id"] "version" "desc" "shop" oneChunk (versionsJob [2, 1]) := by
  intro h
  have h₁ := h (Dict.ofEntries [("id", .int 1), ("version", .int 2), ("_dlt_id", .str "a")])
    (by unfold First Preferred; decide)
  revert h₁
  decide

end Matterbeam
