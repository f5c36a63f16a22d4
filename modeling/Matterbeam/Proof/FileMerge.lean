import Matterbeam.Proof.FileRun

/-!
# Merge semantics of the file transport

Load jobs on one keyed table run one after another; each is attempted any number of
times, fails after some of its chunks, and is then run to the end. Whatever the failed
attempts have appended, the last-value-wins fold of the file is the walk over all rows
once each.

* `retried_sent`: a job with its failed attempts appends entries of its own rows, then
  the entries of all of them.
* `jobs_sent`: a sequence of jobs.
* `file_merge`: **the fold of the file is the walk over the rows.**
* `hard_delete_id`: a delete flag on `_dlt_id` itself has no effect, as the id is popped
  off the row before the flag is read.
-/

namespace Matterbeam

open Function Prog

/-- A load job with its attempts: those that failed, each after some number of appends,
and the one that ran to the end. -/
structure Retried where
  job : LoadJob
  failed : List (Attempt × ℕ)
  last : Attempt

namespace Retried

variable (P : Runtime) (datasetName : String)

/-- The directory after the failed attempts. -/
def failedFiles (j : Retried) (fs : Files) : Files :=
  j.failed.foldl (fun fs a => (j.job.run P a.1.active (a.1.client datasetName)).execFor appendTo a.2 fs) fs

/-- The directory after the last attempt, and what that returned. -/
def run (j : Retried) (fs : Files) : Files × Except PyError Unit :=
  let (fs, (r, _)) := (j.job.run P j.last.active (j.last.client datasetName)).exec appendTo
    (j.failedFiles P datasetName fs)
  (fs, r)

/-- The directory after a sequence of jobs. -/
def runAll (js : List Retried) (fs : Files) : Files := js.foldl (fun fs j => (j.run P datasetName fs).1) fs

end Retried

/-- The walk over the rows of a sequence of jobs, with the delete flags given for each table. -/
def walk (P : Runtime) (keys : List String) (hardDelete : Table → List String) (js : List Retried) :
    String → Option Row :=
  Replay.replay (js.flatMap fun j => (j.job.fileRows P).map (walkOp P keys (hardDelete j.job.table)))

section

variable {P : Runtime} {keys : List String}

/-- A job that is not sorted sends its rows as they stream out of the file. -/
theorem rows_unsorted {job : LoadJob} (h : dedupSort job.table = none) :
    job.rows P = .ok (job.fileRows P) := by
  unfold LoadJob.rows
  rw [h]
  rfl

/-- The rows that a job sends, in their order. -/
def LoadJob.sentRows (P : Runtime) (job : LoadJob) : List Row := (job.rows P).toOption.getD []

theorem LoadJob.sentRows_ok {job : LoadJob} {rows : List Row} (h : job.rows P = .ok rows) : job.sentRows P = rows := by
  unfold sentRows
  rw [h]
  rfl

/-- What a job sends are the rows of its file. -/
theorem LoadJob.mem_rows {job : LoadJob} {rows : List Row} (h : job.rows P = .ok rows) {row : Row} :
    row ∈ rows ↔ row ∈ job.fileRows P := by
  unfold LoadJob.rows sortRows at h
  cases hd : dedupSort job.table with
  | none =>
    rw [hd] at h
    cases h
    rfl
  | some sort =>
    rw [hd] at h
    dsimp only at h
    split at h
    · cases h
      rw [List.mem_append, (List.perm_insertionSort _ _).mem_iff, List.mem_filter, List.mem_filter, ← and_or_left]
      exact and_iff_left (by simpa using ne_or_eq _ _)
    · cases h

/-- **A job and its failed attempts** append entries of its rows, then the entries of all of them. -/
theorem retried_sent (hk : KeysOk keys) {j : Retried} (hj : KeyedJob P keys j.job) {rows : List Row}
    (hrows : j.job.rows P = .ok rows) (datasetName : String) (fs : Files) :
    ∃ stale rs, j.run P datasetName fs = (update fs (j.job.file datasetName)
        (fs (j.job.file datasetName) ++ (stale ++ rs)), .ok ()) ∧
      (∀ e ∈ stale.map (bodyOp P keys), ∃ e' ∈ rs.map (bodyOp P keys), e'.1 = e.1) ∧
      rs.map (bodyOp P keys) = rows.map (walkOp P keys (dataColumns (hardDeleteFields j.job.table))) := by
  have hkeyed : ∀ row ∈ rows, Keyed keys (hardDeleteFields j.job.table) row :=
    fun row hr => hj.rows row ((LoadJob.mem_rows hrows).1 hr)
  -- what the failed attempts have appended, by induction on their list
  have hfailed : ∀ (l : List (Attempt × ℕ)) (fs : Files), ∃ stale,
      l.foldl (fun fs a => (j.job.run P a.1.active (a.1.client datasetName)).execFor appendTo a.2 fs) fs =
        update fs (j.job.file datasetName) (fs (j.job.file datasetName) ++ stale) ∧
      ∀ e ∈ stale.map (bodyOp P keys), e ∈ rows.map (walkOp P keys (dataColumns (hardDeleteFields j.job.table))) := by
    intro l
    induction l with
    | nil => intro fs; exact ⟨[], by simp, by simp⟩
    | cons a l ih =>
      intro fs
      obtain ⟨rs, hrun, hrs⟩ := run_filesFor hk hj hrows hkeyed datasetName a.1 a.2 fs
      obtain ⟨stale, hl, hstale⟩ := ih (update fs (j.job.file datasetName) (fs (j.job.file datasetName) ++ rs))
      refine ⟨rs ++ stale, ?_, ?_⟩
      · rw [List.foldl_cons, hrun, hl, appendTo_append]
      · intro e he
        rw [List.map_append, List.mem_append] at he
        exact he.elim (hrs e) (hstale e)
  obtain ⟨stale, hl, hstale⟩ := hfailed j.failed fs
  obtain ⟨rs, cl', hrun, hrs⟩ := run_files hk hj hrows hkeyed datasetName j.last
    (update fs (j.job.file datasetName) (fs (j.job.file datasetName) ++ stale))
  refine ⟨stale, rs, ?_, fun e he => ?_, hrs⟩
  · unfold Retried.run Retried.failedFiles
    rw [hl, hrun, appendTo_append]
  · rw [hrs]
    exact ⟨e, hstale e he, rfl⟩

/-- A job that is not sorted. -/
theorem retried_files (hk : KeysOk keys) {j : Retried} (hj : KeyedJob P keys j.job)
    (hsort : dedupSort j.job.table = none) (datasetName : String) (fs : Files) :
    ∃ stale rs, j.run P datasetName fs = (update fs (j.job.file datasetName)
        (fs (j.job.file datasetName) ++ (stale ++ rs)), .ok ()) ∧
      (∀ e ∈ stale.map (bodyOp P keys), ∃ e' ∈ rs.map (bodyOp P keys), e'.1 = e.1) ∧
      rs.map (bodyOp P keys) =
        (j.job.fileRows P).map (walkOp P keys (dataColumns (hardDeleteFields j.job.table))) :=
  retried_sent hk hj (rows_unsorted hsort) datasetName fs

/-- **A sequence of jobs** on one table leaves a file whose replay is the walk over the rows. -/
theorem jobs_sent (hk : KeysOk keys) (datasetName name : String) {js : List Retried}
    (hjs : ∀ j ∈ js, j.job.table.name = name ∧ KeyedJob P keys j.job ∧ ∃ rows, j.job.rows P = .ok rows)
    (fs : Files) {l : List (String × Option Row)}
    (hfs : Replay.replay ((fs (datasetName ++ "." ++ name ++ ".jsonl")).map (bodyOp P keys)) = Replay.replay l) :
    Replay.replay ((Retried.runAll P datasetName js fs (datasetName ++ "." ++ name ++ ".jsonl")).map
      (bodyOp P keys)) = Replay.replay (l ++ js.flatMap fun j => (j.job.sentRows P).map
        (walkOp P keys (dataColumns (hardDeleteFields j.job.table)))) := by
  induction js generalizing fs l with
  | nil => simpa [Retried.runAll] using hfs
  | cons j js ih =>
    obtain ⟨⟨hname, hj, rows, hrows⟩, hrest⟩ := List.forall_mem_cons.1 hjs
    obtain ⟨stale, rs, hrun, hstale, hrs⟩ := retried_sent hk hj hrows datasetName fs
    rw [← LoadJob.sentRows_ok hrows] at hrs
    have hfile : j.job.file datasetName = datasetName ++ "." ++ name ++ ".jsonl" := by
      unfold LoadJob.file
      rw [hname]
    have hone : Replay.replay (((j.run P datasetName fs).1 (datasetName ++ "." ++ name ++ ".jsonl")).map
        (bodyOp P keys)) = Replay.replay (l ++ (j.job.sentRows P).map
          (walkOp P keys (dataColumns (hardDeleteFields j.job.table)))) := by
      rw [hrun, hfile]
      simp only [update_self, List.map_append]
      rw [← List.append_assoc, Replay.replay_resend _ _ _ hstale, hrs]
      exact Replay.replay_append_congr hfs _
    have := ih hrest _ hone
    rw [List.append_assoc] at this
    exact this

/-- Jobs that are not sorted. -/
theorem jobs_files (hk : KeysOk keys) (datasetName name : String) {js : List Retried}
    (hjs : ∀ j ∈ js, j.job.table.name = name ∧ KeyedJob P keys j.job ∧ dedupSort j.job.table = none)
    (fs : Files) {l : List (String × Option Row)}
    (hfs : Replay.replay ((fs (datasetName ++ "." ++ name ++ ".jsonl")).map (bodyOp P keys)) = Replay.replay l) :
    Replay.replay ((Retried.runAll P datasetName js fs (datasetName ++ "." ++ name ++ ".jsonl")).map
      (bodyOp P keys)) = Replay.replay (l ++ js.flatMap fun j => (j.job.fileRows P).map
        (walkOp P keys (dataColumns (hardDeleteFields j.job.table)))) := by
  rw [jobs_sent hk datasetName name (fun j hj => ⟨(hjs j hj).1, (hjs j hj).2.1, _, rows_unsorted (hjs j hj).2.2⟩) fs hfs]
  congr 2
  exact List.flatMap_congr fun j hj => by rw [LoadJob.sentRows_ok (rows_unsorted (hjs j hj).2.2)]

end

/-- **Merge semantics of the file transport.** Every complete run succeeds, and the fold of the
file by the key columns gives the walk over all jobs' rows, in which a delete flag counts when
its column is not one of the two ids. -/
theorem file_merge (P : Runtime) (datasetName name : String) (keys : List String) (js : List Retried)
    (hk : KeysOk keys)
    (hjs : ∀ j ∈ js, j.job.table.name = name ∧ KeyedJob P keys j.job ∧ dedupSort j.job.table = none) :
    (∀ js₁ j js₂, js = js₁ ++ j :: js₂ →
      (j.run P datasetName (Retried.runAll P datasetName js₁ fun _ => [])).2 = .ok ()) ∧
    bodies P (Retried.runAll P datasetName js (fun _ => []) (datasetName ++ "." ++ name ++ ".jsonl")) keys =
      walk P keys (fun table => dataColumns (hardDeleteFields table)) js := by
  constructor
  · rintro js₁ j js₂ rfl
    obtain ⟨-, hj, hsort⟩ := hjs j (by simp)
    obtain ⟨stale, rs, hrun, -, -⟩ := retried_files hk hj hsort datasetName
      (Retried.runAll P datasetName js₁ fun _ => [])
    rw [hrun]
  · rw [bodies_eq, walk]
    exact jobs_files hk datasetName name hjs _ (l := []) rfl

/-! ### The walk, at a concrete file -/

/-- A keyed table with a hard-delete column. -/
def customers : Table where
  name := "customers"
  writeDisposition := some "merge"
  columns := Dict.ofEntries [("id", { name := "id", primaryKey := true }), ("name", { name := "name" }),
    ("deleted", { name := "deleted", hardDelete := true })]

/-- An attempt with one row to a chunk. -/
def oneByOne : Attempt where
  files := { clock := fun _ _ => "2026-01-01T00:00:00Z" }
  chunkRecords := 1
  chunkBytes := 4194304
  schemaName := "shop"
  active := some "shop"

/-- Two rows of one key, the second a deletion, and a job that failed once after its first chunk. -/
def customersRetried : Retried where
  job :=
    { table := customers
      lines := [.array [Dict.ofEntries [("id", .int 1), ("name", .str "ada"), ("_dlt_id", .str "a")],
        Dict.ofEntries [("id", .int 1), ("deleted", .bool true), ("_dlt_id", .str "b")]]]
      loadId := "1.0"
      jobId := "customers.a.jsonl" }
  failed := [(oneByOne, 1)]
  last := oneByOne

theorem file_merge_customers :
    (∀ js₁ j js₂, [customersRetried] = js₁ ++ j :: js₂ →
      (j.run .plain "shop" (Retried.runAll .plain "shop" js₁ fun _ => [])).2 = .ok ()) ∧
    bodies .plain (Retried.runAll .plain "shop" [customersRetried] (fun _ => [])
        ("shop" ++ "." ++ "customers" ++ ".jsonl")) ["id"] =
      walk .plain ["id"] (fun table => dataColumns (hardDeleteFields table)) [customersRetried] :=
  file_merge .plain "shop" "customers" ["id"] [customersRetried] ⟨by decide, by decide, by decide, by decide⟩ (by
    simp only [List.mem_singleton, forall_eq]
    exact ⟨rfl, ⟨by decide, ⟨none, by decide⟩, by decide⟩, by decide⟩)

/-- A table whose delete flag is on the `_dlt_id` column. -/
def flaggedId : Table where
  name := "flagged"
  writeDisposition := some "merge"
  columns := Dict.ofEntries [("id", { name := "id", primaryKey := true }),
    ("_dlt_id", { name := "_dlt_id", hardDelete := true })]

/-- One row of that table. -/
def flaggedRetried : Retried where
  job :=
    { table := flaggedId
      lines := [.bare (Dict.ofEntries [("id", .int 1), ("_dlt_id", .str "a")])]
      loadId := "1.0"
      jobId := "flagged.a.jsonl" }
  failed := []
  last := oneByOne

/-- **A delete flag on `_dlt_id` has no effect**: the row is kept, though its flag is truthy. -/
theorem hard_delete_id :
    KeysOk ["id"] ∧ KeyedJob .plain ["id"] flaggedRetried.job ∧ dedupSort flaggedId = none ∧
    bodies .plain (Retried.runAll .plain "shop" [flaggedRetried] (fun _ => [])
        ("shop" ++ "." ++ "flagged" ++ ".jsonl")) ["id"] ≠
      walk .plain ["id"] hardDeleteFields [flaggedRetried] := by
  refine ⟨⟨by decide, by decide, by decide, by decide⟩, ⟨by decide, ⟨none, by decide⟩, by decide⟩,
    by decide, fun h => ?_⟩
  have h₁ := congrFun h "1"
  revert h₁
  decide

end Matterbeam
