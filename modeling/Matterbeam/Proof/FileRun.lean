import Matterbeam.Model.Client
import Matterbeam.Proof.Facts

/-!
# Load jobs over the file transport

What a run of a load job, whole or broken off, leaves in the output directory, read as
a keyed log.

* `records_op`: the records of a chunk say what its rows say.
* `sendEach_files`: sending chunks appends their rows' entries, and a run that is broken
  off has appended those of the chunks it sent.
* `run_files`, `runFor_files`: the same for a job.
-/

namespace Matterbeam

open Function Prog

/-- The output directory: the records in each file. -/
abbrev Files := String → List Row

/-- Append to a file. -/
def appendTo (fs : Files) (a : Append) : Files × PUnit := (update fs a.file (fs a.file ++ a.lines), ())

/-- An attempt at a job: the client dlt opens for it, and what its clock reads. -/
structure Attempt where
  files : FileTransport
  chunkRecords : ℤ
  chunkBytes : ℤ
  schemaName : String
  active : Option String

/-- The client of an attempt. -/
def Attempt.client (datasetName : String) (a : Attempt) : JobClient Append Unit where
  transport := a.files.transport
  config := { datasetName := datasetName, chunkRecords := a.chunkRecords, chunkBytes := a.chunkBytes }
  schemaName := a.schemaName

section

variable {P : Runtime} {keys : List String} {T : FileTransport}

/-- **The records of a chunk** say what its rows say. -/
theorem records_op (hk : KeysOk keys) {c : Chunk} (hc : c.keys = keys) {rows : List Row}
    (hrows : ∀ row ∈ rows, Keyed keys c.hardDelete row) (i : ℕ) :
    ∃ rs, T.records c rows i = .ok rs ∧
      rs.map (bodyOp P keys) = rows.map (walkOp P keys (dataColumns c.hardDelete)) := by
  induction rows generalizing i with
  | nil => exact ⟨[], rfl, rfl⟩
  | cons row rows ih =>
    obtain ⟨hrow, hrest⟩ := List.forall_mem_cons.1 hrows
    obtain ⟨r, hr, hop⟩ := buildRecord_op (P := P) hk hrow c.recordtypeId c.loadId none (T.clock c i)
    obtain ⟨rs, hrs, hops⟩ := ih hrest (i + 1)
    refine ⟨r :: rs, ?_, by rw [List.map_cons, List.map_cons, hop, hops]⟩
    unfold FileTransport.records
    rw [hc, hr, hrs]
    rfl

/-- A client of the file transport once its identity is resolved: there is none. -/
def resolved (cl : JobClient Append Unit) : JobClient Append Unit :=
  if cl.pidResolved then cl else { cl with pid := none, pidResolved := true }

/-- Sending a chunk over the file transport is one append. -/
theorem sendChunk_file {cl : JobClient Append Unit} (hT : cl.transport = T.transport)
    (active : Option String) {c : Chunk} {rs : List Row} (hrs : T.records c c.rows 0 = .ok rs) :
    cl.sendChunk active c = call (⟨c.recordtypeId ++ ".jsonl", rs⟩ : Append) fun _ =>
      ret (.ok (.str (c.recordtypeId ++ ".jsonl")), resolved cl) := by
  have hreg : ∀ k d, T.transport.register k d = ret (.ok none) := fun _ _ => rfl
  have hsend : ∀ p, T.transport.sendChunk c p = T.sendChunk c := fun _ => rfl
  have hs : T.sendChunk c = call (⟨c.recordtypeId ++ ".jsonl", rs⟩ : Append) fun _ =>
      ret (.ok (.str (c.recordtypeId ++ ".jsonl"))) := by
    unfold FileTransport.sendChunk
    rw [hrs]
    rfl
  unfold JobClient.sendChunk JobClient.ensurePidFallback JobClient.ensurePid resolved
  by_cases hp : cl.pidResolved
  · simp [hp, hT, hsend, hs]
  · simp [hp, hT, hreg, hsend, hs]

theorem resolved_transport (cl : JobClient Append Unit) : (resolved cl).transport = cl.transport := by
  unfold resolved
  split <;> rfl

theorem appendTo_append (fs : Files) (file : String) (l m : List Row) :
    update (update fs file (fs file ++ l)) file (update fs file (fs file ++ l) file ++ m) =
      update fs file (fs file ++ (l ++ m)) := by
  rw [update_self, update_idem, List.append_assoc]

/-- The file a job appends to. -/
def LoadJob.file (job : LoadJob) (datasetName : String) : String :=
  datasetName ++ "." ++ job.table.name ++ ".jsonl"

variable {job : LoadJob} (config : Config) (active : Option String)

/-- **Sending chunks** appends records that say what the rows say. -/
theorem sendEach_files (hk : KeysOk keys) (hkeys : keyFields job.table = keys) {cs : List (List Row)}
    (hrows : ∀ row ∈ cs.flatten, Keyed keys (hardDeleteFields job.table) row) (seq : ℕ) {cl : JobClient Append Unit}
    (hT : cl.transport = T.transport) (fs : Files) :
    ∃ rs cl', (job.sendEach active config cs seq cl).exec appendTo fs =
        (update fs (job.file config.datasetName) (fs (job.file config.datasetName) ++ rs), (.ok (), cl')) ∧
      rs.map (bodyOp P keys) =
        cs.flatten.map (walkOp P keys (dataColumns (hardDeleteFields job.table))) := by
  induction cs generalizing seq cl fs with
  | nil => exact ⟨[], cl, by simp [LoadJob.sendEach], rfl⟩
  | cons c cs ih =>
    rw [List.flatten_cons] at hrows
    obtain ⟨rs, hrs, hops⟩ := records_op (P := P) (T := T) hk (c := job.chunk config c seq) hkeys
      (fun row h => hrows row (List.mem_append_left _ h)) 0
    obtain ⟨rs', cl', hrun, hops'⟩ := ih (fun row h => hrows row (List.mem_append_right _ h)) (seq + 1)
      ((resolved_transport cl).trans hT) (appendTo fs ⟨job.file config.datasetName, rs⟩).1
    refine ⟨rs ++ rs', cl', ?_, by
      rw [List.map_append, hops, hops', List.flatten_cons, List.map_append]; rfl⟩
    unfold LoadJob.sendEach
    rw [sendChunk_file hT active hrs, call_bind, exec_call]
    refine hrun.trans ?_
    simp only [appendTo]
    rw [appendTo_append]

/-- **A run that is broken off** has appended the entries of the chunks it sent. -/
theorem sendEach_filesFor (hk : KeysOk keys) (hkeys : keyFields job.table = keys) {cs : List (List Row)}
    (hrows : ∀ row ∈ cs.flatten, Keyed keys (hardDeleteFields job.table) row) (n seq : ℕ) {cl : JobClient Append Unit}
    (hT : cl.transport = T.transport) (fs : Files) :
    ∃ rs, (job.sendEach active config cs seq cl).execFor appendTo n fs =
        update fs (job.file config.datasetName) (fs (job.file config.datasetName) ++ rs) ∧
      rs.map (bodyOp P keys) =
        (cs.take n).flatten.map (walkOp P keys (dataColumns (hardDeleteFields job.table))) := by
  induction cs generalizing n seq cl fs with
  | nil => exact ⟨[], by cases n <;> simp [LoadJob.sendEach, execFor], by simp⟩
  | cons c cs ih =>
    cases n with
    | zero => exact ⟨[], by simp [execFor], rfl⟩
    | succ n =>
      rw [List.flatten_cons] at hrows
      obtain ⟨rs, hrs, hops⟩ := records_op (P := P) (T := T) hk (c := job.chunk config c seq) hkeys
        (fun row h => hrows row (List.mem_append_left _ h)) 0
      obtain ⟨rs', hrun, hops'⟩ := ih (fun row h => hrows row (List.mem_append_right _ h)) n (seq + 1)
        ((resolved_transport cl).trans hT) (appendTo fs ⟨job.file config.datasetName, rs⟩).1
      refine ⟨rs ++ rs', ?_, by
        rw [List.map_append, hops, hops', List.take_succ_cons, List.flatten_cons, List.map_append]; rfl⟩
      unfold LoadJob.sendEach
      rw [sendChunk_file hT active hrs, call_bind, execFor]
      refine hrun.trans ?_
      simp only [appendTo]
      rw [appendTo_append]

/-! ## Runs of a job -/

/-- A job of a keyed table that the destination takes. -/
structure KeyedJob (P : Runtime) (keys : List String) (job : LoadJob) : Prop where
  fields : keyFields job.table = keys
  taken : ∃ warning, checkDisposition job.table = .ok warning
  rows : ∀ row ∈ job.fileRows P, Keyed keys (hardDeleteFields job.table) row

/-- A run is the sending of its chunks. -/
theorem run_eq (h : ∃ warning, checkDisposition job.table = .ok warning) {rows : List Row}
    (hrows : job.rows P = .ok rows) (active : Option String) {Q A : Type} (cl : JobClient Q A) :
    job.run P active cl = job.sendEach active cl.config (LoadJob.chunks P cl.config rows) 0 cl := by
  obtain ⟨w, hw⟩ := h
  unfold LoadJob.run
  simp only [hw, hrows]
  exact LoadJob.sendLoop_eq P job active cl.config rows [] 0 0 cl

variable {rows : List Row}

/-- **A complete run** succeeds, and appends records that say what its rows say. -/
theorem run_files (hk : KeysOk keys) (hj : KeyedJob P keys job) (hrows : job.rows P = .ok rows)
    (hkeyed : ∀ row ∈ rows, Keyed keys (hardDeleteFields job.table) row) (datasetName : String) (a : Attempt) (fs : Files) :
    ∃ rs cl', (job.run P a.active (a.client datasetName)).exec appendTo fs =
        (update fs (job.file datasetName) (fs (job.file datasetName) ++ rs), (.ok (), cl')) ∧
      rs.map (bodyOp P keys) = rows.map (walkOp P keys (dataColumns (hardDeleteFields job.table))) := by
  rw [run_eq hj.taken hrows]
  have hflat := LoadJob.chunks_flatten P (a.client datasetName).config rows
  have hT : (a.client datasetName).transport = a.files.transport := rfl
  have hrun := sendEach_files (P := P) (a.client datasetName).config a.active hk hj.fields
    (fun row hr => hkeyed row (hflat ▸ hr)) 0 hT fs
  rw [hflat] at hrun
  exact hrun

/-- **A failed run** has appended records that say what some of its rows say. -/
theorem run_filesFor (hk : KeysOk keys) (hj : KeyedJob P keys job) (hrows : job.rows P = .ok rows)
    (hkeyed : ∀ row ∈ rows, Keyed keys (hardDeleteFields job.table) row) (datasetName : String) (a : Attempt) (n : ℕ) (fs : Files) :
    ∃ rs, (job.run P a.active (a.client datasetName)).execFor appendTo n fs =
        update fs (job.file datasetName) (fs (job.file datasetName) ++ rs) ∧
      ∀ e ∈ rs.map (bodyOp P keys),
        e ∈ rows.map (walkOp P keys (dataColumns (hardDeleteFields job.table))) := by
  rw [run_eq hj.taken hrows]
  have hflat := LoadJob.chunks_flatten P (a.client datasetName).config rows
  have hT : (a.client datasetName).transport = a.files.transport := rfl
  obtain ⟨rs, h, hops⟩ := sendEach_filesFor (P := P) (a.client datasetName).config a.active hk hj.fields
    (fun row hr => hkeyed row (hflat ▸ hr)) n 0 hT fs
  refine ⟨rs, h, fun e he => ?_⟩
  rw [hops] at he
  obtain ⟨row, hrow, rfl⟩ := List.mem_map.1 he
  refine List.mem_map_of_mem ?_
  obtain ⟨c, hc, hr⟩ := List.mem_flatten.1 hrow
  rw [← hflat]
  exact List.mem_flatten.2 ⟨c, List.mem_of_mem_take hc, hr⟩

end

end Matterbeam
