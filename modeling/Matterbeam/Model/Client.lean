import Matterbeam.Model.Transport

/-!
# The job client and the load jobs

`MatterbeamJobClient` (identity, chunks, state) and the two job classes that run on
it, over any transport. `LoadJob.chunks` is the list of chunks the streaming loop of
`LoadJob.run` cuts the rows into; `sendLoop_eq` says the loop sends just these.
-/

namespace Matterbeam

open Prog

/-- The settings of a client. -/
structure Config where
  datasetName : String
  chunkRecords : ℤ := 50000
  chunkBytes : ℤ := 4 * 1024 * 1024

/-- `MatterbeamJobClient`. -/
structure JobClient (Q A : Type) where
  transport : Transport Q A
  config : Config
  schemaName : String
  pid : Option String := none
  pidResolved : Bool := false

/-- dlt's `StateInfo`. -/
structure StateInfo where
  version : Json
  engineVersion : Json
  pipelineName : Json
  state : Json
  createdAt : Json
  versionHash : Json
  dltLoadId : Json
  deriving DecidableEq

variable {Q A : Type}

namespace JobClient

/-! ## Identity -/

/-- `_ensure_pid`. -/
def ensurePid (cl : JobClient Q A) (pipelineKey : String) :
    Prog Q A (Except PyError (Option String) × JobClient Q A) :=
  if cl.pidResolved then ret (.ok cl.pid, cl)
  else do
    match ← cl.transport.register pipelineKey cl.config.datasetName with
    | .error e => return (.error e, cl)
    | .ok pid => return (.ok pid, { cl with pid := pid, pidResolved := true })

/-- `self._active_pipeline_name() or f"schema:{self.schema.name}"`. -/
def fallbackKey (cl : JobClient Q A) (active : Option String) : String :=
  match active with
  | some name => if name ≠ "" then name else "schema:" ++ cl.schemaName
  | none => "schema:" ++ cl.schemaName

/-- `_ensure_pid_fallback`. `active` is the name of the active pipeline. -/
def ensurePidFallback (cl : JobClient Q A) (active : Option String) :
    Prog Q A (Except PyError (Option String) × JobClient Q A) :=
  if cl.pidResolved then ret (.ok cl.pid, cl)
  else cl.ensurePid (cl.fallbackKey active)

/-! ## Transport calls -/

/-- `send_chunk`. -/
def sendChunk (cl : JobClient Q A) (active : Option String) (c : Chunk) :
    Prog Q A (Except PyError Json × JobClient Q A) := do
  match ← cl.ensurePidFallback active with
  | (.error e, cl) => return (.error e, cl)
  | (.ok _, cl) => do
    let r ← cl.transport.sendChunk c cl.pid
    return (r, cl)

/-- The document `put_dlt_state` sends for a row: `_dlt_load_id` becomes `dlt_load_id`. -/
def stateDoc (row : Row) : Row :=
  match row.get? "_dlt_load_id" with
  | some v => (row.erase "_dlt_load_id").set "dlt_load_id" v
  | none => row

/-- `put_dlt_state`. -/
def putDltState (cl : JobClient Q A) (active : Option String) (row : Row) :
    Prog Q A (Except PyError Unit × JobClient Q A) := do
  match ← cl.ensurePidFallback active with
  | (.error e, cl) => return (.error e, cl)
  | (.ok _, cl) =>
    match cl.pid with
    | none => return (.ok (), cl)
    | some pid => do
      let r ← cl.transport.putDltState pid (stateDoc row)
      return (r, cl)

/-- `complete_load`. -/
def completeLoad (cl : JobClient Q A) (active : Option String) (loadId : String) :
    Prog Q A (Except PyError Unit × JobClient Q A) := do
  match ← cl.ensurePidFallback active with
  | (.error e, cl) => return (.error e, cl)
  | (.ok _, cl) => do
    let r ← cl.transport.completeLoad loadId cl.pid
    return (r, cl)

/-- The `StateInfo` of a stored document. -/
def stateInfo (doc : Json) : Except PyError StateInfo := do
  return {
    version := ← doc.item "version"
    engineVersion := ← doc.item "engine_version"
    pipelineName := ← doc.item "pipeline_name"
    state := ← doc.item "state"
    createdAt := ← doc.item "created_at"
    versionHash := ← doc.get "version_hash"
    dltLoadId := ← doc.get "dlt_load_id" }

/-- What `get_stored_state` makes of the document it was given, which may be `None`. -/
def readState (doc : Json) : Except PyError (Option StateInfo) :=
  if doc = .null then .ok none else (stateInfo doc).map some

/-- `get_stored_state`. -/
def getStoredState (cl : JobClient Q A) (pipelineName : String) :
    Prog Q A (Except PyError (Option StateInfo) × JobClient Q A) := do
  match ← cl.ensurePid pipelineName with
  | (.error e, cl) => return (.error e, cl)
  | (.ok _, cl) =>
    match cl.pid with
    | none => return (.ok none, cl)
    | some pid => do
      let r ← cl.transport.getDltState pid
      return (r.bind readState, cl)

end JobClient

/-! ## Load jobs -/

/-- `MatterbeamLoadJob`: a table, its load file, and the ids dlt gave the job. -/
structure LoadJob where
  table : Table
  lines : List Line
  loadId : String
  jobId : String

namespace LoadJob

variable (P : Runtime)

/-- The columns rows are projected to. -/
def columns (job : LoadJob) : List String := job.table.columns.keys ++ ["_dlt_id", "_dlt_load_id"]

/-- The rows of the file as they stream out of it. -/
def fileRows (job : LoadJob) : List Row := iterStrippedRows P.customPuaRemove job.lines job.columns

/-- The rows in the order they are sent. -/
def rows (job : LoadJob) : Except PyError (List Row) := sortRows (job.fileRows P) (dedupSort job.table)

/-- The arguments of one `send_chunk`. -/
def chunk (job : LoadJob) (config : Config) (rows : List Row) (seq : ℕ) : Chunk where
  recordtypeId := config.datasetName ++ "." ++ job.table.name
  datasetName := config.datasetName
  tableName := job.table.name
  rows := rows
  keys := keyFields job.table
  hardDelete := hardDeleteFields job.table
  loadId := job.loadId
  jobId := job.jobId
  seq := seq

/-- The pending rows are a full chunk. -/
def full (config : Config) (pending : List Row) (pendingBytes : ℕ) : Prop :=
  (pending.length : ℤ) ≥ config.chunkRecords ∨ (pendingBytes : ℤ) ≥ config.chunkBytes

instance (config : Config) (pending : List Row) (pendingBytes : ℕ) :
    Decidable (full config pending pendingBytes) := by
  unfold full; infer_instance

/-- `len(json.dumps(row))`. -/
def rowSize (row : Row) : ℕ := (P.dumps row.toJson).length

/-- The streaming loop of `run`. -/
def sendLoop (job : LoadJob) (active : Option String) (config : Config) :
    List Row → List Row → ℕ → ℕ → JobClient Q A → Prog Q A (Except PyError Unit × JobClient Q A)
  | [], pending, _, seq, cl =>
    if pending ≠ [] ∨ seq = 0 then do
      let (r, cl) ← cl.sendChunk active (job.chunk config pending seq)
      return (r.map fun _ => (), cl)
    else ret (.ok (), cl)
  | row :: rows, pending, pendingBytes, seq, cl =>
    if full config (pending ++ [row]) (pendingBytes + rowSize P row) then do
      match ← cl.sendChunk active (job.chunk config (pending ++ [row]) seq) with
      | (.error e, cl) => return (.error e, cl)
      | (.ok _, cl) => job.sendLoop active config rows [] 0 (seq + 1) cl
    else job.sendLoop active config rows (pending ++ [row]) (pendingBytes + rowSize P row) seq cl

/-- `run`. -/
def run (job : LoadJob) (active : Option String) (cl : JobClient Q A) :
    Prog Q A (Except PyError Unit × JobClient Q A) :=
  match checkDisposition job.table with
  | .error e => ret (.error e, cl)
  | .ok _ =>
    match job.rows P with
    | .error e => ret (.error e, cl)
    | .ok rows => job.sendLoop P active cl.config rows [] 0 0 cl

/-! ### The chunks of a job -/

/-- The chunks the loop cuts the rest of the rows into. -/
def chunksFrom (config : Config) : List Row → List Row → ℕ → ℕ → List (List Row)
  | [], pending, _, seq => if pending ≠ [] ∨ seq = 0 then [pending] else []
  | row :: rows, pending, pendingBytes, seq =>
    if full config (pending ++ [row]) (pendingBytes + rowSize P row) then
      (pending ++ [row]) :: chunksFrom config rows [] 0 (seq + 1)
    else chunksFrom config rows (pending ++ [row]) (pendingBytes + rowSize P row) seq

/-- The chunks of a list of rows. -/
def chunks (config : Config) (rows : List Row) : List (List Row) := chunksFrom P config rows [] 0 0

/-- Send chunks one after another, from number `seq` on, until one of them raises. -/
def sendEach (job : LoadJob) (active : Option String) (config : Config) :
    List (List Row) → ℕ → JobClient Q A → Prog Q A (Except PyError Unit × JobClient Q A)
  | [], _, cl => ret (.ok (), cl)
  | c :: cs, seq, cl => do
    match ← cl.sendChunk active (job.chunk config c seq) with
    | (.error e, cl) => return (.error e, cl)
    | (.ok _, cl) => job.sendEach active config cs (seq + 1) cl

theorem chunksFrom_flatten (config : Config) (rows pending : List Row) (pendingBytes seq : ℕ) :
    (chunksFrom P config rows pending pendingBytes seq).flatten = pending ++ rows := by
  induction rows generalizing pending pendingBytes seq with
  | nil =>
    unfold chunksFrom
    split
    · simp
    · rename_i h
      have : pending = [] := by by_contra hp; exact h (Or.inl hp)
      simp [this]
  | cons row rows ih =>
    unfold chunksFrom
    split
    · rw [List.flatten_cons, ih]; simp
    · rw [ih]; simp

/-- **The chunks are the rows, cut up.** -/
theorem chunks_flatten (config : Config) (rows : List Row) :
    (chunks P config rows).flatten = rows := by
  rw [chunks, chunksFrom_flatten, List.nil_append]

/-- **The loop sends its chunks, one after another.** -/
theorem sendLoop_eq (job : LoadJob) (active : Option String) (config : Config) (rows pending : List Row)
    (pendingBytes seq : ℕ) (cl : JobClient Q A) :
    job.sendLoop P active config rows pending pendingBytes seq cl =
      job.sendEach active config (chunksFrom P config rows pending pendingBytes seq) seq cl := by
  induction rows generalizing pending pendingBytes seq cl with
  | nil =>
    unfold sendLoop chunksFrom
    split
    · simp only [sendEach]
      congr 1
      funext x
      obtain ⟨r, cl⟩ := x
      cases r <;> rfl
    · rfl
  | cons row rows ih =>
    unfold sendLoop chunksFrom
    split
    · simp only [sendEach, ih]
    · exact ih _ _ _ _

end LoadJob

/-! ## The state job -/

/-- The row `MatterbeamStateJob` ends up with: for each line that is not blank its only
record, or the first of its array. -/
def stateRow (rm : String → String) : List Line → Option Row → Except PyError (Option Row)
  | [], row => .ok row
  | .blank :: lines, row => stateRow rm lines row
  | .bare rec :: lines, _ => stateRow rm lines (some (stripRow rm rec))
  | .array [] :: _, _ => .error .indexError
  | .array (rec :: _) :: lines, _ => stateRow rm lines (some (stripRow rm rec))

/-- `MatterbeamStateJob.run`. -/
def stateJobRun (P : Runtime) (lines : List Line) (active : Option String) (cl : JobClient Q A) :
    Prog Q A (Except PyError Unit × JobClient Q A) :=
  match stateRow P.customPuaRemove lines none with
  | .error e => ret (.error e, cl)
  | .ok none => ret (.ok (), cl)
  | .ok (some row) => cl.putDltState active row

/-! ## Calls -/

/-- What dlt calls on a client, or runs on it. -/
inductive Call
  | loadJob (job : LoadJob)
  | stateJob (lines : List Line)
  | putDltState (row : Row)
  | getStoredState (pipelineName : String)
  | sendChunk (c : Chunk)
  | completeLoad (loadId : String)

/-- What a call returns. -/
inductive Val
  | unit
  | key (k : Json)
  | state (info : Option StateInfo)
  deriving DecidableEq

/-- The program of a call on a client. -/
def Call.prog (P : Runtime) (active : Option String) (cl : JobClient Q A) :
    Call → Prog Q A (Except PyError Val × JobClient Q A)
  | loadJob job => do let (r, cl) ← job.run P active cl; return (r.map fun _ => .unit, cl)
  | stateJob lines => do let (r, cl) ← stateJobRun P lines active cl; return (r.map fun _ => .unit, cl)
  | putDltState row => do let (r, cl) ← cl.putDltState active row; return (r.map fun _ => .unit, cl)
  | getStoredState name => do let (r, cl) ← cl.getStoredState name; return (r.map .state, cl)
  | sendChunk c => do let (r, cl) ← cl.sendChunk active c; return (r.map .key, cl)
  | completeLoad loadId => do let (r, cl) ← cl.completeLoad active loadId; return (r.map fun _ => .unit, cl)

end Matterbeam
