import Mathlib.Logic.Function.Basic
import Matterbeam.Model.Store

/-!
# The server's state and its operations

`FakeMatterbeamState`, at its default settings (entry lock, clamp and record dedup
on): the entry lock of each pid, registration, the pieces `ingest` is made of, the
dlt state and the closed loads. A missing entry of a Python dict that is only read
through `setdefault` or `get` is the default value here.
-/

namespace Matterbeam

open Function

/-! ## State -/

inductive FsmState
  | listening
  | running
  | paused
  deriving DecidableEq

/-- `self.pids[pid]`. -/
structure PidItem where
  updateVersion : ℕ
  invokeSemaphore : ℕ
  fsmState : FsmState
  collectorType : String
  execution : String
  runtime : String
  writerSeq : ℕ := 0
  deriving DecidableEq

/-- `process_state[pid]["recordtypes"][recordtype_id]`. -/
structure RtState where
  highWaterMs : ℕ := 0
  lastRecordId : Option String := none
  jobOrder : List String := []
  residualStaleResurrectionCount : ℕ := 0
  deriving DecidableEq

/-- `self.process_state[pid]`. -/
structure ProcessState where
  dltState : Option Row := none
  recordtypes : String → RtState := fun _ => {}

/-- `self.counters`. -/
structure Counters where
  lockContention : ℕ := 0
  duplicates : ℕ := 0
  inversions : ℕ := 0
  recordDedupHits : ℕ := 0
  residualStaleResurrection : ℕ := 0
  deriving DecidableEq

/-- The result of an ingested chunk. -/
structure IngestResult where
  recordCount : ℕ
  segmentKey : Option String
  writerId : ℕ
  firstRecordId : Option String
  lastRecordId : Option String
  duplicate : Bool
  deriving DecidableEq

/-- `FakeMatterbeamState`. `ledger` holds the ledger and its results, which are written
together; `segments` is the store under `coldlog_root`, in commit order. -/
structure Server where
  pids : String → Option PidItem := fun _ => none
  registry : String → Option String := fun _ => none
  processState : String → ProcessState := fun _ => {}
  ledger : String → Option IngestResult := fun _ => none
  dltIdsSeen : String × String → List Json.HashKey := fun _ => []
  closedLoads : List (String × String) := []
  counters : Counters := {}
  visibility : String → List String := fun _ => []
  segments : List Segment := []

/-- How a request ends inside the server. -/
inductive Outcome
  | ingested (r : IngestResult)
  | accepted
  | contention
  | terminal (reason : String)
  | crashed (repr : String)
  deriving DecidableEq

namespace Server

/-! ## The entry lock -/

/-- Replace the item of a pid. -/
def setPid (srv : Server) (pid : String) (item : PidItem) : Server :=
  { srv with pids := update srv.pids pid (some item) }

/-- `claim`: take the entry lock of a pid, or say why not. -/
def claim (srv : Server) (pid : String) : Server × Except Outcome ℕ :=
  match srv.pids pid with
  | none => (srv, .error (.crashed ("KeyError('" ++ pid ++ "')")))
  | some item =>
    if item.fsmState = .paused then (srv, .error (.terminal "paused"))
    else if item.invokeSemaphore ≠ 1 then
      ({ srv with counters.lockContention := srv.counters.lockContention + 1 }, .error .contention)
    else
      (srv.setPid pid { item with
        updateVersion := item.updateVersion + 1
        invokeSemaphore := 0
        fsmState := .running }, .ok (item.updateVersion + 1))

/-- `release`: give the entry lock back, if the version is still the claimed one. -/
def release (srv : Server) (pid : String) (version : ℕ) : Server :=
  match srv.pids pid with
  | none => srv
  | some item =>
    if item.updateVersion = version then
      srv.setPid pid { item with
        updateVersion := item.updateVersion + 1
        invokeSemaphore := 1
        fsmState := .listening }
    else srv

/-- `pause`. -/
def pause (srv : Server) (pid : String) : Server :=
  match srv.pids pid with
  | none => srv
  | some item => srv.setPid pid { item with fsmState := .paused }

/-! ## Registration -/

/-- The key of a registration. -/
def registryKey (pipelineKey datasetName : String) : String := pipelineKey ++ "|" ++ datasetName

/-- The characters a pid is drawn from. -/
def pidAlphabet : List Char := "0123456789abcdefghijklmnopqrstuvwxyz".toList

/-- A draw of `random.choices` that can serve as a new pid: 27 characters of the
alphabet, not a pid already in use. -/
def freshDraw (srv : Server) (draw : String) : Bool :=
  draw.length = 27 && draw.toList.all (· ∈ pidAlphabet) && (srv.pids draw).isNone

/-- `register`: look up or create, adopting an external collector for a hosted one.
`none` when `draw` cannot be a new pid and one is needed. -/
def register (srv : Server) (pipelineKey datasetName collectorType draw : String) :
    Option (Server × String × Bool) :=
  match srv.registry (registryKey pipelineKey datasetName) with
  | some pid =>
    match srv.pids pid with
    | some item =>
      if collectorType = "hosted_dlt" ∧ item.collectorType = "external_dlt" then
        some (srv.setPid pid { item with
          collectorType := "hosted_dlt"
          execution := "hosted"
          runtime := "ECS" }, pid, false)
      else some (srv, pid, false)
    | none => some (srv, pid, false)
  | none =>
    if srv.freshDraw draw then
      some ({ srv with
        registry := update srv.registry (registryKey pipelineKey datasetName) (some draw)
        pids := update srv.pids draw (some {
          updateVersion := 1
          invokeSemaphore := 1
          fsmState := .listening
          collectorType := collectorType
          execution := if collectorType = "hosted_dlt" then "hosted" else "external"
          runtime := if collectorType = "hosted_dlt" then "ECS" else "LAMBDA" }) }, draw, true)
    else none

/-! ## The pieces of `ingest` -/

/-- The state of a recordtype of a pid. -/
def rtState (srv : Server) (pid recordtypeId : String) : RtState :=
  (srv.processState pid).recordtypes recordtypeId

def setRtState (srv : Server) (pid recordtypeId : String) (rt : RtState) : Server :=
  { srv with
    processState := update srv.processState pid { srv.processState pid with
      recordtypes := update (srv.processState pid).recordtypes recordtypeId rt } }

/-- The next writer id of a pid. -/
def nextWriterId (srv : Server) (pid : String) : ℕ :=
  match srv.pids pid with
  | none => 0
  | some item => (item.writerSeq + 1) % 65536

/-- Per-request writer id allocation. -/
def allocWriterId (srv : Server) (pid : String) : Server :=
  match srv.pids pid with
  | none => srv
  | some item => srv.setPid pid { item with writerSeq := srv.nextWriterId pid }

/-- How many job ids are remembered for each recordtype. -/
def jobOrderWindow : ℕ := 16

/-- `_track_job_arrival`. -/
def trackJobArrival (srv : Server) (pid recordtypeId jobId : String) : Server :=
  let rt := srv.rtState pid recordtypeId
  if rt.jobOrder.getLast? = some jobId then srv
  else
    let order := rt.jobOrder ++ [jobId]
    let rt := { rt with jobOrder := order.drop (order.length - jobOrderWindow) }
    if jobId ∈ (srv.rtState pid recordtypeId).jobOrder then
      { srv.setRtState pid recordtypeId { rt with
          residualStaleResurrectionCount := rt.residualStaleResurrectionCount + 1 } with
        counters.residualStaleResurrection := srv.counters.residualStaleResurrection + 1 }
    else srv.setRtState pid recordtypeId rt

/-- Count records dropped as already seen. -/
def countDedup (srv : Server) (hits : ℕ) : Server :=
  { srv with counters.recordDedupHits := srv.counters.recordDedupHits + hits }

/-- The millisecond a segment begins at: the clock, clamped above the high-water mark. -/
def beginMs (srv : Server) (pid recordtypeId : String) (now : ℕ) : ℕ :=
  max now ((srv.rtState pid recordtypeId).highWaterMs + 1)

/-- Commit a segment, and note whether it sorts below one that is already visible. -/
def addSegment (srv : Server) (seg : Segment) : Server :=
  let vis := srv.visibility seg.recordtypeId
  { srv with
    segments := srv.segments ++ [seg]
    visibility := update srv.visibility seg.recordtypeId (vis ++ [seg.lastId.repr])
    counters.inversions :=
      srv.counters.inversions + if vis.any (fun x => seg.lastId.repr < x) then 1 else 0 }

/-- `seen.update(written_dlt_ids)`. -/
def markSeen (srv : Server) (pid loadId : String) (ids : List Json.HashKey) : Server :=
  { srv with dltIdsSeen := update srv.dltIdsSeen (pid, loadId) (ids ++ srv.dltIdsSeen (pid, loadId)) }

/-- The high-water mark and the last record id after a chunk. -/
def advance (srv : Server) (pid recordtypeId : String) (beginMs : ℕ) (seg : Option Segment) : Server :=
  let rt := srv.rtState pid recordtypeId
  srv.setRtState pid recordtypeId { rt with
    highWaterMs := max rt.highWaterMs beginMs
    lastRecordId := match seg with
      | some seg => some seg.lastId.repr
      | none => rt.lastRecordId }

/-- The ledger write. -/
def addLedger (srv : Server) (lkey : String) (r : IngestResult) : Server :=
  { srv with ledger := update srv.ledger lkey (some r) }

/-! ## dlt state and closed loads -/

/-- `previous and doc["version"] <= previous["version"]`. -/
def staleVersion (previous : Option Row) (doc : Row) : Except PyError Bool :=
  match previous with
  | none => .ok false
  | some previous =>
    if previous.entries = [] then .ok false
    else do
      let v ← doc.item "version"
      let p ← previous.item "version"
      match v.pyLe p with
      | some b => .ok b
      | none => .error .typeError

/-- `state["dlt_state"] = doc`. -/
def setDltState (srv : Server) (pid : String) (doc : Row) : Server :=
  { srv with
    processState := update srv.processState pid { srv.processState pid with dltState := some doc } }

/-- `complete_load`. -/
def completeLoad (srv : Server) (pid loadId : String) : Server :=
  { srv with closedLoads := (pid, loadId) :: srv.closedLoads }

end Server

/-! ## Reading and stamping the lines of a chunk -/

/-- `f"{pid}.{table}"`. -/
def IngestRequest.recordtypeId (rq : IngestRequest) : String := rq.pid ++ "." ++ rq.table

/-- The ledger key of a chunk. -/
def IngestRequest.lkey (rq : IngestRequest) : String :=
  rq.pid ++ "|" ++ rq.loadId ++ "|" ++ rq.jobId ++ "|" ++ rq.seq

namespace Envelope

/-- `env.get("i")`. -/
def dltId (e : Envelope) : Json := e.i.getD .null

/-- `bool(env.get("t"))`. -/
def isTombstone (e : Envelope) : Bool := (e.t.getD .null).truthy

/-- The id a line is deduplicated by: none when it carries no id. -/
def key (e : Envelope) : Option Json.HashKey := if e.dltId.truthy then e.dltId.hash? else none

/-- Asking whether the line's id was seen does not raise. -/
def hashable (e : Envelope) : Bool := !e.dltId.truthy || e.dltId.hash?.isSome

/-- The line is not dropped: it carries no id, or one that was not seen. -/
def fresh (seen : List Json.HashKey) (e : Envelope) : Bool :=
  match e.key with
  | some k => k ∉ seen
  | none => true

/-- The record of a line, with the metadata the server stamps on it. -/
def stamp (recordtypeId loadId utc : String) (e : Envelope) : Row :=
  e.v.set "mb.metadata" (.obj (
    [("version", .int 1), ("record_type_id", .str recordtypeId), ("collected_at_utc", .str utc)] ++
    (if e.isTombstone then [("is_tombstone", .bool true)] else []) ++
    (if e.dltId.truthy then [("source_record_id", e.dltId)] else []) ++
    (if loadId ≠ "" then [("source_load_id", .str loadId)] else [])))

end Envelope

/-- The loop over the parsed lines: how many were dropped as seen, and the lines kept;
`none` when one of the ids is unhashable, which raises. -/
def dedupLoop (seen : List Json.HashKey) : List Envelope → ℕ × Option (List Envelope)
  | [] => (0, some [])
  | e :: es =>
    if e.hashable then
      if e.fresh seen then ((dedupLoop seen es).1, (dedupLoop seen es).2.map (e :: ·))
      else ((dedupLoop seen es).1 + 1, (dedupLoop seen es).2)
    else (0, none)

theorem dedupLoop_eq (seen : List Json.HashKey) (lines : List Envelope) :
    (dedupLoop seen lines).2 =
      if lines.all Envelope.hashable then some (lines.filter (Envelope.fresh seen)) else none := by
  induction lines with
  | nil => rfl
  | cons e es ih =>
    by_cases hh : e.hashable = true
    · by_cases hf : e.fresh seen = true
      · by_cases ha : es.all Envelope.hashable = true <;> simp [dedupLoop, hh, hf, ih, ha]
      · by_cases ha : es.all Envelope.hashable = true <;> simp [dedupLoop, hh, hf, ih, ha]
    · simp [dedupLoop, hh]

end Matterbeam
