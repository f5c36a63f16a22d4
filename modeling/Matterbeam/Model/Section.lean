import Matterbeam.Base.Serial
import Matterbeam.Model.System

/-!
# Requests in one go

What the entry lock of a pid is there for: the data of the pid, and what a whole `ingest` or
`put_dlt_state` makes of it when nobody is in between. This layer states the purpose of the
lock; that the handlers keep to it, in their small steps, is shown in `Proof.Serial`.

An ingest is cut at the points at which its thread can stand, each of these functions being
what is left of it from there.
-/

namespace Matterbeam

open Function

/-! ## The data of a pid -/

/-- What the server keeps for one pid: all that the holder of the pid's lock may write. The
ledger is indexed by what follows the pid in a ledger key. -/
structure PidData where
  writerSeq : ℕ := 0
  state : ProcessState := {}
  seen : String → List Json.HashKey := fun _ => []
  segments : List Segment := []
  ledger : String → Option IngestResult := fun _ => none

/-- The data of a pid on the server. -/
def Server.dataOf (srv : Server) (pid : String) : PidData where
  writerSeq := ((srv.pids pid).map PidItem.writerSeq).getD 0
  state := srv.processState pid
  seen := fun loadId => srv.dltIdsSeen (pid, loadId)
  segments := srv.segments.filter fun s => s.request.pid = pid
  ledger := fun chunk => srv.ledger (pid ++ "|" ++ chunk)

/-- The ledger key of a chunk, after its pid. -/
def IngestRequest.chunk (rq : IngestRequest) : String := rq.loadId ++ "|" ++ rq.jobId ++ "|" ++ rq.seq

/-! ## The state of a recordtype -/

namespace RtState

/-- A job's chunk arrives: the last job ids are kept, without repeats in a row, and a job that
comes back is counted. -/
def arrive (rt : RtState) (jobId : String) : RtState :=
  if rt.jobOrder.getLast? = some jobId then rt
  else
    let order := rt.jobOrder ++ [jobId]
    { rt with
      jobOrder := order.drop (order.length - Server.jobOrderWindow)
      residualStaleResurrectionCount :=
        rt.residualStaleResurrectionCount + if jobId ∈ rt.jobOrder then 1 else 0 }

/-- A chunk has been committed. -/
def commit (rt : RtState) (beginMs : ℕ) (seg : Option Segment) : RtState :=
  { rt with
    highWaterMs := max rt.highWaterMs beginMs
    lastRecordId := match seg with
      | some seg => some seg.lastId.repr
      | none => rt.lastRecordId }

end RtState

namespace PidData

/-- Replace the state of a recordtype. -/
def setRt (d : PidData) (recordtypeId : String) (rt : RtState) : PidData :=
  { d with state := { d.state with recordtypes := update d.state.recordtypes recordtypeId rt } }

/-- A segment is committed. -/
def append (d : PidData) (seg : Segment) : PidData := { d with segments := d.segments ++ [seg] }

/-- Ids are marked as seen. -/
def see (d : PidData) (loadId : String) (ids : List Json.HashKey) : PidData :=
  { d with seen := update d.seen loadId (ids ++ d.seen loadId) }

/-- The writer id that the next chunk gets. -/
def nextWriter (d : PidData) : ℕ := (d.writerSeq + 1) % 65536

/-! ## An ingest -/

/-- What an ingest reads from outside while it holds the lock: whether the load is closed, the
clock, twice, and the noise. -/
structure Readings where
  closed : Bool
  utc : String
  now : ℕ
  noise : ℕ
  deriving DecidableEq

variable (rq : IngestRequest) (crash : Option CrashPoint)

/-- From the reply on. -/
def ingestReply (r : IngestResult) (d : PidData) : PidData × Outcome :=
  if crash = some .afterLedger then (d, chaosCrash "after_ledger") else (d, .ingested r)

/-- The chunk has been committed and is entered in the ledger. -/
def enter (b : Batch) (beginMs : ℕ) (seg : Option Segment) (d : PidData) : PidData :=
  let d := d.setRt rq.recordtypeId ((d.state.recordtypes rq.recordtypeId).commit beginMs seg)
  { d with ledger := update d.ledger rq.chunk (some (b.result seg)) }

/-- From the ledger write on. -/
def ingestRecord (b : Batch) (beginMs : ℕ) (seg : Option Segment) (d : PidData) : PidData × Outcome :=
  if crash = some .afterMarkBeforeLedger then (d, chaosCrash "after_mark_before_ledger")
  else ingestReply crash (b.result seg) (d.enter rq b beginMs seg)

/-- From the `_dlt_id` mark on. -/
def ingestMark (b : Batch) (beginMs : ℕ) (seg : Option Segment) (d : PidData) : PidData × Outcome :=
  if crash = some .afterCommitBeforeMark then (d, chaosCrash "after_commit_before_mark")
  else ingestRecord rq crash b beginMs seg (d.see rq.loadId b.ids)

/-- From the commit on. -/
def ingestCommit (b : Batch) (beginMs noise : ℕ) (d : PidData) : PidData × Outcome :=
  if b.kept = [] then ingestMark rq crash b beginMs none d
  else
    let seg := writeSegment rq.recordtypeId (b.records rq) beginMs b.writerId noise rq
    ingestMark rq crash b beginMs (some seg) (d.append seg)

/-- From the clamp on. -/
def ingestBegin (b : Batch) (now noise : ℕ) (d : PidData) : PidData × Outcome :=
  ingestCommit rq crash b (max now ((d.state.recordtypes rq.recordtypeId).highWaterMs + 1)) noise d

/-- From the dedup filter on. -/
def ingestFilter (writerId : ℕ) (utc : String) (now noise : ℕ) (d : PidData) : PidData × Outcome :=
  if rq.lines.all Envelope.hashable then
    ingestBegin rq crash ⟨writerId, rq.lines.filter (Envelope.fresh (d.seen rq.loadId)), utc⟩ now noise d
  else (d, .crashed "TypeError('unhashable type')")

/-- The chunk is let in: it gets a writer id, and its job is noted. -/
def prepared (d : PidData) : PidData :=
  { d with writerSeq := d.nextWriter }.setRt rq.recordtypeId ((d.state.recordtypes rq.recordtypeId).arrive rq.jobId)

/-- From the claim to the release of an ingest. -/
def ingest (r : Readings) (d : PidData) : PidData × Outcome :=
  if r.closed then (d, .terminal "load_closed")
  else ingestFilter rq crash d.nextWriter r.utc r.now r.noise (d.prepared rq)

/-! ## A state write -/

/-- From the claim to the release of a state write. -/
def putDltState (doc : Row) (d : PidData) : PidData × Outcome :=
  match Server.staleVersion d.state.dltState doc with
  | .ok true => (d, .terminal "stale_state_version")
  | .ok false => ({ d with state := { d.state with dltState := some doc } }, .accepted)
  | .error _ => (d, .crashed "")

end PidData

/-! ## Tenures -/

/-- A request that held the lock of its pid, with what it read meanwhile. -/
inductive Tenure
  | ingest (rq : IngestRequest) (crash : Option CrashPoint) (r : PidData.Readings)
  | put (pid : String) (doc : Row)

namespace Tenure

/-- What the request makes of the data of its pid, and how it ends. -/
def serve : Tenure → PidData → PidData × Outcome
  | ingest rq crash r, d => d.ingest rq crash r
  | put _ doc, d => d.putDltState doc

/-- The thread of the request, once it has ended. -/
def finished (out : Outcome) : Tenure → Thread
  | ingest rq crash _ => .ingest rq crash (.done out)
  | put pid doc => .put pid doc (.done out)

/-- The pid of the request. -/
def pid : Tenure → String
  | ingest rq _ _ => rq.pid
  | put pid _ => pid

end Tenure

end Matterbeam
