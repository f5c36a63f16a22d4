import Matterbeam.Base.Prog
import Matterbeam.Model.Wire

/-!
# Transports

The `MatterbeamTransport` protocol and its two builtin implementations. A transport's
calls are request-response programs: `HttpTransport` asks the server, `FileTransport`
appends to files.
-/

namespace Matterbeam

open Prog

/-- The keyword arguments of `send_chunk`, but for the pid. -/
structure Chunk where
  recordtypeId : String
  datasetName : String
  tableName : String
  rows : List Row
  keys : List String
  hardDelete : List String
  loadId : String
  jobId : String
  seq : ℕ

/-- `MatterbeamTransport`, over any kind of question and answer. -/
structure Transport (Q A : Type) where
  register : (pipelineKey datasetName : String) → Prog Q A (Except PyError (Option String))
  getDltState : (pid : String) → Prog Q A (Except PyError Json)
  putDltState : (pid : String) → (doc : Row) → Prog Q A (Except PyError Unit)
  sendChunk : Chunk → (pid : Option String) → Prog Q A (Except PyError Json)
  completeLoad : (loadId : String) → (pid : Option String) → Prog Q A (Except PyError Unit)

/-! ## The file transport -/

/-- Lines appended to a file of the output directory, decoded. -/
structure Append where
  file : String
  lines : List Row

/-- `FileTransport`. `clock` is what `build_record` reads for each row of a chunk. -/
structure FileTransport where
  clock : Chunk → ℕ → String

namespace FileTransport

/-- `[build_record(row, ...) for row in rows]`, from row number `i` on. -/
def records (T : FileTransport) (c : Chunk) : List Row → ℕ → Except PyError (List Row)
  | [], _ => .ok []
  | row :: rows, i => do
    let r ← buildRecord row c.recordtypeId c.keys c.hardDelete c.loadId none (T.clock c i)
    let rs ← T.records c rows (i + 1)
    return r :: rs

/-- `send_chunk`: build every line, then append them all. -/
def sendChunk (T : FileTransport) (c : Chunk) : Prog Append Unit (Except PyError Json) :=
  match T.records c c.rows 0 with
  | .error e => ret (.error e)
  | .ok lines => do
    let key := c.recordtypeId ++ ".jsonl"
    let () ← ask (⟨key, lines⟩ : Append)
    return .ok (.str key)

/-- The protocol: registration and state are no-ops. -/
def transport (T : FileTransport) : Transport Append Unit where
  register _ _ := ret (.ok none)
  getDltState _ := ret (.ok .null)
  putDltState _ _ := ret (.ok ())
  sendChunk c _ := T.sendChunk c
  completeLoad _ _ := ret (.ok ())

end FileTransport

/-! ## The HTTP transport -/

/-- `_conflict_reason`: whatever goes wrong on the way, the reason is `None`. -/
def conflictReason (r : Response) : Json :=
  match r.json with
  | none => .null
  | some body =>
    match (do (← (← body.item "error").item "context").get "reason" : Except PyError Json) with
    | .ok reason => reason
    | .error _ => .null

/-- `response.json()`, where the response may be `None`. -/
def responseJson : Option Response → Except PyError Json
  | none => .error .attributeError
  | some r => match r.json with
    | none => .error .valueError
    | some body => .ok body

/-- `HttpTransport`. -/
structure HttpTransport where
  max409Retries : ℕ := 20

namespace HttpTransport

variable (P : Runtime)

/-- `f"{method} {path}"`. -/
def label (rq : Request) : String := rq.method ++ " " ++ rq.path

/-- What `_request` makes of a response that is not a lock contention. -/
def settle (rq : Request) (r : Response) : Except PyError (Option Response) :=
  if r.status = 409 then
    .error (.conflict (conflictReason r)
      (label rq ++ " -> 409 (" ++ P.str (conflictReason r) ++ "): " ++ r.text))
  else if r.status = 404 then .ok none
  else if r.status ≥ 500 then
    .error (.destinationTransient (label rq ++ " -> " ++ r.status.repr ++ ": " ++ r.text))
  else if r.status ≥ 400 then
    .error (.destinationTerminal (label rq ++ " -> " ++ r.status.repr ++ ": " ++ r.text))
  else .ok (some r)

/-- The response is a lock contention, which `_request` retries. -/
def isContention (r : Response) : Bool :=
  r.status = 409 && conflictReason r = .str "lock_contention"

/-- The loop of `_request`, with `n` attempts left. -/
def requestLoop (T : HttpTransport) (rq : Request) : ℕ → Prog Request Answer (Except PyError (Option Response))
  | 0 => ret (.error (.destinationTerminal
      (label rq ++ ": gave up after " ++ T.max409Retries.repr ++ "x lock_contention")))
  | n + 1 => call rq fun
    | .broken => ret (.error .connectionError)
    | .reply r => if isContention r then T.requestLoop rq n else ret (settle P rq r)

/-- `_request`. -/
def request (T : HttpTransport) (rq : Request) : Prog Request Answer (Except PyError (Option Response)) :=
  T.requestLoop P rq T.max409Retries

/-- The terminal failure `_terminal_on_conflict` makes of a conflict. -/
def terminal : Except PyError (Option Response) → Except PyError (Option Response)
  | .error (.conflict _ detail) => .error (.destinationTerminal detail)
  | r => r

/-- `_terminal_on_conflict`. -/
def terminalOnConflict (T : HttpTransport) (rq : Request) :
    Prog Request Answer (Except PyError (Option Response)) := do
  let r ← T.request P rq
  return terminal r

/-- The pid in a JSON response, as the code will print it. -/
def pidOf : Json → Option String
  | .null => none
  | .str s => some s
  | v => some (P.str v)

/-- `register`. -/
def register (T : HttpTransport) (pipelineKey datasetName : String) :
    Prog Request Answer (Except PyError (Option String)) := do
  let r ← T.terminalOnConflict P (.register pipelineKey datasetName)
  return do
    let response ← r
    let body ← responseJson response
    let id ← body.item "id"
    return pidOf P id

/-- `get_dlt_state`. -/
def getDltState (T : HttpTransport) (pid : String) : Prog Request Answer (Except PyError Json) := do
  let r ← T.terminalOnConflict P (.getState pid)
  return do
    match ← r with
    | none => return .null
    | some response => (← responseJson (some response)).item "data"

/-- What `put_dlt_state` makes of the end of its request: a stale write is let go. -/
def putResult : Except PyError (Option Response) → Except PyError Unit
  | .ok _ => .ok ()
  | .error (.conflict reason detail) =>
    if reason ≠ .str "stale_state_version" then .error (.destinationTerminal detail) else .ok ()
  | .error e => .error e

/-- `put_dlt_state`. -/
def putDltState (T : HttpTransport) (pid : String) (doc : Row) :
    Prog Request Answer (Except PyError Unit) := do
  let r ← T.request P (.putState pid doc)
  return putResult r

/-- How an optional pid prints in a path. -/
def pidText (pid : Option String) : String := pid.getD "None"

/-- The request a chunk is sent in, once its lines are built. -/
def ingestRequest (c : Chunk) (pid : Option String) (lines : List Envelope) : IngestRequest where
  pid := pidText pid
  table := c.tableName
  loadId := c.loadId
  jobId := c.jobId
  seq := c.seq.repr
  lines := lines

/-- `send_chunk`. -/
def sendChunk (T : HttpTransport) (c : Chunk) (pid : Option String) :
    Prog Request Answer (Except PyError Json) :=
  match buildWireRecords c.keys c.hardDelete c.rows with
  | .error e => ret (.error e)
  | .ok lines => do
    let r ← T.terminalOnConflict P (.ingest (ingestRequest c pid lines))
    return do
      let response ← r
      let body ← responseJson response
      let data ← body.item "data"
      data.get "segment_key"

/-- `complete_load`. -/
def completeLoad (T : HttpTransport) (loadId : String) (pid : Option String) :
    Prog Request Answer (Except PyError Unit) := do
  let r ← T.terminalOnConflict P (.completeLoad (pidText pid) loadId)
  return r.map fun _ => ()

/-- The protocol. -/
def transport (T : HttpTransport) : Transport Request Answer where
  register := T.register P
  getDltState := T.getDltState P
  putDltState := T.putDltState P
  sendChunk := T.sendChunk P
  completeLoad := T.completeLoad P

end HttpTransport

end Matterbeam
