import Matterbeam.Model.Server

/-!
# Requests in flight

The server handles every request in a thread of its own. A thread is a request with
a program counter, and one tick of it is one step of the handler: for an ingest the
ledger check, the claim, the closed-load check, the allocations, the dedup filter,
the clamp, the segment write, the `_dlt_id` mark, the ledger write, the reply and the
release; for a state write the claim, the version check, the write and the release.
Every other request is one step. `Sys` is the server with its threads, and `Sys.step`
lets any thread make any next step.
-/

namespace Matterbeam

/-- Where a test may ask an ingest to blow up. -/
inductive CrashPoint
  | afterCommitBeforeMark
  | afterMarkBeforeLedger
  | afterLedger
  deriving DecidableEq

/-- What a step may read from outside: the clock, twice, and the random draws. -/
structure Inputs where
  now : ℕ
  utc : String
  noise : ℕ
  draw : String := ""
  deriving DecidableEq

/-- A chunk under way: its writer id, the lines the filter kept, and the time stamped on
them. The source's `records` and `written_dlt_ids` are computed from the lines kept. -/
structure Batch where
  writerId : ℕ
  kept : List Envelope
  utc : String
  deriving DecidableEq

/-- `records`, for the recordtype and load of the chunk. -/
def Batch.records (b : Batch) (rq : IngestRequest) : List Row :=
  b.kept.map (Envelope.stamp rq.recordtypeId rq.loadId b.utc)

/-- `written_dlt_ids`. -/
def Batch.ids (b : Batch) : List Json.HashKey := b.kept.filterMap Envelope.key

/-- `result`. -/
def Batch.result (b : Batch) (seg : Option Segment) : IngestResult where
  recordCount := b.kept.length
  segmentKey := seg.map Segment.key
  writerId := b.writerId
  firstRecordId := seg.map fun s => s.firstId.repr
  lastRecordId := seg.map fun s => s.lastId.repr
  duplicate := false

/-! ## Threads -/

/-- Where an ingest is. `v` is the claimed version. -/
inductive IngestPc
  | check
  | claim
  | closed (v : ℕ)
  | prepare (v : ℕ)
  | filter (v writerId : ℕ)
  | begin (v : ℕ) (b : Batch)
  | commit (v : ℕ) (b : Batch) (beginMs : ℕ)
  | mark (v : ℕ) (b : Batch) (beginMs : ℕ) (seg : Option Segment)
  | record (v : ℕ) (b : Batch) (beginMs : ℕ) (seg : Option Segment)
  | reply (v : ℕ) (r : IngestResult)
  | release (v : ℕ) (out : Outcome)
  | done (out : Outcome)

/-- Where a state write is. -/
inductive PutPc
  | claim
  | check (v : ℕ)
  | write (v : ℕ)
  | release (v : ℕ) (out : Outcome)
  | done (out : Outcome)

/-- A request in flight, or one that has been answered. -/
inductive Thread
  | ingest (rq : IngestRequest) (crash : Option CrashPoint) (pc : IngestPc)
  | put (pid : String) (doc : Row) (pc : PutPc)
  | once (rq : Request) (answer : Option Answer)

/-- `_ChaosCrash(point)`. -/
def chaosCrash (point : String) : Outcome := .crashed ("_ChaosCrash('" ++ point ++ "')")

/-- One step of `ingest`. -/
def IngestPc.step (rq : IngestRequest) (crash : Option CrashPoint) (inp : Inputs) (srv : Server) :
    IngestPc → Server × IngestPc
  | check =>
    match srv.ledger rq.lkey with
    | some r => ({ srv with counters.duplicates := srv.counters.duplicates + 1 },
        done (.ingested { r with duplicate := true }))
    | none => (srv, claim)
  | claim =>
    match srv.claim rq.pid with
    | (srv', .ok v) => (srv', closed v)
    | (srv', .error out) => (srv', done out)
  | closed v =>
    if (rq.pid, rq.loadId) ∈ srv.closedLoads then (srv, release v (.terminal "load_closed"))
    else (srv, prepare v)
  | prepare v =>
    ((srv.allocWriterId rq.pid).trackJobArrival rq.pid rq.recordtypeId rq.jobId,
      filter v (srv.nextWriterId rq.pid))
  | filter v writerId =>
    match dedupLoop (srv.dltIdsSeen (rq.pid, rq.loadId)) rq.lines with
    | (hits, some kept) => (srv.countDedup hits, begin v ⟨writerId, kept, inp.utc⟩)
    | (hits, none) => (srv.countDedup hits, release v (.crashed "TypeError('unhashable type')"))
  | begin v b => (srv, commit v b (srv.beginMs rq.pid rq.recordtypeId inp.now))
  | commit v b beginMs =>
    if b.kept = [] then (srv, mark v b beginMs none)
    else
      let seg := writeSegment rq.recordtypeId (b.records rq) beginMs b.writerId inp.noise rq
      (srv.addSegment seg, mark v b beginMs (some seg))
  | mark v b beginMs seg =>
    if crash = some .afterCommitBeforeMark then
      (srv, release v (chaosCrash "after_commit_before_mark"))
    else (srv.markSeen rq.pid rq.loadId b.ids, record v b beginMs seg)
  | record v b beginMs seg =>
    if crash = some .afterMarkBeforeLedger then
      (srv, release v (chaosCrash "after_mark_before_ledger"))
    else
      ((srv.advance rq.pid rq.recordtypeId beginMs seg).addLedger rq.lkey (b.result seg),
        reply v (b.result seg))
  | reply v r =>
    if crash = some .afterLedger then (srv, release v (chaosCrash "after_ledger"))
    else (srv, release v (.ingested r))
  | release v out => (srv.release rq.pid v, done out)
  | done out => (srv, done out)

/-- One step of `put_dlt_state`. -/
def PutPc.step (pid : String) (doc : Row) (srv : Server) : PutPc → Server × PutPc
  | claim =>
    match srv.claim pid with
    | (srv', .ok v) => (srv', check v)
    | (srv', .error out) => (srv', done out)
  | check v =>
    match Server.staleVersion (srv.processState pid).dltState doc with
    | .ok true => (srv, release v (.terminal "stale_state_version"))
    | .ok false => (srv, write v)
    | .error _ => (srv, release v (.crashed ""))
  | write v => (srv.setDltState pid doc, release v .accepted)
  | release v out => (srv.release pid v, done out)
  | done out => (srv, done out)

/-! ## Answers -/

section Answers

variable (P : Runtime)

/-- `_reply`. -/
def jsonReply (status : ℕ) (body : Json) : Answer := .reply ⟨status, some body, P.dumps body⟩

/-- The JSON of an optional string. -/
def optStr : Option String → Json
  | some s => .str s
  | none => .null

def IngestResult.toJson (r : IngestResult) : Json := .obj
  [("record_count", .int r.recordCount), ("segment_key", optStr r.segmentKey),
    ("writer_id", .int r.writerId), ("first_record_id", optStr r.firstRecordId),
    ("last_record_id", optStr r.lastRecordId), ("duplicate", .bool r.duplicate)]

/-- `_error(409, reason)`. -/
def conflictReply (reason : String) : Answer := jsonReply P 409 (.obj [("error", .obj
  [("type", .str "error"), ("message", .str reason), ("code", .str "CONFLICT"),
    ("context", .obj [("reason", .str reason)])])])

def notFoundReply (message : String) : Answer := jsonReply P 404 (.obj [("error", .obj
  [("type", .str "not_found_error"), ("message", .str message), ("code", .str "RESOURCE_NOT_FOUND")])])

/-- `Handler.do_POST` on the outcome of an ingest. -/
def postAnswer : Outcome → Answer
  | .ingested r => jsonReply P 200 (.obj [("data", r.toJson)])
  | .accepted => jsonReply P 200 (.obj [("status", .str "ok")])
  | .contention => conflictReply P "lock_contention"
  | .terminal reason => conflictReply P reason
  | .crashed repr => jsonReply P 500 (.obj [("error", .obj
      [("type", .str "internal_server_error"), ("message", .str repr),
        ("code", .str "INTERNAL_SERVER_ERROR")])])

/-- `Handler.do_PUT` on the outcome of a state write: an exception other than the two
conflicts is not caught, and the connection breaks. -/
def putAnswer : Outcome → Answer
  | .crashed _ => .broken
  | out => postAnswer P out

/-- The requests that are one step: registration, reading the state, closing a load.
`none` when the draw cannot serve as a new pid. -/
def onceStep (inp : Inputs) (srv : Server) : Request → Server × Option Answer
  | .register name datasetName =>
    match srv.register name datasetName "external_dlt" inp.draw with
    | some (srv', pid, created) => (srv', some (jsonReply P 200 (.obj [("id", .str pid),
        ("type", .str "external_dlt"), ("name", .str name), ("created", .bool created)])))
    | none => (srv, none)
  | .getState pid =>
    match (srv.processState pid).dltState with
    | some doc => (srv, some (jsonReply P 200 (.obj [("data", doc.toJson)])))
    | none => (srv, some (notFoundReply P "no state"))
  | .completeLoad pid loadId =>
    (srv.completeLoad pid loadId, some (jsonReply P 200 (.obj [("status", .str "ok")])))
  | _ => (srv, none)

namespace Thread

/-- The thread of a request that has just arrived. -/
def start (crash : Option CrashPoint) : Request → Thread
  | .ingest rq => ingest rq crash .check
  | .putState pid doc => put pid doc .claim
  | rq => once rq none

def request : Thread → Request
  | ingest rq _ _ => .ingest rq
  | put pid doc _ => .putState pid doc
  | once rq _ => rq

/-- How an ingest or a state write ended. -/
def outcome : Thread → Option Outcome
  | ingest _ _ (.done out) => some out
  | put _ _ (.done out) => some out
  | _ => none

/-- What the request was answered, once it was. -/
def answer : Thread → Option Answer
  | ingest _ _ (.done out) => some (postAnswer P out)
  | put _ _ (.done out) => some (putAnswer P out)
  | once _ answer => answer
  | _ => none

/-- One step of a thread. -/
def step (inp : Inputs) (srv : Server) : Thread → Server × Thread
  | ingest rq crash pc => ((pc.step rq crash inp srv).1, ingest rq crash (pc.step rq crash inp srv).2)
  | put pid doc pc => ((pc.step pid doc srv).1, put pid doc (pc.step pid doc srv).2)
  | once rq none => ((onceStep P inp srv rq).1, once rq (onceStep P inp srv rq).2)
  | once rq (some answer) => (srv, once rq (some answer))

@[simp] theorem start_request (crash : Option CrashPoint) (rq : Request) :
    (start crash rq).request = rq := by
  cases rq <;> rfl

@[simp] theorem step_request (inp : Inputs) (srv : Server) (th : Thread) :
    (th.step P inp srv).2.request = th.request := by
  cases th with
  | ingest => rfl
  | put => rfl
  | once rq answer => cases answer <;> rfl

/-- An answered thread does nothing more. -/
theorem step_of_answer {inp : Inputs} {srv : Server} {th : Thread} {a : Answer}
    (h : th.answer P = some a) : th.step P inp srv = (srv, th) := by
  cases th with
  | ingest rq crash pc => cases pc <;> first | rfl | cases h
  | put pid doc pc => cases pc <;> first | rfl | cases h
  | once rq answer => cases h; rfl

end Thread

/-! ## The system -/

/-- The server and all the requests it was ever sent, in order of arrival. -/
structure Sys where
  srv : Server := {}
  threads : List Thread := []

/-- What can happen to the server. -/
inductive SysEvent
  /-- A request arrives. -/
  | spawn (rq : Request) (crash : Option CrashPoint)
  /-- A thread makes its next step. -/
  | tick (t : ℕ) (inp : Inputs)
  /-- The pid is paused. -/
  | pause (pid : String)
  deriving DecidableEq

namespace Sys

/-- The system after an event. -/
def step (s : Sys) : SysEvent → Sys
  | .spawn rq crash => { s with threads := s.threads ++ [Thread.start crash rq] }
  | .tick t inp =>
    match s.threads[t]? with
    | some th => ⟨(th.step P inp s.srv).1, s.threads.set t (th.step P inp s.srv).2⟩
    | none => s
  | .pause pid => { s with srv := s.srv.pause pid }

/-- The system after a list of events. -/
def run (es : List SysEvent) (s : Sys) : Sys := es.foldl (step P) s

end Sys

/-- The system after the first `n` events, from an empty server. -/
def sAt (es : List SysEvent) (n : ℕ) : Sys := Sys.run P (es.take n) {}

end Answers

end Matterbeam
