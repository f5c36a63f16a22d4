import Matterbeam.Model.Deploy
import Matterbeam.Model.Framing
import Matterbeam.Model.Routing
import Matterbeam.Model.System

/-!
# Messages

The requests of the clients as HTTP messages, and what `Handler` makes of a message before it calls
the server: the header it checks, the path it takes apart, the body it decodes. A message has the
headers that the code sets and reads, and a body of the length that is announced; the base URL is an
origin.
-/

namespace Matterbeam

open JsonText

/-- An HTTP request. -/
structure Message where
  method : String
  target : List Char
  headers : List (String × String)
  body : Octets

/-! ## What the code does not do itself -/

/-- A header value that arrives as it was set: printable, without blanks around it. -/
structure PlainHeader (s : String) : Prop where
  printable : ∀ c ∈ s.toList, 0x20 ≤ c.toNat ∧ c.toNat ≤ 0x7E
  head : s.toList.head? ≠ some ' '
  last : s.toList.getLast? ≠ some ' '

/-- The libraries on both sides of the wire. What they make of a header that is not plain is left
open. -/
structure HttpStack extends HttpLibrary where
  numbers : NumberText
  /-- The number that a token stands for. -/
  read : Number → Json
  read_int : ∀ n, read (numbers.int n) = .int n
  read_float : ∀ q, read (numbers.float q) = .float q
  /-- The value of a header, as it is read. -/
  header : String → String
  header_plain : ∀ s, PlainHeader s → header s = s
  /-- What `json=` sends. -/
  jsonBody : Value → Octets
  jsonBody_loads : ∀ v, v.WellFormed → loadsBytes (jsonBody v) = some v
  /-- zstd; a body that is no frame raises. -/
  compress : Octets → Octets
  decompress : Octets → Option Octets
  decompress_compress : ∀ body, decompress (compress body) = some body
  /-- The archive of a package, as a file. -/
  archive : Package → Octets

/-- A name of a header, of which the case does not matter. -/
def lowered (name : String) : List Char := name.toList.map Char.toLower

/-- `self.headers.get(name)`. -/
def HttpStack.headerOf (H : HttpStack) (m : Message) (name : String) : Option String :=
  (m.headers.find? fun h => lowered h.1 = lowered name).map fun h => H.header h.2

/-! ## The clients -/

/-- `_headers`, of both clients. -/
def clientHeaders (apiToken : Option String) (extra : List (String × String)) : List (String × String) :=
  ("Authorization", "Token " ++ apiToken.getD "None") :: extra

/-- The name of a crash point in a header. -/
def CrashPoint.text : CrashPoint → String
  | afterCommitBeforeMark => "after_commit_before_mark"
  | afterMarkBeforeLedger => "after_mark_before_ledger"
  | afterLedger => "after_ledger"

/-- The header a test asks for a crash with. -/
def chaosHeader (crash : Option CrashPoint) : List (String × String) :=
  crash.toList.map fun point => ("X-MB-Chaos-Crash-At", point.text)

/-- The body of a registration. -/
def registration (kind name datasetName : String) : Value := .obj
  [(ofString "type", .str (ofString kind)), (ofString "name", .str (ofString name)),
    (ofString "config", .obj [(ofString "dataset_name", .str (ofString datasetName))])]

section

variable (H : HttpStack) (apiToken : Option String)

/-- The headers and the body that `HttpTransport` gives to a request. -/
def Request.content (crash : Option CrashPoint) : Request → Except PyError (List (String × String) × Octets)
  | .register name datasetName => .ok ([], H.jsonBody (registration "external_dlt" name datasetName))
  | .getState _ | .completeLoad _ _ => .ok ([], [])
  | .putState _ doc => .ok ([], H.jsonBody (doc.toJson.toValue H.numbers))
  | .ingest rq => do
    let body ← wireBody (fun e : Envelope => .ok (e.toJson.toValue H.numbers)) H.compress rq.lines
    return ([("Content-Encoding", "zstd"), ("X-MB-Load-Id", rq.loadId), ("X-MB-Job-Id", rq.jobId), ("X-MB-Seq", rq.seq)] ++
      chaosHeader crash, body)

/-- The message of a request of `HttpTransport`; a test may have an ingest crash. -/
def Request.message (crash : Option CrashPoint) (rq : Request) : Except PyError Message := do
  let (extra, body) ← rq.content H crash
  return ⟨rq.method, H.target rq.path.toList, clientHeaders apiToken extra, body⟩

def DeployRequest.method : DeployRequest → String
  | .submitSecrets _ _ => "PATCH"
  | .upload _ _ => "PUT"
  | .buildStatus _ => "GET"
  | _ => "POST"

/-- The URL of an upload is the one its token was given out with. -/
def DeployRequest.path : DeployRequest → String
  | .register _ _ => "/collectors"
  | .submitSecrets pid _ => "/collectors/" ++ pid ++ "/secrets"
  | .uploadUrl pid _ => "/collectors/" ++ pid ++ "/deployment/upload-url"
  | .upload token _ => "/uploads/" ++ token
  | .build pid => "/collectors/" ++ pid ++ "/deployment/build"
  | .buildStatus pid => "/collectors/" ++ pid ++ "/deployment/status"

/-- A secret, as an entry of its object. -/
def secretEntry (secret : String × String) : Text × Value := (ofString secret.1, .str (ofString secret.2))

/-- The headers of `DeployClient`: none of its own for an upload. -/
def DeployRequest.headers : DeployRequest → List (String × String)
  | .upload _ _ => [("Content-Type", "application/gzip")]
  | _ => clientHeaders apiToken []

def DeployRequest.body : DeployRequest → Octets
  | .register name datasetName => H.jsonBody (registration "hosted_dlt" name datasetName)
  | .submitSecrets _ secrets => H.jsonBody (.obj [(ofString "secrets", .obj (secrets.entries.map secretEntry))])
  | .uploadUrl _ filename => H.jsonBody (.obj [(ofString "filename", .str (ofString filename))])
  | .upload _ package => H.archive package
  | .build _ | .buildStatus _ => []

/-- The message of a request of `DeployClient`. -/
def DeployRequest.message (rq : DeployRequest) : Message :=
  ⟨rq.method, H.target rq.path.toList, rq.headers apiToken, rq.body H⟩

end

/-! ## The handler -/

/-- What `Handler` does with a message: it is refused, with a status or by a broken connection, or a
method of the server is called. A path names its pid as it was sent. -/
inductive Heard
  | refused (status : Option ℕ)
  | register (name datasetName kind : Value)
  | submitSecrets (pid : List Char) (secrets : Value)
  | uploadUrl (pid : List Char) (filename : Value)
  | upload (token : List Char) (body : Octets)
  | build (pid : List Char)
  | buildStatus (pid : List Char)
  | getState (pid : List Char)
  | putState (pid : List Char) (doc : Value)
  | ingest (pid table : List Char) (loadId jobId seq chaos : Option String) (lines : List Octets)
  | completeLoad (pid loadId : List Char)

/-- `payload.get(k)`: nothing for a payload that is no dict. -/
def payloadGet (k : String) : Value → Option Value
  | .obj kvs => some ((kvs.lookup (ofString k)).getD .null)
  | _ => none

/-- `payload[k]`: nothing if that raises. -/
def payloadItem (k : String) : Value → Option Value
  | .obj kvs => kvs.lookup (ofString k)
  | _ => none

/-- `payload.get("type", "external_dlt")`. -/
def payloadType : Value → Option Value
  | .obj kvs => some ((kvs.lookup (ofString "type")).getD (.str (ofString "external_dlt")))
  | _ => none

/-- `self.path.strip("/").split("/")`. -/
def pathParts (target : List Char) : List (List Char) := (stripSlashes target).splitOn '/'

/-- The pid of a path `/collectors/{pid}/<last>`. -/
def collectorPid (last : String) : List (List Char) → Option (List Char)
  | [collectors, pid, last'] => if collectors = "collectors".toList ∧ last' = last.toList then some pid else none
  | _ => none

/-- The pid of a path `/collectors/{pid}/deployment/status`. -/
def statusPid : List (List Char) → Option (List Char)
  | [collectors, pid, deployment, status] =>
    if collectors = "collectors".toList ∧ deployment = "deployment".toList ∧ status = "status".toList then some pid else none
  | _ => none

/-- The token of a path `/uploads/{token}`. -/
def uploadToken : List (List Char) → Option (List Char)
  | [uploads, token] => if uploads = "uploads".toList then some token else none
  | _ => none

namespace Handler

variable (H : HttpStack)

/-- `TOKEN`. -/
def token : String := "fake-token"

/-- `_auth`. -/
def auth (m : Message) : Bool := H.headerOf m "Authorization" = some ("Token " ++ token)

/-- `_body`, if the body can be decompressed. -/
def body (m : Message) : Option Octets :=
  if H.headerOf m "Content-Encoding" = some "zstd" then H.decompress m.body else some m.body

/-- `json.loads(self._body())`. -/
def payload (m : Message) : Option Value := (body H m).bind loadsBytes

/-- `v or default`. -/
def orElse (default v : Value) : Value :=
  match v with
  | .null => default
  | .bool b => if b then v else default
  | .number n => if (H.read n).truthy then v else default
  | .str s => if s = [] then default else v
  | .arr xs => if xs.isEmpty then default else v
  | .obj kvs => if kvs.isEmpty then default else v

/-- `do_GET`. -/
def doGet (m : Message) : Heard :=
  if !auth H m then .refused (some 401)
  else match collectorPid "state" (pathParts m.target), statusPid (pathParts m.target) with
    | some pid, _ => .getState pid
    | none, some pid => .buildStatus pid
    | none, none => .refused (some 404)

/-- What a registration is called with. -/
def readRegistration (payload : Value) : Option Heard := do
  let pipelineKey ← payloadItem "name" payload
  let config ← payloadGet "config" payload
  let datasetName ← payloadGet "dataset_name" (orElse H (.obj []) config)
  let collectorType ← payloadType payload
  return .register pipelineKey datasetName collectorType

/-- `do_POST`: whatever is raised is answered. -/
def doPost (m : Message) : Heard :=
  if !auth H m then .refused (some 401)
  else match postRoute m.target with
    | .register => ((payload H m).bind (readRegistration H)).getD (.refused (some 500))
    | .uploadUrl pid =>
      match (payload H m).bind (payloadGet "filename") with
      | some filename => .uploadUrl pid (orElse H (.str []) filename)
      | none => .refused (some 500)
    | .build pid => .build pid
    | .ingest pid table =>
      match body H m with
      | some content => .ingest pid table (H.headerOf m "x-mb-load-id") (H.headerOf m "x-mb-job-id")
          (H.headerOf m "x-mb-seq") (H.headerOf m "x-mb-chaos-crash-at") (bodyLines content)
      | none => .refused (some 500)
    | .completeLoad pid loadId => .completeLoad pid loadId
    | .notFound => .refused (some 404)

/-- `do_PUT`: an upload is taken from anyone, and what is raised by a body is not caught. -/
def doPut (m : Message) : Heard :=
  match uploadToken (pathParts m.target) with
  | some token =>
    match body H m with
    | some content => .upload token content
    | none => .refused none
  | none =>
    if !auth H m then .refused (some 401)
    else match collectorPid "state" (pathParts m.target) with
      | some pid =>
        match payload H m with
        | some doc => .putState pid doc
        | none => .refused none
      | none => .refused (some 404)

/-- `do_PATCH`. -/
def doPatch (m : Message) : Heard :=
  if !auth H m then .refused (some 401)
  else match collectorPid "secrets" (pathParts m.target) with
    | some pid =>
      match (payload H m).bind (payloadGet "secrets") with
      | some secrets => .submitSecrets pid (orElse H (.obj []) secrets)
      | none => .refused none
    | none => .refused (some 404)

/-- The method of the handler that a message is given to. -/
def hear (m : Message) : Heard :=
  if m.method = "GET" then doGet H m
  else if m.method = "POST" then doPost H m
  else if m.method = "PUT" then doPut H m
  else if m.method = "PATCH" then doPatch H m
  else .refused (some 501)

end Handler

/-! ## Requests of the model

The server of the model has its arguments decoded: strings without surrogates, and the records of an
ingest as envelopes. -/

/-- A string of the model. -/
def stringOf (s : Text) : Option String :=
  (s.mapM fun n : ℕ => if n.isValidChar then some (Char.ofNat n) else none).map String.ofList

section

variable (read : Number → Json)

mutual
/-- A value of the model. -/
def jsonOf : Value → Option Json
  | .null => some .null
  | .bool b => some (.bool b)
  | .number n => some (read n)
  | .str s => (stringOf s).map .str
  | .arr xs => (jsonsOf xs).map .arr
  | .obj kvs => (jsonEntriesOf kvs).map .obj

def jsonsOf : List Value → Option (List Json)
  | [] => some []
  | x :: xs => do
    let y ← jsonOf x
    let ys ← jsonsOf xs
    return y :: ys

def jsonEntriesOf : List (Text × Value) → Option (List (String × Json))
  | [] => some []
  | (k, x) :: kvs => do
    let l ← stringOf k
    let y ← jsonOf x
    let ys ← jsonEntriesOf kvs
    return (l, y) :: ys
end

end

/-- A dict of the model. -/
def rowOf : Json → Option Row
  | .obj kvs => if h : (kvs.map Prod.fst).Nodup then some ⟨kvs, h⟩ else none
  | _ => none

/-- What an ingest reads of a record. -/
def envelopeOf : Json → Option Envelope
  | .obj kvs => do
    let v ← kvs.lookup "v"
    let row ← rowOf v
    return ⟨row, kvs.lookup "t", kvs.lookup "i"⟩
  | _ => none

/-- The point a header asks to crash at; at any other the code does not. -/
def crashPointOf (text : String) : Option CrashPoint :=
  [CrashPoint.afterCommitBeforeMark, .afterMarkBeforeLedger, .afterLedger].find? fun point => point.text = text

/-- The thread that the call of a method runs in, if its arguments are those of a request of the
model. -/
def Heard.thread (H : HttpStack) : Heard → Option Thread
  | .register (.str name) (.str datasetName) (.str kind) =>
    if kind = ofString "external_dlt" then do
      let name ← stringOf name
      let datasetName ← stringOf datasetName
      return .start none (.register name datasetName)
    else none
  | .getState pid => some (.start none (.getState (.ofList pid)))
  | .putState pid doc => do
    let row ← (jsonOf H.read doc).bind rowOf
    return .start none (.putState (.ofList pid) row)
  | .ingest pid table (some loadId) (some jobId) (some seq) chaos lines => do
    let envelopes ← lines.mapM fun line => ((loadsBytes line).bind (jsonOf H.read)).bind envelopeOf
    return .start (chaos.bind crashPointOf) (.ingest ⟨.ofList pid, .ofList table, loadId, jobId, seq, envelopes⟩)
  | .completeLoad pid loadId => some (.start none (.completeLoad (.ofList pid) (.ofList loadId)))
  | _ => none

/-- What happens at the server: a message arrives, a thread makes its next step, or a pid is paused. -/
inductive WireEvent
  | arrive (m : Message)
  | tick (t : ℕ) (inp : Inputs)
  | pause (pid : String)

/-- The system after an event; nothing if a message calls the server in a way that is not modelled. -/
def Sys.hear (H : HttpStack) (P : Runtime) (s : Sys) : WireEvent → Option Sys
  | .arrive m =>
    match Handler.hear H m with
    | .refused _ => some s
    | heard => (heard.thread H).map fun th => { s with threads := s.threads ++ [th] }
  | .tick t inp => some (s.step P (.tick t inp))
  | .pause pid => some (s.step P (.pause pid))

/-- The system after a list of events. -/
def Sys.hearAll (H : HttpStack) (P : Runtime) (s : Sys) (es : List WireEvent) : Option Sys := es.foldlM (Sys.hear H P) s

end Matterbeam
