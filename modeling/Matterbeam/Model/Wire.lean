import Matterbeam.Model.Envelope

/-!
# Requests and responses

What `HttpTransport` sends and what comes back, after the HTTP library has done its
work: one constructor for each endpoint the transport uses, with the method and path
it is sent to.
-/

namespace Matterbeam

/-- `POST /collectors/{pid}/ingest/{table}:bulk`, with its headers and its lines. -/
structure IngestRequest where
  pid : String
  table : String
  loadId : String
  jobId : String
  seq : String
  lines : List Envelope
  deriving DecidableEq

/-- A request of `HttpTransport`. -/
inductive Request
  | register (name datasetName : String)
  | getState (pid : String)
  | putState (pid : String) (doc : Row)
  | ingest (rq : IngestRequest)
  | completeLoad (pid loadId : String)
  deriving DecidableEq

def Request.method : Request → String
  | .getState _ => "GET"
  | .putState _ _ => "PUT"
  | _ => "POST"

def Request.path : Request → String
  | .register _ _ => "/collectors"
  | .getState pid => "/collectors/" ++ pid ++ "/state"
  | .putState pid _ => "/collectors/" ++ pid ++ "/state"
  | .ingest rq => "/collectors/" ++ rq.pid ++ "/ingest/" ++ rq.table ++ ":bulk"
  | .completeLoad pid loadId => "/collectors/" ++ pid ++ "/job/" ++ loadId

/-- An HTTP response. `json` is what `response.json()` returns, if it returns. -/
structure Response where
  status : ℕ
  json : Option Json
  text : String
  deriving DecidableEq

/-- What `session.request` gives back: a response, or a broken connection. -/
inductive Answer
  | reply (r : Response)
  | broken
  deriving DecidableEq

end Matterbeam
