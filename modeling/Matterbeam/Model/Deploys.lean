import Matterbeam.Base.Parallel
import Matterbeam.Model.Deploy
import Matterbeam.Model.System

/-!
# Deploys at one time

Any number of deploys that talk to one server, each from its own machine, while the server goes on
with the requests of running pipelines. All of them hold the token of the server: with another one,
`Handler` refuses their requests (`Handler.auth`) before the server sees them.
-/

namespace Matterbeam

open Prog

/-- A deploy that has been started. -/
structure Deployment where
  host : Host
  machine : Local
  file : ScriptFile
  pollMaxAttempts : ℕ
  interpreter : Interpreter

namespace Deployment

variable (d : Deployment)

/-- What it does. -/
def prog : Prog DeployRequest DeployResponse (Except DeployFailure DeployResult) :=
  (deploy d.host d.machine d.file d.pollMaxAttempts d.interpreter).run

/-- What it knows of its pipeline. -/
def info : Except GateException CollectorDeployInfo := (gatherDeployInfo d.host d.file d.interpreter).1

/-- The claim key of its pipeline. -/
def key : Option String := d.info.toOption.map fun info => Server.registryKey info.pipelineName info.datasetName

end Deployment

/-- What else the server does: a step of a request of a running pipeline, wherever that is, or a pid is
paused. -/
inductive Meanwhile
  | step (th : Thread) (inp : Inputs)
  | pause (pid : String)

def Meanwhile.apply (P : Runtime) : Meanwhile → DeployServer → DeployServer
  | step th inp, srv => { srv with base := (th.step P inp srv.base).1 }
  | pause pid, srv => { srv with base := srv.base.pause pid }

/-- `decrypt_secret`, with the text of its assertion. -/
def DeployServer.decryptSecret (srv : DeployServer) (pid name : String) : Except String (Option String) :=
  match srv.secrets pid name with
  | none => .ok none
  | some enc =>
    if "encrypted:".toList <+: enc.toList then .ok (some (String.ofList (enc.toList.drop "encrypted:".length)))
    else .error "fake KMS marker missing -- secret stored verbatim"

/-- The draws that happen: a new pid is none that is known, and a token is none that is pending. -/
def Draws.Ok (srv : DeployServer) (draws : Draws) : DeployRequest → Prop
  | .register _ _ => srv.base.freshDraw draws.pid = true
  | .uploadUrl _ _ => srv.pendingUploads draws.token = none
  | _ => True

instance (srv : DeployServer) (draws : Draws) : (rq : DeployRequest) → Decidable (draws.Ok srv rq)
  | .register _ _ => inferInstanceAs (Decidable (_ = true))
  | .uploadUrl _ _ => inferInstanceAs (Decidable (_ = none))
  | .submitSecrets _ _ | .upload _ _ | .build _ | .buildStatus _ => .isTrue trivial

/-- The server and the deploys, after events. -/
def deploysAfter {ι : Type} [DecidableEq ι] (P : Runtime) (srv : DeployServer) (ds : ι → Deployment)
    (es : List (Prog.Event ι Draws Meanwhile)) :
    DeployServer × (ι → Prog DeployRequest DeployResponse (Except DeployFailure DeployResult)) :=
  sideBySide DeployServer.handle (Meanwhile.apply P) (srv, fun i => (ds i).prog) es

end Matterbeam
