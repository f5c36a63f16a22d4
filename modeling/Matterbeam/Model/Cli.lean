import Matterbeam.Model.Deploys

/-!
# The commands

`cli.py`: what `dlt matterbeam deploy` and `dlt matterbeam status` send, print and raise. The URL that is
resolved is that of the server, and the token is the one that it asks for.
-/

namespace Matterbeam

open Prog

/-- What a command raises: a `MatterbeamGateError`, or what it does not catch. -/
inductive CliException
  | gateError (text : String)
  | raised (failure : DeployFailure)

/-- What a command has printed, line by line, and raised, if it has. -/
structure CommandRun where
  printed : List String
  raised : Option CliException

/-- The text of a `DeployError`. What the gate raises is none, nor is what ends the walk of the
directory, nor the `KeyError` for a response of another form. -/
def DeployFailure.deployError? : DeployFailure → Option String
  | noUrl text | noLocalRun text => some text
  | badResponse text => if text = "KeyError" then none else some text
  | gate _ | packaging _ => none

/-- What a command raises for a failure. -/
def CliException.of (command : String) (failure : DeployFailure) : CliException :=
  match failure.deployError? with
  | some text => gateError ("dlt matterbeam " ++ command ++ ": " ++ text)
  | none => raised failure

/-- What `_deploy` raises if the gate does. A script may raise a `MatterbeamGateError` as well. -/
def CliException.ofGate : GateException → CliException
  | .gate text | .script (.gateError text) => gateError ("dlt matterbeam deploy: " ++ text)
  | .script ex => raised (.gate (.script ex))

/-- What `dlt.config` and `dlt.secrets` find; nothing for a `ConfigFieldMissingException`. -/
structure Settings where
  config : String → Option String
  secrets : String → Option String

/-- `resolve_standalone_credentials`, or the text of its `DeployError`. -/
def resolveStandaloneCredentials (settings : Settings) : Except String (String × Option String) :=
  match settings.config "destination.matterbeam.matterbeam_url" with
  | none => .error ("could not resolve destination.matterbeam.matterbeam_url -- run `dlt matterbeam status` " ++
      "from the pipeline's own directory (so its .dlt/secrets.toml or .dlt/config.toml " ++
      "is picked up), or set the DESTINATION__MATTERBEAM__MATTERBEAM_URL env var.")
  | some matterbeamUrl => .ok (matterbeamUrl, settings.secrets "destination.matterbeam.api_token")

namespace MatterbeamCommand

/-- `_print_build_status`. -/
def printBuildStatus (repr : String → String) (pid : String) (status : BuildStatus) : List String :=
  let buildStatus := (status.buildStatus.filter (· ≠ "")).getD "never_built"
  if buildStatus = "ready" then
    ["build ready for pid " ++ repr pid ++ " (hash " ++ status.currentPackageHash.getD "None" ++ ").",
      toString status.installedPackages.length ++ " package(s) installed."]
  else if buildStatus = "failed" then
    ["build FAILED for pid " ++ repr pid ++ ": " ++ status.buildError.getD "None"]
  else if buildStatus = "building" then
    ["still building for pid " ++ repr pid ++ ". Run `dlt matterbeam status " ++ pid ++ "` again shortly."]
  else ["pid " ++ repr pid ++ " has not been built yet (build_status=" ++ repr buildStatus ++ ")."]

/-- The status that `_deploy` makes of a result. -/
def statusOf (result : DeployResult) : BuildStatus :=
  { result.build with currentPackageHash := some result.packageContentHash }

/-- What `_deploy` prints of a result. -/
def printResult (repr : String → String) (result : DeployResult) : List String :=
  ["registered pid " ++ repr result.pid ++ ".", "submitted " ++ toString result.secretCount ++ " secret(s).",
    "uploaded package (content hash " ++ result.packageContentHash ++ ")."] ++
  if result.buildTriggered then
    "building environment..." :: printBuildStatus repr result.pid (statusOf result)
  else ["build NOT triggered -- the dlt-package-builder component isn't deployed to this " ++
    "customer account yet. The upload above still succeeded; re-run `dlt matterbeam " ++
    "deploy` for pid " ++ repr result.pid ++ " once it is."]

/-- What `_deploy` prints once the gate has passed. -/
def recognized (d : Deployment) : String :=
  d.host.repr d.file.path ++ " recognized as a collector (destination=matterbeam)."

end MatterbeamCommand

/-- The deployment, once the gate has run. -/
def Deployment.afterGate (d : Deployment) : Deployment :=
  { d with interpreter := (runGate d.host d.file d.interpreter).2 }

namespace MatterbeamCommand

/-- `_deploy`, with what `deploy` has returned to it. -/
def deploy (d : Deployment) : Prog DeployRequest DeployResponse (CommandRun × Option DeployResult) :=
  match (runGate d.host d.file d.interpreter).1 with
  | .error ex => ret (⟨[], some (.ofGate ex)⟩, none)
  | .ok _ => do
    match ← d.afterGate.prog with
    | .error failure => return (⟨[recognized d], some (.of "deploy" failure)⟩, none)
    | .ok result => return (⟨recognized d :: printResult d.host.repr result, none⟩, some result)

/-- `_status`. -/
def status (repr : String → String) (settings : Settings) (pid : String) : Prog DeployRequest DeployResponse CommandRun :=
  match resolveStandaloneCredentials settings with
  | .error text => ret ⟨[], some (.gateError ("dlt matterbeam status: " ++ text))⟩
  | .ok _ => do
    match ← (pollBuildStatus pid 1 {}).run with
    | .error failure => return ⟨[], some (.of "status" failure)⟩
    | .ok status => return ⟨printBuildStatus repr pid status, none⟩

/-- Who deploys a pipeline, and asks for the status of the pid that is printed. -/
def session (d : Deployment) (settings : Settings) : Prog DeployRequest DeployResponse (CommandRun × Option CommandRun) := do
  match ← deploy d with
  | (run, none) => return (run, none)
  | (run, some result) =>
    let asked ← status d.host.repr settings result.pid
    return (run, some asked)

end MatterbeamCommand

/-- The server and the users, after events. -/
def sessionsAfter {ι : Type} [DecidableEq ι] (P : Runtime) (srv : DeployServer) (users : ι → Deployment × Settings)
    (es : List (Prog.Event ι Draws Meanwhile)) :
    DeployServer × (ι → Prog DeployRequest DeployResponse (CommandRun × Option CommandRun)) :=
  sideBySide DeployServer.handle (Meanwhile.apply P)
    (srv, fun i => MatterbeamCommand.session (users i).1 (users i).2) es

end Matterbeam
