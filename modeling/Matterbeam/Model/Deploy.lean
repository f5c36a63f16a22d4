import Matterbeam.Base.Prog
import Matterbeam.Model.Gate
import Matterbeam.Model.Package
import Matterbeam.Model.Server

/-!
# Deploys

`deploy.py`: what a deploy takes from the local machine, the requests it sends, and the part of
the server that answers them.
-/

namespace Matterbeam

open Function Prog

/-! ## What a deploy fails with -/

/-- How a deploy fails: at the gate, or with a `DeployError` (no `matterbeam_url`, no local run, a
bad response), or with what `build_package` raises. -/
inductive DeployFailure
  | gate (ex : GateException)
  | noUrl (text : String)
  | noLocalRun (text : String)
  | badResponse (text : String)
  | packaging (text : String)

/-! ## The local machine -/

/-- A value that a run resolved, as its trace has it. -/
structure ResolvedValue where
  key : String
  sections : List String
  isSecretHint : Bool

/-- A `SecretItem`. -/
structure SecretItem where
  key : String
  value : String
  deriving DecidableEq

/-- The local machine, with the dlt functions that read it. -/
structure Local where
  /-- Where the runs of a pipeline keep their state. -/
  home : Pipeline → String
  /-- Where `dlt.attach` looks for the state of the pipeline that is called so. -/
  attached : PipelineCall → String
  /-- The resolved values in the trace of the last run, or why there is none: `PipelineWasNotRun` and
  `CannotRestorePipelineException`. -/
  trace : String → Except String (List ResolvedValue)
  /-- `str(dlt.secrets[...])`: nothing for a `ConfigFieldMissingException`. -/
  secrets : String → Option String
  /-- `str.upper`. -/
  upper : String → String
  /-- What the walk of the script's directory reads, or the error that ends it. -/
  directory : Except String (List (FileName × Node))
  script : FileName
  tools : Tools
  /-- `yaml.dump`. -/
  dump : Manifest → String

/-- `EnvironProvider.get_key_name`. -/
def envKey (upper : String → String) (value : ResolvedValue) : String :=
  upper ("__".intercalate (value.sections ++ [value.key]))

/-- `StringTomlProvider.get_key_name`. -/
def dottedKey (value : ResolvedValue) : String := ".".intercalate (value.sections ++ [value.key])

/-- The pipeline whose secrets are recovered: the first that the source calls for, if any. -/
def pipelineToAttach : Except String (List PipelineCall) → PipelineCall
  | .ok (first :: _) => first
  | _ => ⟨none, none⟩

/-- The value is one to recover. -/
def ResolvedValue.isRecovered (value : ResolvedValue) : Bool :=
  value.isSecretHint && value.sections.head? ≠ some "destination"

/-- The loop of `recover_secrets`, with the keys it has seen. -/
def recoverItems (machine : Local) : List String → List ResolvedValue → List SecretItem
  | _, [] => []
  | seen, value :: values =>
    if !value.isRecovered then recoverItems machine seen values
    else if envKey machine.upper value ∈ seen then recoverItems machine seen values
    else
      let seen := envKey machine.upper value :: seen
      match machine.secrets (dottedKey value) with
      | none => recoverItems machine seen values
      | some secret => ⟨envKey machine.upper value, secret⟩ :: recoverItems machine seen values

/-- `recover_secrets`. -/
def recoverSecrets (machine : Local) (file : ScriptFile) : Except DeployFailure (List SecretItem) :=
  match machine.trace (machine.attached (pipelineToAttach file.calls)) with
  | .error ex => .error (.noLocalRun ("dlt matterbeam deploy requires the pipeline to have run successfully at least " ++
      "once locally before secrets can be recovered (" ++ ex ++ ")."))
  | .ok values => .ok (recoverItems machine [] values)

/-- `CollectorDeployInfo`. -/
structure CollectorDeployInfo where
  pipelineName : String
  datasetName : String
  matterbeamUrl : Option String
  apiToken : Option String

/-- What `gather_deploy_info` takes from the pipeline. -/
def deployInfo (pipeline : Pipeline) : CollectorDeployInfo where
  pipelineName := pipeline.pipelineName
  datasetName := pipeline.datasetName
  matterbeamUrl := (pipeline.destination.bind Destination.config).bind ClientConfig.matterbeamUrl
  apiToken := (pipeline.destination.bind Destination.config).bind ClientConfig.apiToken

/-- `gather_deploy_info`. -/
def gatherDeployInfo (host : Host) (file : ScriptFile) (s : Interpreter) :
    Except GateException CollectorDeployInfo × Interpreter :=
  openCollectorPipeline host file deployInfo s

/-! ## Requests -/

/-- What `DeployClient` sends. -/
inductive DeployRequest
  | register (name datasetName : String)
  | submitSecrets (pid : String) (secrets : Dict String String)
  | uploadUrl (pid filename : String)
  | upload (token : String) (package : Package)
  | build (pid : String)
  | buildStatus (pid : String)

/-- What is known of the build of a pid. -/
structure BuildStatus where
  buildStatus : Option String := none
  buildError : Option String := none
  currentPackageHash : Option String := none
  installedPackages : List (String × String) := []

/-- What a response says. -/
inductive DeployBody
  | registered (id name : String) (created : Bool)
  | ok
  | uploadUrl (token key : String)
  | status (status : BuildStatus)
  | error (message : String)

/-- A response. -/
structure DeployResponse where
  status : ℕ
  body : DeployBody

/-! ## The server -/

/-- `FakeMatterbeamState`, with what deploys write to it: the secrets and the build of each pid, and
the packages. The builds of a pid are kept apart from its item. -/
structure DeployServer where
  base : Server := {}
  secrets : String → String → Option String := fun _ _ => none
  pendingUploads : String → Option (String × String) := fun _ => none
  uploadedPackages : String → Option Package := fun _ => none
  builds : String → BuildStatus := fun _ => {}

/-- What the server draws while it answers. -/
structure Draws where
  pid : String
  token : String

namespace DeployServer

/-- `submit_secrets`: the secrets are stored encrypted. -/
def encrypt (value : String) : String := "encrypted:" ++ value

def storeSecrets (stored : String → Option String) (secrets : Dict String String) : String → Option String :=
  secrets.entries.foldl (fun stored secret => update stored secret.1 (some (encrypt secret.2))) stored

def notFound : DeployResponse := ⟨404, .error "not found"⟩

def crashed (repr : String) : DeployResponse := ⟨500, .error repr⟩

/-- The handlers of what `DeployClient` sends, with the token of the server. A draw that is no new pid does
not happen. -/
def handle (draws : Draws) (srv : DeployServer) : DeployRequest → DeployServer × DeployResponse
  | .register name datasetName =>
    match srv.base.register name datasetName "hosted_dlt" draws.pid with
    | none => (srv, crashed "")
    | some (base, pid, created) =>
      if (base.pids pid).isNone then (srv, crashed ("KeyError('" ++ pid ++ "')"))
      else if created then
        ({ srv with base := base, secrets := update srv.secrets pid fun _ => none, builds := update srv.builds pid {} },
          ⟨200, .registered pid name created⟩)
      else ({ srv with base := base }, ⟨200, .registered pid name created⟩)
  | .submitSecrets pid secrets =>
    if (srv.base.pids pid).isNone then (srv, notFound)
    else ({ srv with secrets := update srv.secrets pid (storeSecrets (srv.secrets pid) secrets) }, ⟨200, .ok⟩)
  | .uploadUrl pid filename =>
    if (srv.base.pids pid).isNone then (srv, crashed ("KeyError('" ++ pid ++ "')"))
    else
      let key := "deployments/dlt/" ++ pid ++ "/" ++ filename
      ({ srv with pendingUploads := update srv.pendingUploads draws.token (some (pid, key)) },
        ⟨200, .uploadUrl draws.token key⟩)
  | .upload token package =>
    match srv.pendingUploads token with
    | none => (srv, notFound)
    | some (pid, _) =>
      ({ srv with
        pendingUploads := update srv.pendingUploads token none
        uploadedPackages := update srv.uploadedPackages pid (some package) }, ⟨200, .ok⟩)
  | .build pid =>
    if (srv.base.pids pid).isNone then (srv, crashed ("KeyError('" ++ pid ++ "')"))
    else ({ srv with builds := update srv.builds pid { srv.builds pid with
      buildStatus := some "building", buildError := none } }, ⟨200, .ok⟩)
  | .buildStatus pid =>
    if (srv.base.pids pid).isNone then (srv, notFound)
    else (srv, ⟨200, .status { srv.builds pid with
      buildStatus := some ((srv.builds pid).buildStatus.getD "never_built") }⟩)

end DeployServer

/-! ## The client -/

/-- A part of a deploy: it sends requests, and may fail. -/
abbrev Deploying (α : Type) := ExceptT DeployFailure (Prog DeployRequest DeployResponse) α

/-- A part that sends nothing. -/
def Deploying.here {α : Type} (result : Except DeployFailure α) : Deploying α := ExceptT.mk (ret result)

/-- The request, as an error names it. -/
def DeployRequest.label : DeployRequest → String
  | .register _ _ => "POST /collectors"
  | .submitSecrets pid _ => "PATCH /collectors/" ++ pid ++ "/secrets"
  | .uploadUrl pid _ => "POST /collectors/" ++ pid ++ "/deployment/upload-url"
  | .upload token _ => "PUT /uploads/" ++ token
  | .build pid => "POST /collectors/" ++ pid ++ "/deployment/build"
  | .buildStatus pid => "GET /collectors/" ++ pid ++ "/deployment/status"

/-- `_raise_for_status`. -/
def raiseForStatus (rq : DeployRequest) (r : DeployResponse) : Except DeployFailure DeployBody :=
  if 400 ≤ r.status then
    .error (.badResponse (rq.label ++ " -> " ++ toString r.status))
  else .ok r.body

/-- A request whose response has to be good. -/
def Deploying.request (rq : DeployRequest) : Deploying DeployBody :=
  ExceptT.mk do
    let r ← ask rq
    return raiseForStatus rq r

/-- A response of another form than the client reads. -/
def DeployFailure.unread : DeployFailure := .badResponse "KeyError"

/-- `register_hosted_pid`. -/
def registerHostedPid (pipelineKey datasetName : String) : Deploying String := do
  match ← Deploying.request (.register pipelineKey datasetName) with
  | .registered id _ _ => return id
  | _ => throw .unread

/-- `submit_secrets`. -/
def submitSecrets (pid : String) (secrets : Dict String String) : Deploying Unit := do
  if secrets.entries.isEmpty then return ()
  else
    let _ ← Deploying.request (.submitSecrets pid secrets)
    return ()

/-- `create_upload_url`. -/
def createUploadUrl (pid filename : String) : Deploying String := do
  match ← Deploying.request (.uploadUrl pid filename) with
  | .uploadUrl token _ => return token
  | _ => throw .unread

/-- `upload_package`. -/
def uploadPackage (token : String) (package : Package) : Deploying Unit := do
  let _ ← Deploying.request (.upload token package)
  return ()

/-- `trigger_build`. -/
def triggerBuild (pid : String) : Deploying Bool :=
  ExceptT.mk do
    let r ← ask (.build pid)
    if r.status = 501 then return .ok false
    else return (raiseForStatus (.build pid) r).map fun _ => true

/-- `get_build_status`. -/
def getBuildStatus (pid : String) : Deploying BuildStatus := do
  match ← Deploying.request (.buildStatus pid) with
  | .status status => return status
  | _ => throw .unread

/-- `poll_build_status`, with the attempts that are left and the last status. -/
def pollBuildStatus (pid : String) : ℕ → BuildStatus → Deploying BuildStatus
  | 0, last => return last
  | attempts + 1, _ => do
    let status ← getBuildStatus pid
    if status.buildStatus = some "ready" ∨ status.buildStatus = some "failed" then return status
    else pollBuildStatus pid attempts status

/-- `build_package`, if the directory can be read. -/
def Local.buildPackage (machine : Local) : Except DeployFailure Package :=
  match machine.directory with
  | .error ex => .error (.packaging ex)
  | .ok root => .ok (Matterbeam.buildPackage machine.tools machine.dump root machine.script)

/-- `DeployResult`. -/
structure DeployResult where
  pid : String
  packageContentHash : String
  secretCount : ℕ
  buildTriggered : Bool
  build : BuildStatus

/-- What is submitted of the secrets that are recovered. -/
def submitted (secrets : List SecretItem) : Dict String String :=
  Dict.ofEntries (secrets.map fun item => (item.key, item.value))

/-- `deploy`, once it has the information on the pipeline. -/
def deployPipeline (machine : Local) (file : ScriptFile) (info : CollectorDeployInfo) (pollMaxAttempts : ℕ) :
    Deploying DeployResult := do
  let pid ← registerHostedPid info.pipelineName info.datasetName
  let secrets ← Deploying.here (recoverSecrets machine file)
  submitSecrets pid (submitted secrets)
  let built ← Deploying.here machine.buildPackage
  let token ← createUploadUrl pid (pid ++ ".tar.gz")
  uploadPackage token built
  let buildTriggered ← triggerBuild pid
  let status ← if buildTriggered then pollBuildStatus pid pollMaxAttempts {} else pure {}
  return ⟨pid, built.contentHash, secrets.length, buildTriggered, status⟩

/-- `deploy`. -/
def deploy (host : Host) (machine : Local) (file : ScriptFile) (pollMaxAttempts : ℕ) (s : Interpreter) :
    Deploying DeployResult :=
  match (gatherDeployInfo host file s).1 with
  | .error ex => throw (.gate ex)
  | .ok info =>
    if info.matterbeamUrl.getD "" = "" then
      throw (.noUrl ("the pipeline's matterbeam destination has no matterbeam_url configured -- set " ++
        "destination.matterbeam.matterbeam_url (and api_token) the same way the pipeline already resolves them for " ++
        "its own runs, then redeploy."))
    else deployPipeline machine file info pollMaxAttempts

end Matterbeam
