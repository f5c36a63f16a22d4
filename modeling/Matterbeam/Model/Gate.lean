import Mathlib.Data.Nat.Notation

/-!
# The upload gate

`gate.py`: a pipeline script is run with `Pipeline.run` patched, so that it is stopped before it
runs anything, and the pipeline that is active then is looked at. A script is a program over what
the harness has to do with: the active pipeline, `DLT_DATA_DIR` and the patch.
-/

namespace Matterbeam

/-! ## Pipelines -/

/-- What `pipeline.destination_client().config` has. -/
structure ClientConfig where
  matterbeamUrl : Option String
  apiToken : Option String

/-- A destination. It has no `config` if a client for it raises a `ConfigurationValueError`. -/
structure Destination where
  destinationType : String
  config : Option ClientConfig

/-- A pipeline object: `number` tells it from others with the same names. -/
structure Pipeline where
  number : ℕ
  pipelineName : String
  datasetName : String
  destination : Option Destination

/-! ## Scripts -/

/-- What a script can raise. It may raise the gate's own errors, too. -/
inductive ScriptError
  | runIntercepted
  | unknownDestinationModule (text : String)
  | gateError (text : String)
  | other (text : String)

/-- A pipeline script. A call of `.run()` goes on with `next` if it returns, and with `caught` if
it raises: `raises .runIntercepted` if the script does not catch that. -/
inductive Script
  | finish
  | raises (ex : ScriptError)
  | construct (pipeline : Pipeline) (next : Script)
  | activate (pipeline : Pipeline) (next : Script)
  | deactivate (next : Script)
  | setDataDir (dir : Option String) (next : Script)
  | run (pipeline : Pipeline) (next caught : Script)

/-- A call of `dlt.pipeline` in the source, with the arguments that `parse_pipeline_info` lists. -/
structure PipelineCall where
  pipelineName : Option String
  pipelinesDir : Option String
  deriving DecidableEq

/-- A script file: what it does, and what `parse_pipeline_info` finds in it, or why it raises. -/
structure ScriptFile where
  path : String
  isFile : Bool
  body : Script
  calls : Except String (List PipelineCall)

/-- The interpreter: whether `Pipeline.run` is patched, `DLT_DATA_DIR`, and the active pipeline. -/
structure Interpreter where
  intercepts : Bool
  dataDir : Option String
  active : Option Pipeline

/-- The run of a script. A pipeline is active once it is constructed, or really run. -/
def Script.exec : Script → Interpreter → Except ScriptError Unit × Interpreter
  | finish, s => (.ok (), s)
  | raises ex, s => (.error ex, s)
  | construct pipeline next, s => next.exec { s with active := some pipeline }
  | activate pipeline next, s => next.exec { s with active := some pipeline }
  | deactivate next, s => next.exec { s with active := none }
  | setDataDir dir next, s => next.exec { s with dataDir := dir }
  | run pipeline next caught, s =>
    if s.intercepts then caught.exec s else next.exec { s with active := some pipeline }

/-! ## The harness -/

/-- What the gate takes from where it runs: `repr` of a text, the name of a temporary directory,
and the pipeline that `PipelineContext.pipeline()` makes if none is active. -/
structure Host where
  repr : String → String
  tempDir : String
  defaultPipeline : Pipeline

/-- `_run_intercepted`, with what is done inside it. -/
def runIntercepted {α : Type} (host : Host) (body : Script) (inside : Interpreter → α) (s : Interpreter) :
    Except ScriptError α × Interpreter :=
  let ran := body.exec { intercepts := true, dataDir := some host.tempDir, active := none }
  let result := match ran.1 with
    | .ok () => .ok (inside ran.2)
    | .error .runIntercepted => .ok (inside ran.2)
    | .error ex => .error ex
  (result, { intercepts := s.intercepts, dataDir := s.dataDir, active := none })

/-! ## The gate -/

/-- The outcomes of the gate. -/
inductive GateOutcome
  | collector
  | notMatterbeam
  | noDestination
  | unresolved
  | noPipeline
  deriving DecidableEq

/-- `GateResult`. -/
structure GateResult where
  outcome : GateOutcome
  destinationType : Option String := none
  detail : Option String := none

/-- `MATTERBEAM_DESTINATION_TYPE`. -/
def matterbeamDestinationType : String := "dlt_matterbeam.destinations.matterbeam"

/-- What `inspect_destination` says of the active pipeline. -/
def classify : Option Pipeline → GateResult
  | none => { outcome := .noPipeline, detail := some "script ran without constructing a dlt pipeline" }
  | some pipeline =>
    match pipeline.destination with
    | none => { outcome := .noDestination }
    | some destination =>
      if destination.destinationType = matterbeamDestinationType then
        { outcome := .collector, destinationType := some destination.destinationType }
      else { outcome := .notMatterbeam, destinationType := some destination.destinationType }

/-- `inspect_destination`, with the pipeline that it looks at. -/
def inspectDestination (host : Host) (file : ScriptFile) (s : Interpreter) :
    Except ScriptError (GateResult × Option Pipeline) × Interpreter :=
  if file.isFile then
    match runIntercepted host file.body (fun s => (classify s.active, s.active)) s with
    | (.error (.unknownDestinationModule text), s) => (.ok ({ outcome := .unresolved, detail := some text }, none), s)
    | r => r
  else (.ok ({ outcome := .noPipeline, detail := some ("no such file: " ++ host.repr file.path) }, none), s)

/-- A `MatterbeamGateError`, or what the script raised. -/
inductive GateException
  | gate (text : String)
  | script (ex : ScriptError)

/-- What `run_gate` makes of a result. -/
def judge (host : Host) (file : ScriptFile) (result : GateResult) : Except GateException GateResult :=
  match result.outcome with
  | .noPipeline => .error (.gate (host.repr file.path ++ " did not construct a dlt pipeline (" ++
      result.detail.getD "None" ++ ") -- nothing to deploy."))
  | .unresolved => .error (.gate ("could not resolve the pipeline's destination (" ++ result.detail.getD "None" ++
      "). Is every dependency the pipeline needs installed in this environment? Run the pipeline locally first."))
  | .noDestination | .notMatterbeam => .error (.gate ("dlt matterbeam deploy requires the pipeline's destination to be " ++
      "\"matterbeam\" -- found " ++ (result.destinationType.filter (· ≠ "")).getD "no destination" ++
      " instead. (A pipeline with matterbeam as its *source* -- an emitter -- will also be accepted once that support " ++
      "ships; it is not yet built.) Set destination=\"matterbeam\" (or a matterbeam() factory instance) and try again."))
  | .collector => .ok result

/-- `run_gate`. -/
def runGate (host : Host) (file : ScriptFile) (s : Interpreter) : Except GateException GateResult × Interpreter :=
  match inspectDestination host file s with
  | (.error ex, s) => (.error (.script ex), s)
  | (.ok (result, _), s) => (judge host file result, s)

/-- `open_collector_pipeline`, with what is done with the pipeline. -/
def openCollectorPipeline {α : Type} (host : Host) (file : ScriptFile) (inside : Pipeline → α) (s : Interpreter) :
    Except GateException α × Interpreter :=
  match runGate host file s with
  | (.error ex, s) => (.error ex, s)
  | (.ok _, s) =>
    match runIntercepted host file.body (fun s => inside (s.active.getD host.defaultPipeline)) s with
    | (.error ex, s) => (.error (.script ex), s)
    | (.ok a, s) => (.ok a, s)

end Matterbeam
