import Matterbeam.Model.Handler
import Matterbeam.Proof.Package

/-!
# Which pipeline a deploy acts on

The gate stops a script where it runs a pipeline, and looks at the pipeline that is active then:
the last that was constructed. Secrets are recovered for the first that the source calls for.

* `inspectDestination_runsOne`, `gatherDeployInfo_runsOne`: what is classified and registered.
* `one_pipeline_iff`: **a deploy acts on the pipeline that is run just if that is the last
  constructed and the first called for**.
* `two_pipelines`: a deploy that registers one pipeline with the secrets of another.
-/

namespace Matterbeam

variable {host : Host} {machine : Local} {file : ScriptFile} {s : Interpreter} {built : List Pipeline}
  {target last : Pipeline} {next : Script}

/-! ## Scripts that run one pipeline -/

/-- The script constructs pipelines, and goes on. -/
def constructing (built : List Pipeline) (after : Script) : Script := built.foldr Script.construct after

/-- The script constructs pipelines, and runs one. -/
def runsOne (built : List Pipeline) (target : Pipeline) (next : Script) : Script :=
  constructing built (.run target next (.raises .runIntercepted))

/-- Of all the pipelines that are constructed, the last is active. -/
theorem exec_constructing (built : List Pipeline) (after : Script) (s : Interpreter) :
    (constructing built after).exec s = after.exec { s with active := built.getLast?.or s.active } := by
  induction built generalizing s with
  | nil => rfl
  | cons pipeline built ih =>
    change (constructing built after).exec { s with active := some pipeline } = _
    -- each pipeline is active until the next one is
    rw [ih, List.getLast?_cons]
    cases built.getLast? with
    | none => rfl
    | some last => rfl

/-- **The gate sees the pipeline that was constructed last**, and leaves the interpreter as it was. -/
theorem runIntercepted_runsOne {α : Type} (inside : Interpreter → α) (hbody : file.body = runsOne built target next)
    (hlast : built.getLast? = some last) :
    runIntercepted host file.body inside s = (.ok (inside ⟨true, some host.tempDir, some last⟩),
      { intercepts := s.intercepts, dataDir := s.dataDir, active := none }) := by
  have hran : file.body.exec { intercepts := true, dataDir := some host.tempDir, active := none } =
      (.error .runIntercepted, ⟨true, some host.tempDir, some last⟩) := by
    rw [hbody, runsOne, exec_constructing, hlast]
    rfl
  unfold runIntercepted
  rw [hran]

/-- What is classified. -/
theorem inspectDestination_runsOne (hfile : file.isFile = true) (hbody : file.body = runsOne built target next)
    (hlast : built.getLast? = some last) :
    inspectDestination host file s = (.ok (classify (some last), some last),
      { intercepts := s.intercepts, dataDir := s.dataDir, active := none }) := by
  unfold inspectDestination
  rw [if_pos hfile, runIntercepted_runsOne _ hbody hlast]

/-- **What is registered**: the pipeline that was constructed last, or nothing. -/
theorem gatherDeployInfo_runsOne (hfile : file.isFile = true) (hbody : file.body = runsOne built target next)
    (hlast : built.getLast? = some last) :
    (gatherDeployInfo host file s).1 = (judge host file (classify (some last))).map fun _ => deployInfo last := by
  unfold gatherDeployInfo openCollectorPipeline runGate
  rw [inspectDestination_runsOne hfile hbody hlast]
  dsimp only
  cases judge host file (classify (some last)) with
  | error ex => rfl
  | ok result =>
    dsimp only
    -- the gate has passed, and the script is run once more
    rw [runIntercepted_runsOne _ hbody hlast]
    rfl

/-! ## The pipeline that is run -/

/-- A deploy acts on one pipeline: it classifies it, registers it and recovers its secrets. -/
structure OnePipeline (host : Host) (machine : Local) (file : ScriptFile) (s : Interpreter) (target : Pipeline) : Prop where
  classified : ∃ result, (inspectDestination host file s).1 = .ok (result, some target)
  registered : ∀ info, (gatherDeployInfo host file s).1 = .ok info → info = deployInfo target
  recovered : machine.attached (pipelineToAttach file.calls) = machine.home target

/-- **When a deploy acts on the pipeline that is run.** For every script that constructs pipelines
and runs one of them: just if that is the one constructed last, and the first call of the source
is for it. The first call constructs `called`, whose state is where `dlt.attach` finds it. -/
theorem one_pipeline_iff (host : Host) (machine : Local) (file : ScriptFile) (s : Interpreter) (built : List Pipeline)
    (target called : Pipeline) (next : Script) (first : PipelineCall) (calls : List PipelineCall)
    (hfile : file.isFile = true) (hbody : file.body = runsOne built target next) (htarget : target ∈ built)
    (hcalls : file.calls = .ok (first :: calls)) (hattach : machine.attached first = machine.home called) :
    OnePipeline host machine file s target ↔ built.getLast? = some target ∧ machine.home called = machine.home target := by
  have hchosen : machine.attached (pipelineToAttach file.calls) = machine.home called := by
    rw [hcalls, ← hattach]
    rfl
  have hne : built ≠ [] := List.ne_nil_of_mem htarget
  obtain ⟨last, hlast⟩ : ∃ last, built.getLast? = some last := ⟨_, List.getLast?_eq_some_getLast hne⟩
  have hinspect : inspectDestination host file s = (.ok (classify (some last), some last), _) :=
    inspectDestination_runsOne hfile hbody hlast
  constructor
  · rintro ⟨⟨result, hclassified⟩, -, hrecovered⟩
    rw [hinspect] at hclassified
    -- what is classified is the pipeline that was constructed last
    have hpair := Prod.ext_iff.1 (Except.ok.inj hclassified)
    refine ⟨hlast.trans hpair.2, ?_⟩
    rw [← hchosen, hrecovered]
  · rintro ⟨htargetLast, hhome⟩
    -- that pipeline is the one that is run, so all of the deploy is about it
    obtain rfl : last = target := Option.some.inj (hlast.symm.trans htargetLast)
    refine ⟨⟨classify (some last), by rw [hinspect]⟩, fun info hinfo => ?_, hchosen.trans hhome⟩
    rw [gatherDeployInfo_runsOne hfile hbody hlast] at hinfo
    cases hjudge : judge host file (classify (some last)) with
    | error ex =>
      rw [hjudge] at hinfo
      cases hinfo
    | ok result =>
      rw [hjudge] at hinfo
      exact (Except.ok.inj hinfo).symm

/-! ## Two pipelines in one script -/

def plainHost : Host := ⟨id, "/tmp/dlt-matterbeam-gate", ⟨0, "dlt_dlt", "dlt_dlt_dataset", none⟩⟩

/-- A destination that a deploy accepts, with the token of the server. -/
def matterbeamDestination : Destination :=
  ⟨matterbeamDestinationType, some ⟨some "http://127.0.0.1:8765", some Handler.token⟩⟩

def ordersPipeline : Pipeline := ⟨1, "orders", "shop", some matterbeamDestination⟩

def customersPipeline : Pipeline := ⟨2, "customers", "crm", some matterbeamDestination⟩

/-- A machine on which both have run, each with a secret of its own. -/
def bothRan : Local where
  home pipeline := pipeline.pipelineName
  attached call := call.pipelineName.getD "dlt_dlt"
  trace home := .ok [⟨"api_key", ["sources", home], true⟩]
  secrets key := some ("value of " ++ key)
  upper := String.toUpper
  directory := .ok []
  script := pipelineScript
  tools := blankTools
  dump _ := ""

/-- A script with one pipeline. -/
def ordersScript : ScriptFile where
  path := "pipeline.py"
  isFile := true
  body := runsOne [ordersPipeline] ordersPipeline .finish
  calls := .ok [⟨some "orders", none⟩]

/-- A deploy of a script with one pipeline acts on it. -/
theorem one_pipeline_iff_orders : OnePipeline plainHost bothRan ordersScript ⟨false, none, none⟩ ordersPipeline :=
  (one_pipeline_iff plainHost bothRan ordersScript ⟨false, none, none⟩ [ordersPipeline] ordersPipeline ordersPipeline
    .finish ⟨some "orders", none⟩ [] rfl rfl (List.mem_singleton.2 rfl) rfl rfl).2 ⟨rfl, rfl⟩

/-- A script with two pipelines, of which it runs the second. -/
def bothScript : ScriptFile where
  path := "pipeline.py"
  isFile := true
  body := runsOne [ordersPipeline, customersPipeline] customersPipeline .finish
  calls := .ok [⟨some "orders", none⟩, ⟨some "customers", none⟩]

/-- **The second is registered, with the secrets of the first.** -/
theorem two_pipelines :
    let s : Interpreter := ⟨false, none, none⟩
    (gatherDeployInfo plainHost bothScript s).1 = .ok (deployInfo customersPipeline) ∧
    recoverSecrets bothRan bothScript = .ok [⟨"SOURCES__ORDERS__API_KEY", "value of sources.orders.api_key"⟩] ∧
    ¬ OnePipeline plainHost bothRan bothScript s customersPipeline := by
  intro s
  refine ⟨rfl, ?_, ?_⟩
  · have hitems : recoverItems bothRan [] [⟨"api_key", ["sources", "orders"], true⟩] =
        [⟨"SOURCES__ORDERS__API_KEY", "value of sources.orders.api_key"⟩] := by
      decide +kernel
    exact congrArg Except.ok hitems
  · intro h
    have hrecovered : "orders" = "customers" := h.recovered
    simp at hrecovered

end Matterbeam
