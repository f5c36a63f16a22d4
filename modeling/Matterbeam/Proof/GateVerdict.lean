import Matterbeam.Proof.OnePipeline

/-!
# The verdict of the gate

A script is left by its own exceptions, by the interception or at its end. The patch and
`DLT_DATA_DIR` are put back on each of these exits. The gate reads a verdict from two of them, and
turns one kind of exception into a verdict; the rest go through it.

* `runIntercepted_restores`, `inspectDestination_left`: what is put back, on every exit.
* `judge_collects`: what is accepted.
* `gate_verdict_iff`: **the gate accepts a collector or raises its own error, and leaves no trace,
  just if the script raises nothing else**.
* `missing_module`: a script that cannot import a module gets out of the gate with that.
-/

namespace Matterbeam

variable {host : Host} {file : ScriptFile} {s : Interpreter}

/-! ## Cleanup -/

/-- What the run of the script comes to, under the patch. -/
def ranScript (host : Host) (file : ScriptFile) : Except ScriptError Unit × Interpreter :=
  file.body.exec { intercepts := true, dataDir := some host.tempDir, active := none }

/-- Nothing of a run is left: the patch and `DLT_DATA_DIR` are as they were, and no pipeline is active. -/
structure LeftAsWas (s s' : Interpreter) : Prop where
  intercepts : s'.intercepts = s.intercepts
  dataDir : s'.dataDir = s.dataDir
  inactive : s'.active = none

/-- **On every exit**, whatever the script did. -/
theorem runIntercepted_restores {α : Type} (host : Host) (body : Script) (inside : Interpreter → α) (s : Interpreter) :
    LeftAsWas s (runIntercepted host body inside s).2 :=
  ⟨rfl, rfl, rfl⟩

/-- A script that ended, or was stopped: what is done inside is done. -/
theorem runIntercepted_ended {α : Type} (inside : Interpreter → α)
    (h : (ranScript host file).1 = .ok () ∨ (ranScript host file).1 = .error .runIntercepted) :
    (runIntercepted host file.body inside s).1 = .ok (inside (ranScript host file).2) := by
  unfold ranScript at h ⊢
  unfold runIntercepted
  dsimp only
  obtain h | h := h <;> rw [h]

/-- Any other exception goes through. -/
theorem runIntercepted_raised {α : Type} {ex : ScriptError} (inside : Interpreter → α)
    (h : (ranScript host file).1 = .error ex) (hne : ex ≠ .runIntercepted) :
    (runIntercepted host file.body inside s).1 = .error ex := by
  unfold ranScript at h
  unfold runIntercepted
  dsimp only
  rw [h]
  cases ex with
  | runIntercepted => exact absurd rfl hne
  | _ => rfl

/-! ## Classification -/

/-- An existing script is inspected under the patch; the interpreter is cleaned up after it. -/
theorem inspectDestination_left (hfile : file.isFile = true) : LeftAsWas s (inspectDestination host file s).2 := by
  have hleft := runIntercepted_restores host file.body (fun s => (classify s.active, s.active)) s
  unfold inspectDestination
  rw [if_pos hfile]
  -- a caught exception changes the result alone
  split
  next text s' h =>
    rw [h] at hleft
    exact hleft
  next => exact hleft

/-- What is classified, if the script ended or was stopped. -/
theorem inspectDestination_ended (hfile : file.isFile = true)
    (h : (ranScript host file).1 = .ok () ∨ (ranScript host file).1 = .error .runIntercepted) :
    (inspectDestination host file s).1 =
      .ok (classify (ranScript host file).2.active, (ranScript host file).2.active) := by
  have hran := runIntercepted_ended (s := s) (fun s => (classify s.active, s.active)) h
  unfold inspectDestination
  rw [if_pos hfile]
  split
  next text s' hrun =>
    rw [hrun] at hran
    cases hran
  next => exact hran

/-- A destination that does not resolve is a verdict, and no exception. -/
theorem inspectDestination_unresolved {text : String} (hfile : file.isFile = true)
    (h : (ranScript host file).1 = .error (.unknownDestinationModule text)) :
    (inspectDestination host file s).1 = .ok ({ outcome := .unresolved, detail := some text }, none) := by
  have hran := runIntercepted_raised (s := s) (fun s => (classify s.active, s.active)) h ScriptError.noConfusion
  unfold inspectDestination
  rw [if_pos hfile]
  split
  next text' s' hrun =>
    rw [hrun] at hran
    cases hran
    rfl
  next hother =>
    exact (hother text (runIntercepted host file.body (fun s => (classify s.active, s.active)) s).2 (Prod.ext hran rfl)).elim

/-- What else the script raises goes through. -/
theorem inspectDestination_raised {ex : ScriptError} (hfile : file.isFile = true)
    (h : (ranScript host file).1 = .error ex) (hne : ex ≠ .runIntercepted)
    (hknown : ∀ text, ex ≠ .unknownDestinationModule text) :
    (inspectDestination host file s).1 = .error ex := by
  have hran := runIntercepted_raised (s := s) (fun s => (classify s.active, s.active)) h hne
  unfold inspectDestination
  rw [if_pos hfile]
  split
  next text s' hrun =>
    rw [hrun] at hran
    exact absurd (Except.error.inj hran).symm (hknown text)
  next => exact hran

/-! ## Verdicts -/

/-- The gate's own error: raised by the gate, or by the script. -/
def GateException.IsGateError : GateException → Prop
  | .gate _ | .script (.gateError _) => True
  | .script _ => False

/-- The pipeline has the matterbeam destination. -/
def OfMatterbeam (pipeline : Pipeline) : Prop :=
  ∃ destination, pipeline.destination = some destination ∧ destination.destinationType = matterbeamDestinationType

/-- The script is a collector: it ends, or is stopped by the interception, while a pipeline with
the matterbeam destination is active. -/
structure Collects (host : Host) (file : ScriptFile) : Prop where
  isFile : file.isFile = true
  ended : (ranScript host file).1 = .ok () ∨ (ranScript host file).1 = .error .runIntercepted
  active : ∃ pipeline, (ranScript host file).2.active = some pipeline ∧ OfMatterbeam pipeline

/-- **The verdict is total and leaves no trace**: a collector is accepted as one, for anything else
the gate's own error is raised, and the interpreter is as it was. -/
structure Verdict (host : Host) (file : ScriptFile) (s : Interpreter) : Prop where
  accepts : (∃ result, (runGate host file s).1 = .ok result) ↔ Collects host file
  outcome : ∀ result, (runGate host file s).1 = .ok result → result.outcome = .collector
  raises : ∀ ex, (runGate host file s).1 = .error ex → ex.IsGateError
  left : LeftAsWas s (runGate host file s).2

/-- What is accepted is a collector. -/
theorem judge_ok {result accepted : GateResult} (h : judge host file result = .ok accepted) :
    accepted = result ∧ result.outcome = .collector := by
  unfold judge at h
  split at h
  case h_5 hcollector => exact ⟨(Except.ok.inj h).symm, hcollector⟩
  all_goals cases h

/-- A rejection is the gate's own error. -/
theorem judge_error {result : GateResult} {ex : GateException} (h : judge host file result = .error ex) : ex.IsGateError := by
  unfold judge at h
  split at h <;> cases h
  all_goals trivial

theorem judge_collector {result : GateResult} (h : result.outcome = .collector) : judge host file result = .ok result := by
  unfold judge
  rw [h]

/-- **What is accepted**: an active pipeline with the matterbeam destination. -/
theorem judge_collects (active : Option Pipeline) :
    (∃ accepted, judge host file (classify active) = .ok accepted) ↔ ∃ pipeline, active = some pipeline ∧ OfMatterbeam pipeline := by
  constructor
  · rintro ⟨accepted, haccepted⟩
    have hcollector := (judge_ok haccepted).2
    -- only one branch of the classification says that
    unfold classify at hcollector
    split at hcollector
    · cases hcollector
    next pipeline =>
      split at hcollector
      · cases hcollector
      next destination hdestination =>
        split at hcollector
        next htype => exact ⟨pipeline, rfl, destination, hdestination, htype⟩
        · cases hcollector
  · rintro ⟨pipeline, rfl, destination, hdestination, htype⟩
    refine ⟨_, judge_collector ?_⟩
    unfold classify
    dsimp only
    rw [hdestination]
    dsimp only
    rw [if_pos htype]

/-- The gate changes the interpreter as the inspection does. -/
theorem runGate_snd (host : Host) (file : ScriptFile) (s : Interpreter) :
    (runGate host file s).2 = (inspectDestination host file s).2 := by
  unfold runGate
  split
  all_goals
    next h => rw [h]

theorem runGate_ok {result : GateResult} {active : Option Pipeline}
    (h : (inspectDestination host file s).1 = .ok (result, active)) : (runGate host file s).1 = judge host file result := by
  unfold runGate
  split
  next heq =>
    rw [heq] at h
    cases h
  next heq =>
    rw [heq] at h
    cases h
    rfl

theorem runGate_error {ex : ScriptError} (h : (inspectDestination host file s).1 = .error ex) :
    (runGate host file s).1 = .error (.script ex) := by
  unfold runGate
  split
  next heq =>
    rw [heq] at h
    cases h
    rfl
  next heq =>
    rw [heq] at h
    cases h

/-! ## Each exit of the script -/

/-- A script that ended, or was stopped: its active pipeline is judged. -/
theorem verdict_ended (hfile : file.isFile = true)
    (h : (ranScript host file).1 = .ok () ∨ (ranScript host file).1 = .error .runIntercepted) : Verdict host file s := by
  have hgate := runGate_ok (inspectDestination_ended (s := s) hfile h)
  constructor
  · rw [hgate, judge_collects]
    exact ⟨fun hactive => ⟨hfile, h, hactive⟩, Collects.active⟩
  · intro result hresult
    rw [hgate] at hresult
    obtain ⟨rfl, hcollector⟩ := judge_ok hresult
    exact hcollector
  · intro ex hex
    rw [hgate] at hex
    exact judge_error hex
  · rw [runGate_snd]
    exact inspectDestination_left hfile

/-- The gate raises its own error, and the script is no collector. -/
theorem verdict_raises {ex : GateException} (hgate : (runGate host file s).1 = .error ex) (hex : ex.IsGateError)
    (hnot : ¬ Collects host file) (hleft : LeftAsWas s (runGate host file s).2) : Verdict host file s := by
  refine ⟨⟨?_, fun hcollects => absurd hcollects hnot⟩, ?_, ?_, hleft⟩
  · rintro ⟨result, hresult⟩
    rw [hgate] at hresult
    cases hresult
  · intro result hresult
    rw [hgate] at hresult
    cases hresult
  · intro ex' hex'
    rw [hgate] at hex'
    cases hex'
    exact hex

/-- A script that raises is no collector. -/
theorem not_collects {ex : ScriptError} (h : (ranScript host file).1 = .error ex) (hne : ex ≠ .runIntercepted) :
    ¬ Collects host file := by
  rintro ⟨-, hended | hended, -⟩
  · rw [h] at hended
    cases hended
  · rw [h] at hended
    exact hne (Except.error.inj hended)

/-- An existing script: the gate's verdict, on each of its exits. -/
theorem verdict_isFile (hfile : file.isFile = true) :
    Verdict host file s ↔ ∀ text, (ranScript host file).1 ≠ .error (.other text) := by
  have hleft : LeftAsWas s (runGate host file s).2 := by
    rw [runGate_snd]
    exact inspectDestination_left hfile
  cases hran : (ranScript host file).1 with
  | ok u => exact iff_of_true (verdict_ended hfile (.inl hran)) fun text h => by cases h
  | error ex =>
    cases ex with
    | runIntercepted => exact iff_of_true (verdict_ended hfile (.inr hran)) fun text h => by cases h
    | unknownDestinationModule text =>
      -- a destination that does not resolve is rejected as such
      have hgate := runGate_ok (inspectDestination_unresolved (s := s) hfile hran)
      exact iff_of_true (verdict_raises hgate trivial (not_collects hran ScriptError.noConfusion) hleft) fun _ h => by cases h
    | gateError text =>
      have hgate := runGate_error (inspectDestination_raised (s := s) hfile hran ScriptError.noConfusion
        fun _ => ScriptError.noConfusion)
      exact iff_of_true (verdict_raises hgate trivial (not_collects hran ScriptError.noConfusion) hleft) fun _ h => by cases h
    | other text =>
      -- nothing catches this one
      have hgate := runGate_error (inspectDestination_raised (s := s) hfile hran ScriptError.noConfusion
        fun _ => ScriptError.noConfusion)
      exact iff_of_false (fun hverdict => hverdict.raises _ hgate) fun h => h text rfl

/-- A path that is no file: the gate raises its own error, and has not touched the interpreter. -/
theorem verdict_noFile (hfile : file.isFile = false) : Verdict host file s ↔ s.active = none := by
  have hno : ¬ file.isFile = true := by
    rw [hfile]
    exact Bool.noConfusion
  have hinspect : inspectDestination host file s =
      (.ok ({ outcome := .noPipeline, detail := some ("no such file: " ++ host.repr file.path) }, none), s) := by
    unfold inspectDestination
    rw [if_neg hno]
  have hsame : (runGate host file s).2 = s := by rw [runGate_snd, hinspect]
  have hgate := runGate_ok (congrArg Prod.fst hinspect)
  constructor
  · intro hverdict
    rw [← hsame]
    exact hverdict.left.inactive
  · intro hactive
    refine verdict_raises hgate trivial (fun hcollects => hno hcollects.isFile) ?_
    rw [hsame]
    exact ⟨rfl, rfl, hactive⟩

/-- **When the verdict is total and leaves no trace.** For every script and every interpreter: just
if the script ends, is stopped, or raises what the gate turns into its own error. A path that is no
file is rejected before anything is cleaned up. -/
theorem gate_verdict_iff (host : Host) (file : ScriptFile) (s : Interpreter) :
    Verdict host file s ↔ if file.isFile then ∀ text, (ranScript host file).1 ≠ .error (.other text) else s.active = none := by
  cases hfile : file.isFile with
  | true =>
    rw [if_pos rfl]
    exact verdict_isFile hfile
  | false =>
    rw [if_neg Bool.false_ne_true]
    exact verdict_noFile hfile

/-- A script that constructs a pipeline, and then imports a module that is not installed. -/
def importingScript : ScriptFile where
  path := "pipeline.py"
  isFile := true
  body := .construct ordersPipeline (.raises (.other "No module named 'requests'"))
  calls := .ok [⟨some "orders", none⟩]

/-- **What the script raises gets out of the gate.** -/
theorem missing_module :
    let s : Interpreter := ⟨false, some "/home/user/.dlt", none⟩
    (runGate plainHost importingScript s).1 = .error (.script (.other "No module named 'requests'")) ∧
    ¬ Verdict plainHost importingScript s := by
  intro s
  have hgate : (runGate plainHost importingScript s).1 = .error (.script (.other "No module named 'requests'")) := rfl
  exact ⟨hgate, fun hverdict => hverdict.raises _ hgate⟩

end Matterbeam
