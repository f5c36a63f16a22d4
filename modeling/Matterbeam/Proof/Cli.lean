import Matterbeam.Model.Cli
import Matterbeam.Proof.Deploys

/-!
# What the commands say

`deploy`, and `status` for the pid that it has printed, say what is the case on the server, whatever
other pipelines are deployed at the same time.

* `SessionEnd`: how the two commands end.
* `safe_session`: the commands of one user.
* `sessions_truthful`: **what they print is true, and stays true**.
-/

namespace Matterbeam

open Prog MatterbeamCommand

/-- What is printed of a build under way. -/
def stillBuilding (repr : String → String) (pid : String) : String :=
  "still building for pid " ++ repr pid ++ ". Run `dlt matterbeam status " ++ pid ++ "` again shortly."

/-- What `deploy` prints when it has delivered. -/
def deliveredLines (d : Deployment) (res : DeployResult) : List String :=
  [recognized d, "registered pid " ++ d.host.repr res.pid ++ ".", "submitted " ++ toString res.secretCount ++ " secret(s).",
    "uploaded package (content hash " ++ res.packageContentHash ++ ").", "building environment...",
    stillBuilding d.host.repr res.pid]

/-- How `deploy` and `status` end. -/
inductive SessionEnd (d : Deployment) (settings : Settings) (srv : DeployServer) : CommandRun × Option CommandRun → Prop
  /-- The gate has not let the script pass, and nothing is printed. -/
  | rejected (ex : GateException) (h : (runGate d.host d.file d.interpreter).1 = .error ex) :
      SessionEnd d settings srv (⟨[], some (.ofGate ex)⟩, none)
  /-- The deploy has failed on the machine. -/
  | home (failure : DeployFailure) (h : failure.IsHome) :
      SessionEnd d settings srv (⟨[recognized d], some (.of "deploy" failure)⟩, none)
  /-- The deploy has delivered, and there is no URL to ask for the status. -/
  | lost (res : DeployResult) (text : String) (h : HandedOver d.afterGate res srv)
      (hurl : resolveStandaloneCredentials settings = .error text) : SessionEnd d settings srv
        (⟨deliveredLines d res, none⟩, some ⟨[], some (.gateError ("dlt matterbeam status: " ++ text))⟩)
  /-- The deploy has delivered, and the status says the same. -/
  | told (res : DeployResult) (credentials : String × Option String) (h : HandedOver d.afterGate res srv)
      (hurl : resolveStandaloneCredentials settings = .ok credentials) :
      SessionEnd d settings srv (⟨deliveredLines d res, none⟩, some ⟨[stillBuilding d.host.repr res.pid], none⟩)

section

variable {d : Deployment} {settings : Settings} {srv : DeployServer}

theorem printBuildStatus_building (repr : String → String) (pid : String) {status : BuildStatus}
    (h : status.buildStatus = some "building") : printBuildStatus repr pid status = [stillBuilding repr pid] := by
  have hne : (status.buildStatus.filter (· ≠ "")).getD "never_built" = "building" := by
    rw [h]
    rfl
  unfold printBuildStatus
  rw [hne, if_neg (by decide), if_neg (by decide), if_pos rfl]
  rfl

/-- What is printed of a deploy that has delivered. -/
theorem printResult_delivered {res : DeployResult} (hpoll : d.pollMaxAttempts ≠ 0) (h : HandedOver d.afterGate res srv) :
    recognized d :: printResult d.host.repr res = deliveredLines d res := by
  obtain ⟨info, items, built, h⟩ := h
  unfold printResult
  have hstatus : (statusOf res).buildStatus = some "building" := h.status hpoll
  rw [if_pos h.triggered, printBuildStatus_building d.host.repr res.pid hstatus]
  rfl

/-- What has been delivered is there as long as the collector has what it had. -/
theorem HandsOver.at {res : DeployResult} {srv' : DeployServer} {info : CollectorDeployInfo} {items : List SecretItem}
    {built : Package} (h : HandsOver d res info items built srv)
    (hat : At (Server.registryKey info.pipelineName info.datasetName) res.pid (srv.recordOf res.pid) srv') :
    HandsOver d res info items built srv' := by
  obtain ⟨hH, hrecord⟩ := hat
  have hsecrets : srv'.secrets res.pid = srv.secrets res.pid := congrArg PidRecord.secrets hrecord
  refine { h with
    hosted := hH
    secrets := fun name value hget => ?_
    package := (congrArg PidRecord.package hrecord).trans h.package
    building := (congrArg (fun r => r.build.buildStatus) hrecord).trans h.building }
  have hdecrypt := h.secrets name value hget
  unfold DeployServer.decryptSecret at hdecrypt ⊢
  rw [hsecrets]
  exact hdecrypt

/-- The key of a deploy that has delivered. -/
theorem HandsOver.key {res : DeployResult} {info : CollectorDeployInfo} {items : List SecretItem} {built : Package}
    (h : HandsOver d res info items built srv) : d.key = some (Server.registryKey info.pipelineName info.datasetName) := by
  unfold Deployment.key
  rw [h.known]
  rfl

/-- What has been delivered stays. -/
theorem HandedOver.stays {res : DeployResult} {srv' : DeployServer} (h : HandedOver d res srv)
    (hr : (keyPact d.key).rely srv srv') : HandedOver d res srv' := by
  obtain ⟨info, items, built, h⟩ := h
  exact ⟨info, items, built, h.at (At.keep ⟨h.hosted, rfl⟩ (hr _ h.key))⟩

/-! ## One user -/

/-- How `status` ends for what has been delivered. -/
def StatusTold (repr : String → String) (settings : Settings) (pid : String) (asked : CommandRun) : Prop :=
  match resolveStandaloneCredentials settings with
  | .error text => asked = ⟨[], some (.gateError ("dlt matterbeam status: " ++ text))⟩
  | .ok _ => asked = ⟨[stillBuilding repr pid], none⟩

/-- **The status** of a pid that has been delivered. -/
theorem safe_status {res : DeployResult} (repr : String → String) (hS : srv.Sane) (h : HandedOver d res srv) :
    (status repr settings res.pid).Safe deployShared (keyPact d.key)
      (fun asked srv' => HandedOver d res srv' ∧ StatusTold repr settings res.pid asked) srv := by
  obtain ⟨info, items, built, h⟩ := h
  have hat : At (Server.registryKey info.pipelineName info.datasetName) res.pid (srv.recordOf res.pid) srv := ⟨h.hosted, rfl⟩
  rw [h.key]
  unfold status StatusTold
  cases hurl : resolveStandaloneCredentials settings with
  | error text => exact fun srv' _ hr => ⟨⟨info, items, built, h.at (hat.keep (.of_rely hr))⟩, rfl⟩
  | ok credentials =>
    -- no request about a hosted collector is refused
    have hpoll : SafeDeploy _ (fun _ => False) _ (pollBuildStatus res.pid 1 {}) srv :=
      safe_pollBuildStatus (b := True) 1 hS hat h.building fun h0 => absurd h0 one_ne_zero
    refine safe_bind (keyPact_lawful _) hS hpoll fun r srv' _ hr => ?_
    cases r with
    | error e => exact (hr.2 e rfl).elim
    | ok answer =>
      obtain ⟨hat', hstatus⟩ := hr.1 answer rfl
      intro srv₁ _ hr₁
      refine ⟨⟨info, items, built, h.at (hat'.keep (.of_rely hr₁))⟩, ?_⟩
      dsimp only
      rw [printBuildStatus_building repr res.pid (hstatus trivial)]

/-- **The commands of one user**, whatever is done to other collectors. -/
theorem safe_session (d : Deployment) (settings : Settings) (hS : srv.Sane) (hpoll : d.pollMaxAttempts ≠ 0) :
    (session d settings).Safe deployShared (keyPact d.afterGate.key) (fun runs srv' => SessionEnd d settings srv' runs) srv := by
  unfold session MatterbeamCommand.deploy
  cases hgate : (runGate d.host d.file d.interpreter).1 with
  | error ex => exact fun srv' _ _ => .rejected ex hgate
  | ok passed =>
    have hdeploy := safe_deploy d.afterGate hS
    refine safe_bind (keyPact_lawful _) hS (ψ := fun run srv' => (∃ failure : DeployFailure, failure.IsHome ∧
      run = (⟨[recognized d], some (.of "deploy" failure)⟩, none)) ∨ ∃ res, HandedOver d.afterGate res srv' ∧
      run = (⟨deliveredLines d res, none⟩, some res)) ?_ ?_
    · refine safe_bind (keyPact_lawful _) hS hdeploy fun r srv' _ hended => ?_
      cases r with
      | error failure => exact fun _ _ _ => Or.inl ⟨failure, hended.2 failure rfl, rfl⟩
      | ok res =>
        intro srv₁ _ hr₁
        have h := (hended.1 res rfl).stays hr₁
        refine Or.inr ⟨res, h, ?_⟩
        rw [← printResult_delivered hpoll h]
    · rintro run srv' hS' (⟨failure, hhome, rfl⟩ | ⟨res, h, rfl⟩)
      · exact fun _ _ _ => .home failure hhome
      · refine safe_bind (keyPact_lawful _) hS' (safe_status d.host.repr hS' h) fun asked srv'' _ hasked => ?_
        intro srv₁ _ hr₁
        obtain ⟨h'', htold⟩ := hasked
        have h₁ := h''.stays hr₁
        unfold StatusTold at htold
        cases hurl : resolveStandaloneCredentials settings with
        | error text =>
          rw [hurl] at htold
          subst htold
          exact .lost res text h₁ hurl
        | ok credentials =>
          rw [hurl] at htold
          subst htold
          exact .told res credentials h₁ hurl

end

/-! ## Many users -/

variable {ι : Type} [DecidableEq ι]

/-- **What the commands print is true.** Users deploy different pipelines, any number of them, and each
asks for the status of the pid that is printed; they hold the token of the server, and take turns at it in
any order, while it goes on with its other requests. What each of them has seen at the end is true, and
stays true. -/
theorem sessions_truthful (P : Runtime) {srv : DeployServer} (hS : srv.Sane) (users : ι → Deployment × Settings)
    (hkeys : ∀ i j, i ≠ j → ∀ key, (users i).1.afterGate.key = some key → (users j).1.afterGate.key ≠ some key)
    (hpoll : ∀ i, (users i).1.pollMaxAttempts ≠ 0) (es : List (Prog.Event ι Draws Meanwhile))
    (hdrawn : Drawn DeployServer.handle (Meanwhile.apply P) Draws.Ok (srv, fun i => session (users i).1 (users i).2) es)
    (i : ι) {runs : CommandRun × Option CommandRun} (hruns : (sessionsAfter P srv users es).2 i = ret runs) :
    SessionEnd (users i).1 (users i).2 (sessionsAfter P srv users es).1 runs := by
  have hlaw : ∀ i, (keyPact (users i).1.afterGate.key).Lawful := fun i => keyPact_lawful _
  have hsafe : AllSafe deployShared (fun i => keyPact (users i).1.afterGate.key)
      (fun i runs srv' => SessionEnd (users i).1 (users i).2 srv' runs) (sessionsAfter P srv users es) := parallel hlaw
    (fun i j hij s s' _ _ hg k hk => hg k (hkeys i j hij k hk))
    (fun z s hs => ⟨Sane.meanwhile P z hs, fun i k _ => Keeps.meanwhile P z hs k⟩) hdrawn
    ⟨hS, fun i => safe_session (users i).1 (users i).2 hS (hpoll i)⟩
  exact hsafe.ended hlaw hruns

/-- Both users have set the URL and the token of the server. -/
def twoUsers (i : Bool) : Deployment × Settings :=
  (twoDeploys i, ⟨fun _ => some "http://127.0.0.1:8765", fun _ => some Handler.token⟩)

/-- The deploys take turns, and who has deployed the orders asks for their status. -/
def twoAsking : List (Prog.Event Bool Draws Meanwhile) :=
  twoDeploying ++ [.turn true ⟨"", ""⟩]

/-- The status of the orders is told. -/
theorem sessions_truthful_orders : ∃ runs, (sessionsAfter Runtime.plain {} twoUsers twoAsking).2 true = ret runs ∧
    SessionEnd (twoUsers true).1 (twoUsers true).2 (sessionsAfter Runtime.plain {} twoUsers twoAsking).1 runs := by
  have hkeys : ∀ i j, i ≠ j → ∀ key, (twoUsers i).1.afterGate.key = some key →
      (twoUsers j).1.afterGate.key ≠ some key := by
    rintro (_ | _) (_ | _) hij key hi
    all_goals first | exact absurd rfl hij | skip
    all_goals
      rw [← hi]
      decide +kernel
  have hpoll : ∀ i, (twoUsers i).1.pollMaxAttempts ≠ 0 := by decide
  obtain ⟨runs, hruns⟩ : ∃ runs, (sessionsAfter Runtime.plain {} twoUsers twoAsking).2 true = ret runs := ⟨_, rfl⟩
  exact ⟨runs, hruns, sessions_truthful Runtime.plain sane_empty twoUsers hkeys hpoll twoAsking (by decide +kernel) true hruns⟩

end Matterbeam
