import Matterbeam.Proof.OnePipeline

/-!
# Deploys that fail locally

A deploy registers the pipeline before it looks for a local run, and submits its secrets before it
builds the package. What fails then is not undone.

* `Registering`: what a registration does to the server.
* `remote_*`: requests do not fail locally.
* `failed_deploy`: **what a deploy that fails locally leaves on the server**, and when that is
  nothing.
* `adopted_then_failed`: a deploy without a local run that takes over an external collector.
-/

namespace Matterbeam

open Function Prog DeployServer

variable {draws : Draws} {srv srv' : DeployServer}

/-! ## What fails locally -/

/-- There was no local run, or the package could not be built. -/
def DeployFailure.IsLocal : DeployFailure → Prop
  | .noLocalRun _ | .packaging _ => True
  | _ => False

/-- A part of a deploy that does not fail locally. -/
def Remote {α : Type} (p : Deploying α) : Prop := Ends (fun _ => True) (fun _ => True) (fun e => ¬ e.IsLocal) p

theorem Remote.bind {α β : Type} {p : Deploying α} {f : α → Deploying β} (hp : Remote p) (hf : ∀ a, Remote (f a)) :
    Remote (p >>= f) :=
  ends_bind hp fun a _ => hf a

theorem remote_return {α : Type} (a : α) : Remote (return a : Deploying α) := trivial

/-- A bad response is no local failure. -/
theorem raiseForStatus_remote {rq : DeployRequest} {r : DeployResponse} {e : DeployFailure}
    (h : raiseForStatus rq r = .error e) : ¬ e.IsLocal := by
  unfold raiseForStatus at h
  split at h
  · cases h
    exact id
  · cases h

theorem remote_request (rq : DeployRequest) : Remote (Deploying.request rq) := by
  refine ⟨trivial, fun r => ?_⟩
  exact ends_ret.2 ⟨fun _ _ => trivial, fun e he => raiseForStatus_remote he⟩

theorem remote_registerHostedPid (name datasetName : String) : Remote (registerHostedPid name datasetName) := by
  refine (remote_request _).bind fun body => ?_
  split
  · exact remote_return _
  · exact id

theorem remote_createUploadUrl (pid filename : String) : Remote (createUploadUrl pid filename) := by
  refine (remote_request _).bind fun body => ?_
  split
  · exact remote_return _
  · exact id

theorem remote_triggerBuild (pid : String) : Remote (triggerBuild pid) := by
  refine ⟨trivial, fun r => ?_⟩
  simp only [Prog.bind]
  by_cases hr : r.status = 501
  · rw [if_pos hr]
    trivial
  · rw [if_neg hr]
    refine ends_ret.2 ⟨fun _ _ => trivial, fun e he => ?_⟩
    cases hraise : raiseForStatus (.build pid) r with
    | ok body =>
      rw [hraise] at he
      cases he
    | error e' =>
      rw [hraise] at he
      cases he
      exact raiseForStatus_remote hraise

theorem remote_pollBuildStatus (pid : String) (attempts : ℕ) (last : BuildStatus) :
    Remote (pollBuildStatus pid attempts last) := by
  induction attempts generalizing last with
  | zero => exact remote_return _
  | succ attempts ih =>
    refine Remote.bind ((remote_request _).bind fun body => ?_) fun status => ?_
    · split
      · exact remote_return _
      · exact id
    · split
      · exact remote_return _
      · exact ih _

/-- A part that does not fail locally does not end with a local failure. -/
theorem Remote.exec {α : Type} {p : Deploying α} (hp : Remote p) {h : DeployServer → DeployRequest → DeployServer × DeployResponse}
    {e : DeployFailure} (hrun : p.run.exec h srv = (srv', .error e)) : ¬ e.IsLocal := by
  have hend := Spec.exec h hp srv
  rw [hrun] at hend
  exact hend

/-! ## Registration -/

/-- What a collector is and how it runs. -/
def PidItem.kind (item : PidItem) : String × String × String := (item.collectorType, item.execution, item.runtime)

/-- How a hosted collector runs. -/
def hostedKind : String × String × String := ("hosted_dlt", "hosted", "ECS")

/-- The claim key belongs to a collector that is not an external one. -/
def Claimed (srv : DeployServer) (key pid : String) : Prop :=
  srv.base.registry key = some pid ∧ ∃ item, srv.base.pids pid = some item ∧ item.collectorType ≠ "external_dlt"

/-- What a registration does: the claim key belongs to a collector, which is hosted now if it was
external or there was none. -/
structure Registered (srv : DeployServer) (key pid : String) (srv' : DeployServer) : Prop where
  registry : srv'.base.registry = update srv.base.registry key (some pid)
  others : ∀ other, other ≠ pid → srv'.base.pids other = srv.base.pids other
  claimed : Claimed srv key pid → srv'.base.pids pid = srv.base.pids pid
  taken : ¬ Claimed srv key pid → (srv'.base.pids pid).map PidItem.kind = some hostedKind ∧
    (srv.base.registry key = some pid → (srv.base.pids pid).map PidItem.collectorType = some "external_dlt")
  known : (srv'.base.pids pid).isSome = true
  uploaded : srv'.uploadedPackages = srv.uploadedPackages
  secrets : ∀ other, other ≠ pid ∨ srv.base.registry key = some pid → srv'.secrets other = srv.secrets other
  fresh : srv.base.registry key ≠ some pid →
    srv.base.registry key = none ∧ srv.base.pids pid = none ∧ ∀ name, srv'.secrets pid name = none

/-- The server, once a hosted collector has been registered. -/
def afterRegister (srv : DeployServer) (base : Server) (pid : String) (created : Bool) : DeployServer :=
  if created then { srv with base := base, secrets := update srv.secrets pid fun _ => none, builds := update srv.builds pid {} }
  else { srv with base := base }

theorem registry_self {key pid : String} (h : srv.base.registry key = some pid) :
    srv.base.registry = update srv.base.registry key (some pid) :=
  (update_eq_self_iff.2 h.symm).symm

/-- A claim key that is new gets a new collector. -/
theorem registered_new {key pid : String} {item : PidItem} {registry : String → Option String}
    (hkey : srv.base.registry key = none) (hpid : srv.base.pids pid = none) (hkind : item.kind = hostedKind)
    (hregistry : registry = update srv.base.registry key (some pid)) :
    Registered srv key pid
      (afterRegister srv { srv.base with registry := registry, pids := update srv.base.pids pid (some item) } pid true) := by
  have hitem : update srv.base.pids pid (some item) pid = some item := update_self _ _ _
  refine ⟨hregistry, fun other hne => update_of_ne hne _ _, fun h => ?_, fun _ => ⟨?_, fun h => ?_⟩, ?_, rfl,
    fun other hother => ?_, fun _ => ⟨hkey, hpid, fun name => ?_⟩⟩
  · rw [Claimed, hkey] at h
    cases h.1
  · change (update srv.base.pids pid (some item) pid).map _ = _
    rw [hitem, Option.map_some, hkind]
  · rw [hkey] at h
    cases h
  · change (update srv.base.pids pid (some item) pid).isSome = true
    rw [hitem]
    rfl
  · rcases hother with hne | hreg
    · exact update_of_ne hne _ _
    · rw [hkey] at hreg
      cases hreg
  · exact congrFun (update_self pid _ srv.secrets) name

/-- An external collector is adopted in place. -/
theorem registered_adopted {key pid : String} {item item' : PidItem} (hkey : srv.base.registry key = some pid)
    (hpid : srv.base.pids pid = some item) (hext : item.collectorType = "external_dlt") (hkind : item'.kind = hostedKind) :
    Registered srv key pid (afterRegister srv (srv.base.setPid pid item') pid false) := by
  have hitem : update srv.base.pids pid (some item') pid = some item' := update_self _ _ _
  refine ⟨registry_self hkey, fun other hne => update_of_ne hne _ _, fun h => ?_, fun _ => ⟨?_, fun _ => ?_⟩, ?_, rfl,
    fun _ _ => rfl, fun hne => absurd hkey hne⟩
  · -- it was external, so nobody had claimed the key
    obtain ⟨-, known, hknown, hne⟩ := h
    obtain rfl := Option.some.inj (hpid.symm.trans hknown)
    exact absurd hext hne
  · change (update srv.base.pids pid (some item') pid).map _ = _
    rw [hitem, Option.map_some, hkind]
  · rw [hpid, Option.map_some, hext]
  · change (update srv.base.pids pid (some item') pid).isSome = true
    rw [hitem]
    rfl

/-- Any other collector is kept as it is. -/
theorem registered_kept {key pid : String} {item : PidItem} (hkey : srv.base.registry key = some pid)
    (hpid : srv.base.pids pid = some item) (hext : item.collectorType ≠ "external_dlt") :
    Registered srv key pid (afterRegister srv srv.base pid false) := by
  have hclaimed : Claimed srv key pid := ⟨hkey, item, hpid, hext⟩
  have hknown : (srv.base.pids pid).isSome = true := by
    rw [hpid]
    rfl
  exact ⟨registry_self hkey, fun _ _ => rfl, fun _ => rfl, fun h => absurd hclaimed h, hknown, rfl, fun _ _ => rfl,
    fun hne => absurd hkey hne⟩

/-- `register`, for a hosted collector. -/
theorem registered_of_register {name datasetName draw pid : String} {created : Bool} {base : Server}
    (hreg : srv.base.register name datasetName "hosted_dlt" draw = some (base, pid, created))
    (hknown : (base.pids pid).isSome = true) :
    Registered srv (Server.registryKey name datasetName) pid (afterRegister srv base pid created) := by
  unfold Server.register at hreg
  cases hkey : srv.base.registry (Server.registryKey name datasetName) with
  | none =>
    rw [hkey] at hreg
    dsimp only at hreg
    by_cases hdraw : srv.base.freshDraw draw = true
    · rw [if_pos hdraw] at hreg
      cases hreg
      have hnew : srv.base.pids draw = none := by
        unfold Server.freshDraw at hdraw
        simp only [Bool.and_eq_true, Option.isNone_iff_eq_none] at hdraw
        exact hdraw.2
      exact registered_new hkey hnew rfl rfl
    · rw [if_neg hdraw] at hreg
      cases hreg
  | some pid' =>
    rw [hkey] at hreg
    dsimp only at hreg
    cases hpid : srv.base.pids pid' with
    | none =>
      -- such a claim key is no state the server gets into
      rw [hpid] at hreg
      cases hreg
      rw [hpid] at hknown
      cases hknown
    | some item =>
      rw [hpid] at hreg
      dsimp only at hreg
      by_cases hext : item.collectorType = "external_dlt"
      · rw [if_pos ⟨rfl, hext⟩] at hreg
        cases hreg
        exact registered_adopted hkey hpid hext rfl
      · rw [if_neg fun h => hext h.2] at hreg
        cases hreg
        exact registered_kept hkey hpid hext

theorem exec_request (srv : DeployServer) (rq : DeployRequest) :
    (Deploying.request rq).run.exec (handle draws) srv =
      ((handle draws srv rq).1, raiseForStatus rq (handle draws srv rq).2) := rfl

theorem exec_here_ok {α : Type} (srv : DeployServer) (a : α) :
    (Deploying.here (.ok a)).run.exec (handle draws) srv = (srv, .ok a) := rfl

theorem exec_here_error {α : Type} (srv : DeployServer) (e : DeployFailure) :
    (Deploying.here (.error e : Except DeployFailure α)).run.exec (handle draws) srv = (srv, .error e) := rfl

theorem exec_registerHostedPid {name datasetName pid : String}
    (hrun : (registerHostedPid name datasetName).run.exec (handle draws) srv = (srv', .ok pid)) :
    Registered srv (Server.registryKey name datasetName) pid srv' := by
  unfold registerHostedPid at hrun
  have hrq := @exec_request draws srv (.register name datasetName)
  cases hreg : srv.base.register name datasetName "hosted_dlt" draws.pid with
  | none =>
    simp only [handle, hreg] at hrq
    rw [exec_bind_error _ hrq] at hrun
    cases hrun
  | some result =>
    obtain ⟨base, pid', created⟩ := result
    by_cases hnone : (base.pids pid').isNone = true
    · simp only [handle, hreg, if_pos hnone] at hrq
      rw [exec_bind_error _ hrq] at hrun
      cases hrun
    · -- the response is a success
      have hafter : (handle draws srv (.register name datasetName)) =
          (afterRegister srv base pid' created, ⟨200, .registered pid' name created⟩) := by
        simp only [handle, hreg, if_neg hnone, afterRegister]
        split
        · rfl
        · rfl
      rw [hafter] at hrq
      rw [exec_bind_ok _ hrq] at hrun
      cases hrun
      refine registered_of_register hreg ?_
      rw [Option.isSome_iff_ne_none]
      intro hpid
      exact hnone (by rw [hpid]; rfl)

/-! ## Secrets -/

/-- What is stored under a name, once secrets have been submitted. -/
theorem storeSecrets_apply (stored : String → Option String) (secrets : Dict String String) (name : String) :
    storeSecrets stored secrets name = ((secrets.get? name).map encrypt).or (stored name) := by
  obtain ⟨entries, hnodup⟩ := secrets
  unfold storeSecrets Dict.get?
  dsimp only
  induction entries generalizing stored with
  | nil => rfl
  | cons secret entries ih =>
    obtain ⟨name', value⟩ := secret
    obtain ⟨hnew, hrest⟩ := List.nodup_cons.1 hnodup
    rw [List.foldl_cons, ih _ hrest, List.lookup_cons]
    by_cases hname : name = name'
    · subst hname
      have hlookup : entries.lookup name = none :=
        (Dict.get?_eq_none (d := ⟨entries, hrest⟩)).2 hnew
      -- names are stored once, so no later secret has this one
      rw [hlookup, update_self, beq_self_eq_true]
      rfl
    · rw [update_of_ne hname, beq_eq_false_iff_ne.2 hname]

/-- Nothing changes just if all secrets are stored already. -/
theorem storeSecrets_eq_self {stored : String → Option String} {secrets : Dict String String} :
    storeSecrets stored secrets = stored ↔
      ∀ name value, secrets.get? name = some value → stored name = some (encrypt value) := by
  constructor
  · intro h name value hget
    rw [← h, storeSecrets_apply, hget]
    rfl
  · intro h
    funext name
    rw [storeSecrets_apply]
    cases hget : secrets.get? name with
    | none => rfl
    | some value => exact (h name value hget).symm

/-- Submitted secrets are stored, if the collector is known. -/
theorem exec_submitSecrets {pid : String} (secrets : Dict String String) (hknown : (srv.base.pids pid).isSome = true) :
    (submitSecrets pid secrets).run.exec (handle draws) srv =
      ({ srv with secrets := update srv.secrets pid (storeSecrets (srv.secrets pid) secrets) }, .ok ()) := by
  unfold submitSecrets
  split
  · -- no request is made
    rename_i hempty
    have hnone : storeSecrets (srv.secrets pid) secrets = srv.secrets pid := by
      unfold storeSecrets
      rw [List.isEmpty_iff.1 hempty]
      rfl
    rw [hnone, update_eq_self]
    rfl
  · have hrq := @exec_request draws srv (.submitSecrets pid secrets)
    have hsome : ¬ (srv.base.pids pid).isNone = true := by
      rw [Option.isNone_iff_eq_none, ← ne_eq, ← Option.isSome_iff_ne_none]
      exact hknown
    simp only [handle, if_neg hsome] at hrq
    rw [exec_bind_ok _ hrq]
    rfl

/-! ## What is left -/

/-- The server is as it was: its registry, the collectors, their secrets and packages. -/
structure DeployServer.Same (srv srv' : DeployServer) : Prop where
  registry : srv'.base.registry = srv.base.registry
  collectors : ∀ pid, (srv'.base.pids pid).map PidItem.kind = (srv.base.pids pid).map PidItem.kind
  secrets : srv'.secrets = srv.secrets
  uploaded : srv'.uploadedPackages = srv.uploadedPackages

/-- **When a registration and the secrets change nothing**: they were all there. -/
theorem Registered.same_iff {key pid : String} (h : Registered srv key pid srv') (sent : Dict String String) :
    srv.Same { srv' with secrets := update srv'.secrets pid (storeSecrets (srv'.secrets pid) sent) } ↔
      Claimed srv key pid ∧ ∀ name value, sent.get? name = some value → srv.secrets pid name = some (encrypt value) := by
  constructor
  · rintro ⟨hregistry, hcollectors, hsecrets, -⟩
    dsimp only at hregistry hcollectors hsecrets
    -- the key was in the registry already
    have hkey : srv.base.registry key = some pid := by
      have hat := congrFun hregistry key
      rw [h.registry, update_self] at hat
      exact hat.symm
    have hclaimed : Claimed srv key pid := by
      by_contra hnot
      -- the collector was external, and is hosted now
      obtain ⟨hkind, hext⟩ := h.taken hnot
      obtain ⟨item, hitem, htype⟩ := Option.map_eq_some_iff.1 (hext hkey)
      have hsame := hcollectors pid
      rw [hkind, hitem] at hsame
      have hhosted : "hosted_dlt" = item.collectorType := congrArg Prod.fst (Option.some.inj hsame)
      rw [htype] at hhosted
      simp at hhosted
    refine ⟨hclaimed, storeSecrets_eq_self.1 ?_⟩
    have hat := congrFun hsecrets pid
    rwa [update_self, h.secrets pid (Or.inr hkey)] at hat
  · rintro ⟨hclaimed, hstored⟩
    have hkey := hclaimed.1
    refine ⟨h.registry.trans (update_eq_self_iff.2 hkey.symm), fun other => ?_, ?_, h.uploaded⟩
    · dsimp only
      by_cases hne : other = pid
      · rw [hne, h.claimed hclaimed]
      · rw [h.others other hne]
    · -- the collector is not new, so no secrets were forgotten
      have hall : srv'.secrets = srv.secrets := funext fun other => h.secrets other (Or.inr hkey)
      dsimp only
      rw [hall, storeSecrets_eq_self.2 hstored, update_eq_self]

/-- The secrets that have been submitted before a failure. -/
def sentBefore (machine : Local) (file : ScriptFile) : DeployFailure → Dict String String
  | .packaging _ =>
    match recoverSecrets machine file with
    | .ok items => submitted items
    | .error _ => Dict.empty
  | _ => Dict.empty

theorem recoverSecrets_error {machine : Local} {file : ScriptFile} {e : DeployFailure} (h : recoverSecrets machine file = .error e) :
    sentBefore machine file e = Dict.empty := by
  unfold recoverSecrets at h
  split at h
  · cases h
    rfl
  · cases h

theorem buildPackage_error {machine : Local} {file : ScriptFile} {e : DeployFailure} {items : List SecretItem}
    (h : machine.buildPackage = .error e) (hrec : recoverSecrets machine file = .ok items) :
    sentBefore machine file e = submitted items := by
  unfold Local.buildPackage at h
  split at h
  · cases h
    unfold sentBefore
    rw [hrec]
  · cases h

/-- What a deploy leaves that fails locally: the pipeline is registered, and secrets may be stored. -/
theorem exec_deployPipeline {file : ScriptFile} {machine : Local} {info : CollectorDeployInfo} {n : ℕ} {e : DeployFailure}
    (hrun : (deployPipeline machine file info n).run.exec (handle draws) srv = (srv', .error e)) (he : e.IsLocal) :
    ∃ pid srv₁, Registered srv (Server.registryKey info.pipelineName info.datasetName) pid srv₁ ∧
      srv' = { srv₁ with
        secrets := update srv₁.secrets pid (storeSecrets (srv₁.secrets pid) (sentBefore machine file e)) } := by
  unfold deployPipeline at hrun
  obtain ⟨srv₁, r, hreg⟩ : ∃ srv₁ r,
      (registerHostedPid info.pipelineName info.datasetName).run.exec (handle draws) srv = (srv₁, r) := ⟨_, _, rfl⟩
  cases r with
  | error e' =>
    rw [exec_bind_error _ hreg] at hrun
    cases hrun
    -- a registration that fails does not fail locally
    exact absurd he (Remote.exec (remote_registerHostedPid _ _) hreg)
  | ok pid =>
    have hregistered := exec_registerHostedPid hreg
    refine ⟨pid, srv₁, hregistered, ?_⟩
    rw [exec_bind_ok _ hreg] at hrun
    cases hrec : recoverSecrets machine file with
    | error e' =>
      rw [hrec, exec_bind_error _ (exec_here_error srv₁ e')] at hrun
      cases hrun
      -- no secrets were submitted by then
      rw [recoverSecrets_error hrec]
      change srv' = { srv' with secrets := update srv'.secrets pid (srv'.secrets pid) }
      rw [update_eq_self]
    | ok items =>
      rw [hrec, exec_bind_ok _ (exec_here_ok srv₁ items), exec_bind_ok _ (exec_submitSecrets _ hregistered.known)] at hrun
      cases hbuild : machine.buildPackage with
      | error e' =>
        rw [hbuild, exec_bind_error _ (exec_here_error _ e')] at hrun
        cases hrun
        -- the secrets were submitted by then
        rw [buildPackage_error hbuild hrec]
      | ok built =>
        -- what is left to do is on the server
        rw [hbuild, exec_bind_ok _ (exec_here_ok _ built)] at hrun
        refine absurd he (Remote.exec (Remote.bind (remote_createUploadUrl _ _) fun token => ?_) hrun)
        refine Remote.bind (Remote.bind (remote_request _) fun _ => remote_return _) fun _ => ?_
        refine Remote.bind (remote_triggerBuild _) fun triggered => ?_
        split
        · exact Remote.bind (remote_pollBuildStatus _ _ _) fun _ => remote_return _
        · exact Remote.bind (remote_return _) fun _ => remote_return _

/-- **A deploy that fails locally leaves a registration behind.** If there was no local run, or the
package could not be built, then

* the claim key belongs to a collector, as it did before if that was not an external one; else it is
  a hosted one now;
* it has the secrets that had been submitted by then, and those that it had before;
* the rest of the registry, the other collectors, their secrets and all packages are as they were;
* and so is all of it just if the claim key belonged to a collector that was not external, and the
  secrets were stored already. -/
theorem failed_deploy (host : Host) (machine : Local) (file : ScriptFile) (n : ℕ) (s : Interpreter) (draws : Draws)
    (srv srv' : DeployServer) (e : DeployFailure)
    (hrun : (deploy host machine file n s).run.exec (handle draws) srv = (srv', .error e)) (he : e.IsLocal) :
    ∃ info pid, (gatherDeployInfo host file s).1 = .ok info ∧
      let key := Server.registryKey info.pipelineName info.datasetName
      let sent := sentBefore machine file e
      srv'.base.registry = update srv.base.registry key (some pid) ∧
      (Claimed srv key pid → srv'.base.pids pid = srv.base.pids pid) ∧
      (¬ Claimed srv key pid → (srv'.base.pids pid).map PidItem.kind = some hostedKind) ∧
      (∀ name, srv'.secrets pid name = ((sent.get? name).map encrypt).or
        (if srv.base.registry key = some pid then srv.secrets pid name else none)) ∧
      (∀ other, other ≠ pid → srv'.base.pids other = srv.base.pids other ∧ srv'.secrets other = srv.secrets other) ∧
      srv'.uploadedPackages = srv.uploadedPackages ∧
      (srv.Same srv' ↔ Claimed srv key pid ∧
        ∀ name value, sent.get? name = some value → srv.secrets pid name = some (encrypt value)) := by
  unfold deploy at hrun
  cases hinfo : (gatherDeployInfo host file s).1 with
  | error ex =>
    rw [hinfo] at hrun
    cases hrun
    -- the gate has not passed, which is no local failure
    exact absurd he id
  | ok info =>
    rw [hinfo] at hrun
    dsimp only at hrun
    by_cases hurl : info.matterbeamUrl.getD "" = ""
    · -- nor is a destination without a URL
      rw [if_pos hurl] at hrun
      cases hrun
      exact absurd he id
    rw [if_neg hurl] at hrun
    obtain ⟨pid, srv₁, hreg, rfl⟩ := exec_deployPipeline hrun he
    refine ⟨info, pid, rfl, hreg.registry, hreg.claimed, fun h => (hreg.taken h).1, fun name => ?_, fun other hne => ?_,
      hreg.uploaded, ?_⟩
    · change update srv₁.secrets pid _ pid name = _
      rw [update_self, storeSecrets_apply]
      by_cases hkey : srv.base.registry (Server.registryKey info.pipelineName info.datasetName) = some pid
      · rw [if_pos hkey, hreg.secrets pid (Or.inr hkey)]
      · rw [if_neg hkey, (hreg.fresh hkey).2.2 name]
    · refine ⟨hreg.others other hne, ?_⟩
      change update srv₁.secrets pid _ other = _
      rw [update_of_ne hne, hreg.secrets other (Or.inl hne)]
    · exact hreg.same_iff _

/-! ### A deploy without a local run -/

/-- A machine on which no pipeline has run. -/
def neverRan : Local := { bothRan with trace := fun home => .error ("the pipeline " ++ home ++ " was not run") }

/-- A server on which the claim key of the orders belongs to a collector. -/
def claimedServer (item : PidItem) : DeployServer where
  base := {
    pids := update (fun _ => none) "0000orders" (some item)
    registry := update (fun _ => none) (Server.registryKey "orders" "shop") (some "0000orders") }

/-- An external collector that is running. -/
def externalItem : PidItem := ⟨1, 1, .running, "external_dlt", "external", "LAMBDA", 0⟩

/-- A collector that has been deployed before. -/
def hostedItem : PidItem := ⟨1, 1, .listening, "hosted_dlt", "hosted", "ECS", 0⟩

/-- Where the collector is hosted already, a deploy without a local run changes nothing. -/
theorem failed_deploy_hosted : (claimedServer hostedItem).Same
    ((deploy plainHost neverRan ordersScript 5 ⟨false, none, none⟩).run.exec (handle ⟨"", ""⟩) (claimedServer hostedItem)).1 := by
  obtain ⟨info, pid, hinfo, hregistry, -, -, -, -, -, hsame⟩ := failed_deploy plainHost neverRan ordersScript 5
    ⟨false, none, none⟩ ⟨"", ""⟩ (claimedServer hostedItem) _ _ rfl trivial
  obtain rfl : deployInfo ordersPipeline = info := Except.ok.inj hinfo
  have hpid : some "0000orders" = some pid := by
    have hat := congrFun hregistry (Server.registryKey "orders" "shop")
    exact hat.trans (update_self _ _ _)
  obtain rfl := Option.some.inj hpid
  refine hsame.2 ⟨⟨rfl, hostedItem, rfl, by decide⟩, fun name value hget => ?_⟩
  cases hget

/-- **A running external collector is taken over by a deploy that fails.** -/
theorem adopted_then_failed :
    let run := (deploy plainHost neverRan ordersScript 5 ⟨false, none, none⟩).run.exec (handle ⟨"", ""⟩) (claimedServer externalItem)
    (∃ text, run.2 = .error (.noLocalRun text)) ∧
    (run.1.base.pids "0000orders").map PidItem.kind = some ("hosted_dlt", "hosted", "ECS") ∧
    ¬ (claimedServer externalItem).Same run.1 := by
  intro run
  have hkind : (run.1.base.pids "0000orders").map PidItem.kind = some ("hosted_dlt", "hosted", "ECS") := rfl
  refine ⟨⟨_, rfl⟩, hkind, fun hsame => ?_⟩
  have hcollector := hsame.collectors "0000orders"
  rw [hkind] at hcollector
  have htype : "hosted_dlt" = "external_dlt" := congrArg Prod.fst (Option.some.inj hcollector)
  simp at htype

end Matterbeam
