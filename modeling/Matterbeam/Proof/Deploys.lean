import Matterbeam.Model.Deploys
import Matterbeam.Proof.FailedDeploy
import Matterbeam.Proof.Lock

/-!
# Deploys of different pipelines

Deploys of different pipelines leave each other alone, at one time and with everything else that the
server does: each of them ends well unless it fails on its own machine, and what it has delivered
stays.

* `Sane`: registry and collectors fit together.
* `Keeps`: nothing happens to the collector of a claim key.
* `safe_deployPipeline`: a deploy, whatever is done to other collectors.
* `deploys_apart`: **deploys side by side**.
-/

namespace Matterbeam

open Function Prog DeployServer

/-! ## The server -/

/-- How an external collector runs. -/
def externalKind : String × String × String := ("external_dlt", "external", "LAMBDA")

/-- The registry and the collectors fit together. -/
structure DeployServer.Sane (srv : DeployServer) : Prop where
  known : ∀ key pid, srv.base.registry key = some pid →
    ∃ item, srv.base.pids pid = some item ∧ (item.kind = externalKind ∨ item.kind = hostedKind)
  apart : ∀ key key' pid, srv.base.registry key = some pid → srv.base.registry key' = some pid → key = key'

/-- Nothing has happened to the collector of a claim key, if it has one. -/
structure Keeps (key : String) (srv srv' : DeployServer) : Prop where
  registry : ∀ pid, srv.base.registry key = some pid → srv'.base.registry key = some pid
  kind : ∀ pid, srv.base.registry key = some pid → (srv'.base.pids pid).map PidItem.kind = (srv.base.pids pid).map PidItem.kind
  secrets : ∀ pid, srv.base.registry key = some pid → srv'.secrets pid = srv.secrets pid
  uploaded : ∀ pid, srv.base.registry key = some pid → srv'.uploadedPackages pid = srv.uploadedPackages pid
  builds : ∀ pid, srv.base.registry key = some pid → srv'.builds pid = srv.builds pid
  pending : ∀ pid, srv.base.registry key = some pid → ∀ token name, srv.pendingUploads token = some (pid, name) →
    srv'.pendingUploads token = some (pid, name)

theorem Keeps.refl (key : String) (srv : DeployServer) : Keeps key srv srv :=
  ⟨fun _ h => h, fun _ _ => rfl, fun _ _ => rfl, fun _ _ => rfl, fun _ _ => rfl, fun _ _ _ _ h => h⟩

theorem Keeps.trans {key : String} {srv srv' srv'' : DeployServer} (h : Keeps key srv srv') (h' : Keeps key srv' srv'') :
    Keeps key srv srv'' where
  registry pid hp := h'.registry pid (h.registry pid hp)
  kind pid hp := (h'.kind pid (h.registry pid hp)).trans (h.kind pid hp)
  secrets pid hp := (h'.secrets pid (h.registry pid hp)).trans (h.secrets pid hp)
  uploaded pid hp := (h'.uploaded pid (h.registry pid hp)).trans (h.uploaded pid hp)
  builds pid hp := (h'.builds pid (h.registry pid hp)).trans (h.builds pid hp)
  pending pid hp token name ht := h'.pending pid (h.registry pid hp) token name (h.pending pid hp token name ht)

/-! ### What the server does meanwhile -/

/-- What a step does to the collectors that there are: their kind stays. -/
def SameKinds (srv srv' : Server) : Prop := ∀ pid item, srv.pids pid = some item →
  (srv'.pids pid).map PidItem.kind = some item.kind

theorem SameKinds.setPid {srv : Server} {pid : String} {item item' : PidItem} (h : srv.pids pid = some item)
    (hk : item'.kind = item.kind) : SameKinds srv (srv.setPid pid item') := by
  intro p it hp
  unfold Server.setPid
  dsimp only
  by_cases hpp : p = pid
  · subst hpp
    rw [h] at hp
    cases hp
    rw [update_self, Option.map_some, hk]
  · rw [update_of_ne hpp, hp, Option.map_some]

theorem SameKinds.same {srv srv' : Server} (h : srv'.pids = srv.pids) : SameKinds srv srv' := by
  intro p it hp
  rw [h, hp, Option.map_some]

theorem SameKinds.release (srv : Server) (pid : String) (v : ℕ) : SameKinds srv (srv.release pid v) := by
  rcases srv.release_cases pid v with ⟨item, hi, -, he⟩ | ⟨-, he⟩
  · rw [he]
    exact .setPid hi rfl
  · rw [he]
    exact .same rfl

theorem SameKinds.pause (srv : Server) (pid : String) : SameKinds srv (srv.pause pid) := by
  unfold Server.pause
  cases h : srv.pids pid with
  | none => exact .same rfl
  | some item => exact .setPid h rfl

/-- A step of a request keeps the kinds of collectors. -/
theorem Thread.step_kinds (P : Runtime) (inp : Inputs) (srv : Server) (th : Thread) : SameKinds srv (th.step P inp srv).1 := by
  cases th with
  | ingest rq crash pc =>
    have hstep := IngestPc.step_spec rq crash inp srv pc
    change SameKinds srv (pc.step rq crash inp srv).1
    generalize (pc.step rq crash inp srv).1 = srv' at *
    generalize (pc.step rq crash inp srv).2 = pc' at *
    cases hstep with
    | claimed hi hf hs => exact .setPid hi rfl
    | prepared =>
      have halloc : SameKinds srv (srv.allocWriterId rq.pid) := by
        unfold Server.allocWriterId
        cases h : srv.pids rq.pid with
        | none => exact .same rfl
        | some item => exact .setPid h rfl
      intro p it hp
      rw [Server.trackJobArrival_pids]
      exact halloc p it hp
    | released => exact .release _ _ _
    | _ => exact .same rfl
  | put pid doc pc =>
    have hstep := PutPc.step_spec pid doc srv pc
    change SameKinds srv (pc.step pid doc srv).1
    generalize (pc.step pid doc srv).1 = srv' at *
    generalize (pc.step pid doc srv).2 = pc' at *
    cases hstep with
    | claimed hi hf hs => exact .setPid hi rfl
    | released => exact .release _ _ _
    | _ => exact .same rfl
  | once rq answer => cases answer with
    | none =>
      have hstep := onceStep_spec P inp srv rq
      change SameKinds srv (onceStep P inp srv rq).1
      generalize (onceStep P inp srv rq).1 = srv' at *
      generalize (onceStep P inp srv rq).2 = answer at *
      cases hstep with
      | created h hd =>
        intro p it hp
        unfold Server.freshDraw at hd
        simp only [Bool.and_eq_true, Option.isNone_iff_eq_none] at hd
        have hne : p ≠ inp.draw := by
          rintro rfl
          rw [hd.2] at hp
          cases hp
        unfold Server.created
        dsimp only
        rw [update_of_ne hne, hp, Option.map_some]
      | _ => exact .same rfl
    | some a => exact .same rfl

/-- What a step of a request does to the registry: nothing, or it registers a new collector. -/
theorem Thread.step_registers (P : Runtime) (inp : Inputs) (srv : Server) (th : Thread) :
    (th.step P inp srv).1.registry = srv.registry ∨
      ∃ key pid, srv.registry key = none ∧ srv.pids pid = none ∧ (th.step P inp srv).1 = srv.created key pid := by
  cases th with
  | ingest rq crash pc => exact Or.inl (pc.step_spec rq crash inp srv).rolls.registry
  | put pid doc pc => exact Or.inl (pc.step_spec pid doc srv).rolls.registry
  | once rq answer => cases answer with
    | none =>
      have hstep := onceStep_spec P inp srv rq
      change (onceStep P inp srv rq).1.registry = _ ∨ ∃ key pid, _ ∧ _ ∧ (onceStep P inp srv rq).1 = _
      generalize (onceStep P inp srv rq).1 = srv' at *
      generalize (onceStep P inp srv rq).2 = answer at *
      cases hstep with
      | created h hd =>
        unfold Server.freshDraw at hd
        simp only [Bool.and_eq_true, Option.isNone_iff_eq_none] at hd
        exact Or.inr ⟨_, _, h, hd.2, rfl⟩
      | _ => exact Or.inl rfl
    | some a => exact Or.inl rfl

/-- What else the server does to its registry. -/
theorem Meanwhile.registers (P : Runtime) (z : Meanwhile) (srv : DeployServer) :
    (z.apply P srv).base.registry = srv.base.registry ∨ ∃ key pid, srv.base.registry key = none ∧
      srv.base.pids pid = none ∧ (z.apply P srv).base = srv.base.created key pid := by
  cases z with
  | step th inp => exact th.step_registers P inp srv.base
  | pause pid => exact Or.inl (SameRolls.pause srv.base pid).registry

/-- What else happens on the server touches no deploy. -/
theorem Keeps.meanwhile (P : Runtime) (z : Meanwhile) {srv : DeployServer} (hS : srv.Sane) (key : String) :
    Keeps key srv (z.apply P srv) := by
  have hkinds : SameKinds srv.base (z.apply P srv).base := by
    cases z with
    | step th inp => exact th.step_kinds P inp srv.base
    | pause pid => exact .pause srv.base pid
  refine ⟨fun pid hp => ?_, fun pid hp => ?_, ?_, ?_, ?_, ?_⟩
  · rcases z.registers P srv with he | ⟨key', pid', hnone, -, he⟩
    · rw [he, hp]
    · have hne : key ≠ key' := by
        rintro rfl
        rw [hp] at hnone
        cases hnone
      rw [he, Server.created]
      dsimp only
      rw [update_of_ne hne, hp]
  · obtain ⟨item, hi, -⟩ := hS.known key pid hp
    rw [hkinds pid item hi, hi, Option.map_some]
  all_goals cases z
  all_goals first | exact fun _ _ => rfl | exact fun _ _ _ _ h => h

/-- A new collector has a pid that is that of no other. -/
theorem Sane.enter {srv srv' : DeployServer} (hS : srv.Sane) {key pid : String} (hpid : srv.base.pids pid = none)
    (hreg : srv'.base.registry = update srv.base.registry key (some pid))
    (hkeep : ∀ key', Keeps key' srv srv' ∨ key' = key)
    (hnew : ∃ item, srv'.base.pids pid = some item ∧ (item.kind = externalKind ∨ item.kind = hostedKind)) : srv'.Sane := by
  have hunknown : ∀ key' : String, srv.base.registry key' ≠ some pid := by
    intro key' h
    obtain ⟨item, hi, -⟩ := hS.known key' pid h
    rw [hpid] at hi
    cases hi
  refine ⟨fun key' pid' h => ?_, fun key₁ key₂ pid' h₁ h₂ => ?_⟩
  · by_cases hk : key' = key
    · subst hk
      rw [hreg, update_self] at h
      cases h
      exact hnew
    · rw [hreg, update_of_ne hk] at h
      obtain ⟨item, hi, hkind⟩ := hS.known key' pid' h
      have hsame := ((hkeep key').resolve_right hk).kind pid' h
      rw [hi, Option.map_some] at hsame
      obtain ⟨item', hi', hk'⟩ := Option.map_eq_some_iff.1 hsame
      exact ⟨item', hi', hk' ▸ hkind⟩
  · rw [hreg] at h₁ h₂
    by_cases hk₁ : key₁ = key <;> by_cases hk₂ : key₂ = key
    · rw [hk₁, hk₂]
    · rw [hk₁, update_self] at h₁
      rw [update_of_ne hk₂] at h₂
      cases h₁
      exact absurd h₂ (hunknown key₂)
    · rw [hk₂, update_self] at h₂
      rw [update_of_ne hk₁] at h₁
      cases h₂
      exact absurd h₁ (hunknown key₁)
    · rw [update_of_ne hk₁] at h₁
      rw [update_of_ne hk₂] at h₂
      exact hS.apart key₁ key₂ pid' h₁ h₂

/-- A server on which the registry and the kinds of collectors have stayed is still sane. -/
theorem Sane.keep {srv srv' : DeployServer} (hS : srv.Sane) (hreg : srv'.base.registry = srv.base.registry)
    (hkeep : ∀ key, Keeps key srv srv') : srv'.Sane := by
  refine ⟨fun key pid h => ?_, fun key key' pid h h' => hS.apart key key' pid (hreg ▸ h) (hreg ▸ h')⟩
  rw [hreg] at h
  obtain ⟨item, hi, hkind⟩ := hS.known key pid h
  have hsame := (hkeep key).kind pid h
  rw [hi, Option.map_some] at hsame
  obtain ⟨item', hi', hk'⟩ := Option.map_eq_some_iff.1 hsame
  exact ⟨item', hi', hk' ▸ hkind⟩

/-- What else happens keeps the server sane. -/
theorem Sane.meanwhile (P : Runtime) (z : Meanwhile) {srv : DeployServer} (hS : srv.Sane) : (z.apply P srv).Sane := by
  have hkeep := Keeps.meanwhile P z hS
  rcases z.registers P srv with he | ⟨key, pid, hnone, hpid, he⟩
  · exact Sane.keep hS he hkeep
  · refine Sane.enter hS hpid (by rw [he]; rfl) (fun key' => Or.inl (hkeep key')) ⟨PidItem.fresh, ?_, Or.inl rfl⟩
    rw [he]
    exact update_self _ _ _

/-! ## The steps of a deploy -/

/-- The claim key belongs to the pid, which is that of a hosted collector. -/
structure Hosted (key pid : String) (srv : DeployServer) : Prop where
  registry : srv.base.registry key = some pid
  kind : (srv.base.pids pid).map PidItem.kind = some hostedKind

theorem Hosted.keep {key pid : String} {srv srv' : DeployServer} (h : Hosted key pid srv) (hk : Keeps key srv srv') :
    Hosted key pid srv' :=
  ⟨hk.registry pid h.registry, (hk.kind pid h.registry).trans h.kind⟩

theorem Hosted.known {key pid : String} {srv : DeployServer} (h : Hosted key pid srv) : ¬ (srv.base.pids pid).isNone = true := by
  obtain ⟨item, hi, -⟩ := Option.map_eq_some_iff.1 h.kind
  rw [hi]
  exact Bool.false_ne_true

/-- What deploys have left of a pid. -/
structure PidRecord where
  secrets : String → Option String
  package : Option Package
  build : BuildStatus

def DeployServer.recordOf (srv : DeployServer) (pid : String) : PidRecord :=
  ⟨srv.secrets pid, srv.uploadedPackages pid, srv.builds pid⟩

/-- The pid of the claim key is that of a hosted collector, and this is what deploys have left of it. -/
def At (key pid : String) (r : PidRecord) (srv : DeployServer) : Prop := Hosted key pid srv ∧ srv.recordOf pid = r

theorem At.keep {key pid : String} {r : PidRecord} {srv srv' : DeployServer} (h : At key pid r srv) (hk : Keeps key srv srv') :
    At key pid r srv' := by
  refine ⟨h.1.keep hk, ?_⟩
  rw [← h.2]
  unfold DeployServer.recordOf
  rw [hk.secrets pid h.1.registry, hk.uploaded pid h.1.registry, hk.builds pid h.1.registry]

/-- Nothing is touched but what there is of one pid. -/
structure Touches (pid : String) (srv srv' : DeployServer) : Prop where
  base : srv'.base = srv.base
  secrets : ∀ p, p ≠ pid → srv'.secrets p = srv.secrets p
  uploaded : ∀ p, p ≠ pid → srv'.uploadedPackages p = srv.uploadedPackages p
  builds : ∀ p, p ≠ pid → srv'.builds p = srv.builds p
  pending : ∀ p token name, p ≠ pid → srv.pendingUploads token = some (p, name) → srv'.pendingUploads token = some (p, name)

theorem Touches.sane {pid : String} {srv srv' : DeployServer} (h : Touches pid srv srv') (hS : srv.Sane) : srv'.Sane := by
  refine ⟨?_, ?_⟩
  · rw [h.base]
    exact hS.known
  · rw [h.base]
    exact hS.apart

/-- What there is of other claim keys is kept. -/
theorem Touches.keeps {pid key : String} {srv srv' : DeployServer} (h : Touches pid srv srv') (hS : srv.Sane)
    (hp : srv.base.registry key = some pid) {k : String} (hk : k ≠ key) : Keeps k srv srv' := by
  have hne : ∀ p, srv.base.registry k = some p → p ≠ pid := by
    rintro p hkp rfl
    exact hk (hS.apart k key p hkp hp)
  exact ⟨fun p hkp => by rw [h.base]; exact hkp, fun p _ => by rw [h.base], fun p hkp => h.secrets p (hne p hkp),
    fun p hkp => h.uploaded p (hne p hkp), fun p hkp => h.builds p (hne p hkp),
    fun p hkp token name => h.pending p token name (hne p hkp)⟩

section

variable {srv : DeployServer} {draws : Draws} {name datasetName : String}

/-- The item of a new hosted collector. -/
def PidItem.hosted : PidItem := ⟨1, 1, .listening, "hosted_dlt", "hosted", "ECS", 0⟩

/-- The item of an external collector that is adopted. -/
def PidItem.adopted (item : PidItem) : PidItem :=
  { item with collectorType := "hosted_dlt", execution := "hosted", runtime := "ECS" }

/-- The server with a new hosted collector. -/
def DeployServer.enter (srv : DeployServer) (key pid : String) : DeployServer :=
  { srv with
    base := { srv.base with
      registry := update srv.base.registry key (some pid)
      pids := update srv.base.pids pid (some PidItem.hosted) }
    secrets := update srv.secrets pid fun _ => none
    builds := update srv.builds pid {} }

/-- The server with an adopted collector. -/
def DeployServer.adopt (srv : DeployServer) (pid : String) (item : PidItem) : DeployServer :=
  { srv with base := srv.base.setPid pid item.adopted }

/-- A claim key that is new. -/
theorem handle_register_new (hkey : srv.base.registry (Server.registryKey name datasetName) = none)
    (hfresh : srv.base.freshDraw draws.pid = true) : handle draws srv (.register name datasetName) =
      (srv.enter (Server.registryKey name datasetName) draws.pid, ⟨200, .registered draws.pid name true⟩) := by
  simp [handle, Server.register, hkey, hfresh, DeployServer.enter, PidItem.hosted]

/-- A claim key of a collector. -/
theorem handle_register_known (draws : Draws) {pid : String} {item : PidItem}
    (hkey : srv.base.registry (Server.registryKey name datasetName) = some pid) (hpid : srv.base.pids pid = some item) :
    handle draws srv (.register name datasetName) =
      (if item.collectorType = "external_dlt" then srv.adopt pid item else srv,
        ⟨200, .registered pid name false⟩) := by
  unfold handle Server.register
  dsimp only
  rw [hkey]
  dsimp only
  rw [hpid]
  by_cases hext : item.collectorType = "external_dlt"
  · simp [hext, Server.setPid, DeployServer.adopt, PidItem.adopted]
  · simp [hext, hpid]

/-- What there is of other claim keys is kept when a collector is entered. -/
theorem Keeps.enter (hS : srv.Sane) {key pid k : String} (hpid : srv.base.pids pid = none) (hk : k ≠ key) :
    Keeps k srv (srv.enter key pid) := by
  have hne : ∀ p, srv.base.registry k = some p → p ≠ pid := by
    rintro p hp rfl
    obtain ⟨item, hi, -⟩ := hS.known k _ hp
    rw [hpid] at hi
    cases hi
  exact ⟨fun p hp => (update_of_ne hk _ _).trans hp,
    fun p hp => congrArg (Option.map PidItem.kind) (update_of_ne (hne p hp) _ _),
    fun p hp => update_of_ne (hne p hp) _ _, fun _ _ => rfl, fun p hp => update_of_ne (hne p hp) _ _, fun _ _ _ _ h => h⟩

/-- What there is of other claim keys is kept when a collector is adopted. -/
theorem Keeps.adopt (hS : srv.Sane) {key pid k : String} (item : PidItem) (hkey : srv.base.registry key = some pid)
    (hk : k ≠ key) : Keeps k srv (srv.adopt pid item) := by
  have hne : ∀ p, srv.base.registry k = some p → p ≠ pid := by
    rintro p hp rfl
    exact hk (hS.apart k key p hp hkey)
  exact ⟨fun _ h => h, fun p hp => congrArg (Option.map PidItem.kind) (update_of_ne (hne p hp) _ _), fun _ _ => rfl,
    fun _ _ => rfl, fun _ _ => rfl, fun _ _ _ _ h => h⟩

/-- **A registration** answers with the pid of a hosted collector, and touches no other claim key. -/
theorem handle_register (hS : srv.Sane) (hfresh : srv.base.freshDraw draws.pid = true) : ∃ srv' pid created,
    handle draws srv (.register name datasetName) = (srv', ⟨200, .registered pid name created⟩) ∧
    Hosted (Server.registryKey name datasetName) pid srv' ∧
    (∀ k, k ≠ Server.registryKey name datasetName → Keeps k srv srv') ∧ srv'.Sane := by
  cases hkey : srv.base.registry (Server.registryKey name datasetName) with
  | none =>
    have hnew : srv.base.pids draws.pid = none := by
      unfold Server.freshDraw at hfresh
      simp only [Bool.and_eq_true, Option.isNone_iff_eq_none] at hfresh
      exact hfresh.2
    have hself : (srv.enter (Server.registryKey name datasetName) draws.pid).base.pids draws.pid = some PidItem.hosted :=
      update_self _ _ _
    refine ⟨_, _, _, handle_register_new hkey hfresh, ⟨update_self _ _ _, ?_⟩, fun k hk => Keeps.enter hS hnew hk, ?_⟩
    · rw [hself]
      rfl
    · refine Sane.enter hS hnew rfl (fun k => ?_) ⟨PidItem.hosted, hself, Or.inr rfl⟩
      by_cases hk : k = Server.registryKey name datasetName
      · exact Or.inr hk
      · exact Or.inl (Keeps.enter hS hnew hk)
  | some pid =>
    obtain ⟨item, hi, hkind⟩ := hS.known _ pid hkey
    by_cases hext : item.collectorType = "external_dlt"
    · have hself : (srv.adopt pid item).base.pids pid = some item.adopted := update_self _ _ _
      have hhandle := handle_register_known draws hkey hi
      rw [if_pos hext] at hhandle
      refine ⟨_, _, _, hhandle, ⟨hkey, by rw [hself]; rfl⟩, fun k hk => Keeps.adopt hS item hkey hk, ⟨fun k p hp => ?_, hS.apart⟩⟩
      by_cases hp' : p = pid
      · subst hp'
        exact ⟨_, hself, Or.inr rfl⟩
      · obtain ⟨it, hit, hkit⟩ := hS.known k p hp
        exact ⟨it, (update_of_ne hp' _ _).trans hit, hkit⟩
    · have hhandle := handle_register_known draws hkey hi
      rw [if_neg hext] at hhandle
      refine ⟨_, _, _, hhandle, ⟨hkey, ?_⟩, fun k _ => Keeps.refl k srv, hS⟩
      rw [hi, Option.map_some]
      rcases hkind with hk | hk
      · exact absurd (congrArg Prod.fst hk) hext
      · rw [hk]

end

/-! ## One deploy -/

/-- The deploys share the server. -/
def deployShared : Shared DeployRequest DeployResponse DeployServer Draws := ⟨handle, Draws.Ok, Sane⟩

/-- A deploy relies on its own claim key being left alone, and leaves all others alone. -/
def keyPact (key : Option String) : Pact DeployServer where
  rely srv srv' := ∀ k, key = some k → Keeps k srv srv'
  guar srv srv' := ∀ k, key ≠ some k → Keeps k srv srv'

theorem keyPact_lawful (key : Option String) : (keyPact key).Lawful :=
  ⟨fun srv k _ => Keeps.refl k srv, fun h h' k hk => (h k hk).trans (h' k hk)⟩

/-- The failure is one of the machine at which the deploy was started. -/
def DeployFailure.IsHome : DeployFailure → Prop
  | badResponse _ => False
  | _ => True

/-- A part of a deploy that is safe, with a good end or a failure of the kind that is let pass. -/
abbrev SafeDeploy (key : String) (fail : DeployFailure → Prop) {α : Type} (ψ : α → DeployServer → Prop) (p : Deploying α)
    (srv : DeployServer) : Prop :=
  p.run.Safe deployShared (keyPact (some key)) (Ended ψ fail) srv

section

variable {key pid : String} {fail : DeployFailure → Prop} {srv : DeployServer}

theorem Keeps.of_rely {srv' : DeployServer} (h : (keyPact (some key)).rely srv srv') : Keeps key srv srv' := h key rfl

/-- A request that is answered well. -/
theorem safe_request {rq : DeployRequest} {ψ : DeployBody → DeployServer → Prop}
    (h : ∀ srv', srv'.Sane → Keeps key srv srv' → ∀ draws, Draws.Ok srv' draws rq → ∃ srv'' body,
      handle draws srv' rq = (srv'', ⟨200, body⟩) ∧ (∀ k, k ≠ key → Keeps k srv' srv'') ∧ srv''.Sane ∧
      ∀ srv₁, Keeps key srv'' srv₁ → ψ body srv₁) : SafeDeploy key fail ψ (Deploying.request rq) srv := by
  intro srv' hS hr draws hok
  obtain ⟨srv'', body, hhandle, hk, hS', hψ⟩ := h srv' hS (.of_rely hr) draws hok
  simp only [deployShared, hhandle]
  refine ⟨fun k hne => hk k fun he => hne (congrArg some he.symm), hS', fun srv₁ _ hr₁ => ?_⟩
  exact ended_ok (hψ srv₁ (.of_rely hr₁))

/-- **Registration.** -/
theorem safe_registerHostedPid {name datasetName : String} (hS : srv.Sane) :
    SafeDeploy (Server.registryKey name datasetName) fail (fun pid srv' => ∃ r, At (Server.registryKey name datasetName) pid r srv')
      (registerHostedPid name datasetName) srv := by
  refine safe_bind_ok (keyPact_lawful _) hS (safe_request (ψ := fun body srv' => ∃ pid created r,
    body = .registered pid name created ∧ At (Server.registryKey name datasetName) pid r srv') ?_) ?_
  · intro srv' hS' _ draws hfresh
    obtain ⟨srv'', pid, created, hhandle, hH, hk, hS''⟩ := handle_register hS' hfresh
    exact ⟨srv'', _, hhandle, hk, hS'', fun srv₁ hk₁ => ⟨pid, created, _, rfl, At.keep ⟨hH, rfl⟩ hk₁⟩⟩
  · rintro body srv' _ ⟨pid, created, r, rfl, hat⟩
    exact safe_return fun srv₁ _ hr => ⟨r, hat.keep (.of_rely hr)⟩

variable {r r' : PidRecord}

/-- A request about the pid of the claim key, which makes `r` of it `r'`. -/
theorem safe_own (r' : PidRecord) {rq : DeployRequest} {ψ : DeployBody → DeployServer → Prop} (hat : At key pid r srv)
    (h : ∀ srv', Keeps key srv srv' → At key pid r srv' → ∀ draws, Draws.Ok srv' draws rq → ∃ srv'' body,
      handle draws srv' rq = (srv'', ⟨200, body⟩) ∧ Touches pid srv' srv'' ∧ srv''.recordOf pid = r' ∧
      ∀ srv₁, Keeps key srv'' srv₁ → At key pid r' srv₁ → ψ body srv₁) : SafeDeploy key fail ψ (Deploying.request rq) srv := by
  refine safe_request fun srv' hS hk draws hok => ?_
  obtain ⟨srv'', body, hhandle, htouch, hrec, hψ⟩ := h srv' hk (hat.keep hk) draws hok
  have hH := (hat.keep hk).1
  have hat' : At key pid r' srv'' := ⟨⟨htouch.base ▸ hH.registry, htouch.base ▸ hH.kind⟩, hrec⟩
  exact ⟨srv'', body, hhandle, fun k hne => htouch.keeps hS hH.registry hne, htouch.sane hS,
    fun srv₁ hk₁ => hψ srv₁ hk₁ (hat'.keep hk₁)⟩

/-- **Secrets.** -/
theorem safe_submitSecrets (sent : Dict String String) (hS : srv.Sane) (hat : At key pid r srv) :
    SafeDeploy key fail (fun _ srv' => At key pid { r with secrets := storeSecrets r.secrets sent } srv')
      (submitSecrets pid sent) srv := by
  unfold submitSecrets
  split
  · -- no request is made
    rename_i hempty
    have hnone : storeSecrets r.secrets sent = r.secrets := by
      unfold storeSecrets
      rw [List.isEmpty_iff.1 hempty]
      rfl
    rw [hnone]
    exact safe_return fun srv₁ _ hr => hat.keep (.of_rely hr)
  · refine safe_bind_ok (keyPact_lawful _) hS (safe_own { r with secrets := storeSecrets r.secrets sent }
      (ψ := fun _ srv' => At key pid { r with secrets := storeSecrets r.secrets sent } srv') hat ?_)
      fun _ srv' _ h => safe_return fun srv₁ _ hr => h.keep (.of_rely hr)
    intro srv' _ hat' draws _
    have hknown := hat'.1.known
    refine ⟨{ srv' with secrets := update srv'.secrets pid (storeSecrets (srv'.secrets pid) sent) }, .ok,
      by simp only [handle, if_neg hknown], ?_, ?_, fun srv₁ _ hat₁ => hat₁⟩
    · exact ⟨rfl, fun p hp => update_of_ne hp _ _, fun _ _ => rfl, fun _ _ => rfl, fun _ _ _ _ h => h⟩
    · rw [← hat'.2]
      unfold DeployServer.recordOf
      dsimp only
      rw [update_self]

/-- **The upload.** -/
theorem safe_createUploadUrl (filename : String) (hS : srv.Sane) (hat : At key pid r srv) :
    SafeDeploy key fail (fun token srv' => At key pid r srv' ∧ ∃ name, srv'.pendingUploads token = some (pid, name))
      (createUploadUrl pid filename) srv := by
  refine safe_bind_ok (keyPact_lawful _) hS (safe_own r (ψ := fun body srv' => ∃ token name,
    body = .uploadUrl token name ∧ At key pid r srv' ∧ srv'.pendingUploads token = some (pid, name)) hat ?_) ?_
  · intro srv' _ hat' draws hfree
    have hknown := hat'.1.known
    let name := "deployments/dlt/" ++ pid ++ "/" ++ filename
    refine ⟨{ srv' with pendingUploads := update srv'.pendingUploads draws.token (some (pid, name)) },
      .uploadUrl draws.token name, (by simp only [handle, if_neg hknown]; rfl), ?_, hat'.2,
      fun srv₁ hk₁ hat₁ => ⟨_, _, rfl, hat₁, ?_⟩⟩
    · refine ⟨rfl, fun _ _ => rfl, fun _ _ => rfl, fun _ _ => rfl, fun p token name _ ht => ?_⟩
      -- no token is granted that is pending
      have hne : token ≠ draws.token := by
        rintro rfl
        rw [show srv'.pendingUploads draws.token = none from hfree] at ht
        cases ht
      exact (update_of_ne hne _ _).trans ht
    · exact hk₁.pending pid hat'.1.registry _ _ (update_self _ _ _)
  · rintro body srv' _ ⟨token, name, rfl, hat', hpending⟩
    exact safe_return fun srv₁ _ hr => ⟨hat'.keep (.of_rely hr), name,
      (Keeps.of_rely hr).pending pid hat'.1.registry token name hpending⟩

theorem safe_uploadPackage {token : String} (package : Package) (hS : srv.Sane) (hat : At key pid r srv)
    (ht : ∃ name, srv.pendingUploads token = some (pid, name)) :
    SafeDeploy key fail (fun _ srv' => At key pid { r with package := some package } srv') (uploadPackage token package) srv := by
  obtain ⟨name, ht⟩ := ht
  refine safe_bind_ok (keyPact_lawful _) hS (safe_own { r with package := some package }
    (ψ := fun _ srv' => At key pid { r with package := some package } srv') hat ?_)
    fun _ srv' _ h => safe_return fun srv₁ _ hr => h.keep (.of_rely hr)
  intro srv' hk hat' draws _
  have ht' := hk.pending pid hat.1.registry token name ht
  refine ⟨{ srv' with
      pendingUploads := update srv'.pendingUploads token none
      uploadedPackages := update srv'.uploadedPackages pid (some package) }, .ok,
    by simp only [handle, ht'], ?_, ?_, fun srv₁ _ hat₁ => hat₁⟩
  · refine ⟨rfl, fun _ _ => rfl, fun p hp => update_of_ne hp _ _, fun _ _ => rfl, fun p token' name' hp htoken => ?_⟩
    -- the token is that of another pid
    have hne : token' ≠ token := by
      rintro rfl
      rw [ht'] at htoken
      cases htoken
      exact hp rfl
    exact (update_of_ne hne _ _).trans htoken
  · rw [← hat'.2]
    unfold DeployServer.recordOf
    dsimp only
    rw [update_self]

/-- A build that has been started. -/
def BuildStatus.started (b : BuildStatus) : BuildStatus := { b with buildStatus := some "building", buildError := none }

/-- **The build.** -/
theorem safe_triggerBuild (hat : At key pid r srv) :
    SafeDeploy key fail (fun triggered srv' => triggered = true ∧ At key pid { r with build := r.build.started } srv')
      (triggerBuild pid) srv := by
  intro srv' hS hr draws _
  have hat' := hat.keep (.of_rely hr)
  have hknown := hat'.1.known
  have hhandle : handle draws srv' (.build pid) =
      ({ srv' with builds := update srv'.builds pid (srv'.builds pid).started }, ⟨200, .ok⟩) := by
    simp only [handle, if_neg hknown]
    rfl
  have htouch : Touches pid srv' { srv' with builds := update srv'.builds pid (srv'.builds pid).started } :=
    ⟨rfl, fun _ _ => rfl, fun _ _ => rfl, fun p hp => update_of_ne hp _ _, fun _ _ _ _ h => h⟩
  have hstarted : At key pid { r with build := r.build.started }
      { srv' with builds := update srv'.builds pid (srv'.builds pid).started } := by
    refine ⟨⟨hat'.1.registry, hat'.1.kind⟩, ?_⟩
    rw [← hat'.2]
    unfold DeployServer.recordOf
    dsimp only
    rw [update_self]
  simp only [deployShared, hhandle]
  refine ⟨fun k hne => htouch.keeps hS hat'.1.registry fun he => hne (congrArg some he.symm), htouch.sane hS, ?_⟩
  exact fun srv₁ _ hr₁ => ended_ok ⟨rfl, hstarted.keep (.of_rely hr₁)⟩

theorem safe_getBuildStatus {state : String} (hS : srv.Sane) (hat : At key pid r srv) (hb : r.build.buildStatus = some state) :
    SafeDeploy key fail (fun status srv' => At key pid r srv' ∧ status.buildStatus = some state) (getBuildStatus pid) srv := by
  refine safe_bind_ok (keyPact_lawful _) hS (safe_own r (ψ := fun body srv' => ∃ status, body = .status status ∧
    At key pid r srv' ∧ status.buildStatus = some state) hat ?_) ?_
  · intro srv' _ hat' draws _
    have hknown := hat'.1.known
    have hb' : (srv'.builds pid).buildStatus = some state := by
      rw [← hb, ← hat'.2]
      rfl
    refine ⟨srv', .status { srv'.builds pid with buildStatus := some ((srv'.builds pid).buildStatus.getD "never_built") },
      by simp only [handle, if_neg hknown], ?_, hat'.2, fun srv₁ _ hat₁ => ⟨_, rfl, hat₁, ?_⟩⟩
    · exact ⟨rfl, fun _ _ => rfl, fun _ _ => rfl, fun _ _ => rfl, fun _ _ _ _ h => h⟩
    · rw [hb', Option.getD_some]
  · rintro body srv' _ ⟨status, rfl, hat', hstatus⟩
    exact safe_return fun srv₁ _ hr => ⟨hat'.keep (.of_rely hr), hstatus⟩

/-- A build that is under way is polled to the last attempt. -/
theorem safe_pollBuildStatus (attempts : ℕ) {last : BuildStatus} {b : Prop} (hS : srv.Sane) (hat : At key pid r srv)
    (hb : r.build.buildStatus = some "building") (hlast : attempts = 0 → b → last.buildStatus = some "building") :
    SafeDeploy key fail (fun status srv' => At key pid r srv' ∧ (b → status.buildStatus = some "building"))
      (pollBuildStatus pid attempts last) srv := by
  induction attempts generalizing srv last with
  | zero => exact safe_return fun srv₁ _ hr => ⟨hat.keep (.of_rely hr), hlast rfl⟩
  | succ attempts ih =>
    refine safe_bind_ok (keyPact_lawful _) hS (safe_getBuildStatus hS hat hb) fun status srv' hS' h => ?_
    obtain ⟨hat', hstatus⟩ := h
    rw [if_neg (by rw [hstatus]; decide)]
    exact ih hS' hat' fun _ _ => hstatus

end

/-! ## What a deploy delivers -/

/-- A secret that is stored is recovered. -/
theorem decryptSecret_encrypt {srv : DeployServer} {pid name value : String} (h : srv.secrets pid name = some (encrypt value)) :
    srv.decryptSecret pid name = .ok (some value) := by
  unfold DeployServer.decryptSecret encrypt at *
  rw [h]
  have hlen : "encrypted:".length = "encrypted:".toList.length := rfl
  simp only [String.toList_append, List.prefix_append, if_true, hlen, List.drop_left, String.ofList_toList]

/-- What a deploy has delivered: the pipeline's collector is a hosted one, which has all that was
recovered of the secrets, the package that was built on the machine, and a build under way. -/
structure HandsOver (d : Deployment) (res : DeployResult) (info : CollectorDeployInfo) (items : List SecretItem)
    (built : Package) (srv : DeployServer) : Prop where
  known : d.info = .ok info
  recovered : recoverSecrets d.machine d.file = .ok items
  packaged : d.machine.buildPackage = .ok built
  hash : res.packageContentHash = built.contentHash
  count : res.secretCount = items.length
  triggered : res.buildTriggered = true
  status : d.pollMaxAttempts ≠ 0 → res.build.buildStatus = some "building"
  hosted : Hosted (Server.registryKey info.pipelineName info.datasetName) res.pid srv
  secrets : ∀ name value, (submitted items).get? name = some value → srv.decryptSecret res.pid name = .ok (some value)
  package : srv.uploadedPackages res.pid = some built
  building : (srv.builds res.pid).buildStatus = some "building"

/-- A deploy has delivered. -/
def HandedOver (d : Deployment) (res : DeployResult) (srv : DeployServer) : Prop :=
  ∃ info items built, HandsOver d res info items built srv

/-- What is done at home, and succeeds. -/
theorem safe_here_ok {key : String} {fail : DeployFailure → Prop} {α β : Type} {a : α} {f : α → Deploying β} {ψ : β → DeployServer → Prop}
    {srv : DeployServer} (h : SafeDeploy key fail ψ (f a) srv) : SafeDeploy key fail ψ (Deploying.here (.ok a) >>= f) srv := h

/-- What is done at home, and fails. -/
theorem safe_here_error {key : String} {α β : Type} {e : DeployFailure} {f : α → Deploying β} {ψ : β → DeployServer → Prop}
    {srv : DeployServer} (he : e.IsHome) : SafeDeploy key DeployFailure.IsHome ψ (Deploying.here (.error e) >>= f) srv :=
  safe_throw he

theorem recoverSecrets_isHome {machine : Local} {file : ScriptFile} {e : DeployFailure}
    (h : recoverSecrets machine file = .error e) : e.IsHome := by
  unfold recoverSecrets at h
  split at h
  · cases h
    trivial
  · cases h

theorem buildPackage_isHome {machine : Local} {e : DeployFailure} (h : machine.buildPackage = .error e) : e.IsHome := by
  unfold Local.buildPackage at h
  split at h
  · cases h
    trivial
  · cases h

/-- **A deploy**, whatever is done to other collectors. -/
theorem safe_deployPipeline {d : Deployment} {srv : DeployServer} {info : CollectorDeployInfo} (hinfo : d.info = .ok info)
    (hS : srv.Sane) : SafeDeploy (Server.registryKey info.pipelineName info.datasetName) DeployFailure.IsHome (HandedOver d)
      (deployPipeline d.machine d.file info d.pollMaxAttempts) srv := by
  have hlaw := keyPact_lawful (some (Server.registryKey info.pipelineName info.datasetName))
  unfold deployPipeline
  refine safe_bind_ok hlaw hS (safe_registerHostedPid hS) fun pid srv₁ hS₁ ⟨r, hat₁⟩ => ?_
  cases hrec : recoverSecrets d.machine d.file with
  | error e => exact safe_here_error (recoverSecrets_isHome hrec)
  | ok items =>
    refine safe_here_ok ?_
    refine safe_bind_ok hlaw hS₁ (safe_submitSecrets _ hS₁ hat₁) fun _ srv₂ hS₂ hat₂ => ?_
    cases hbuilt : d.machine.buildPackage with
    | error e => exact safe_here_error (buildPackage_isHome hbuilt)
    | ok built =>
      refine safe_here_ok ?_
      refine safe_bind_ok hlaw hS₂ (safe_createUploadUrl _ hS₂ hat₂) fun token srv₃ hS₃ ⟨hat₃, htoken⟩ => ?_
      refine safe_bind_ok hlaw hS₃ (safe_uploadPackage built hS₃ hat₃ htoken) fun _ srv₄ hS₄ hat₄ => ?_
      refine safe_bind_ok hlaw hS₄ (safe_triggerBuild hat₄) fun triggered srv₅ hS₅ ⟨htriggered, hat₅⟩ => ?_
      subst htriggered
      rw [if_pos rfl]
      refine safe_bind_ok hlaw hS₅ (safe_pollBuildStatus (b := d.pollMaxAttempts ≠ 0) _ hS₅ hat₅ rfl
        fun h0 hne => absurd h0 hne) fun status srv₆ hS₆ ⟨hat₆, hstatus⟩ => ?_
      refine safe_return fun srv₇ _ hr => ⟨info, items, built, ?_⟩
      obtain ⟨hH, hrecord⟩ := hat₆.keep (.of_rely hr)
      have hsecrets := congrArg PidRecord.secrets hrecord
      exact {
        known := hinfo, recovered := hrec, packaged := hbuilt, hash := rfl, count := rfl, triggered := rfl
        status := hstatus, hosted := hH
        secrets := fun name value hget => decryptSecret_encrypt (by
          change (srv₇.recordOf pid).secrets name = _
          rw [hsecrets]
          change storeSecrets r.secrets (submitted items) name = _
          rw [storeSecrets_apply, hget]
          rfl)
        package := congrArg PidRecord.package hrecord
        building := congrArg (fun r => r.build.buildStatus) hrecord }

/-- The whole command: a deploy that does not get to its pipeline fails at home. -/
theorem safe_deploy (d : Deployment) {srv : DeployServer} (hS : srv.Sane) :
    d.prog.Safe deployShared (keyPact d.key) (Ended (HandedOver d) DeployFailure.IsHome) srv := by
  have hkey : d.key = d.info.toOption.map fun info => Server.registryKey info.pipelineName info.datasetName := rfl
  have hprog : d.prog = (deploy d.host d.machine d.file d.pollMaxAttempts d.interpreter).run := rfl
  unfold deploy at hprog
  rw [hprog]
  cases hinfo : d.info with
  | error e =>
    have hinfo' : (gatherDeployInfo d.host d.file d.interpreter).1 = .error e := hinfo
    rw [hinfo']
    exact safe_throw trivial
  | ok info =>
    have hinfo' : (gatherDeployInfo d.host d.file d.interpreter).1 = .ok info := hinfo
    rw [hinfo']
    dsimp only
    rw [hinfo] at hkey
    rw [hkey]
    split
    · exact safe_throw trivial
    · exact safe_deployPipeline hinfo hS

/-! ## Deploys side by side -/

variable {ι : Type} [DecidableEq ι]

/-- **Deploys side by side.** Deploys of different pipelines, any number of them, all with the token of the
server, take turns at it in any order, while it goes on with its other requests. A deploy that has ended
has failed at home, or has delivered, and what it has delivered stays. -/
theorem deploys_apart (P : Runtime) {srv : DeployServer} (hS : srv.Sane) (ds : ι → Deployment)
    (hkeys : ∀ i j, i ≠ j → ∀ key, (ds i).key = some key → (ds j).key ≠ some key) (es : List (Prog.Event ι Draws Meanwhile))
    (hdrawn : Drawn handle (Meanwhile.apply P) Draws.Ok (srv, fun i => (ds i).prog) es) (i : ι)
    {r : Except DeployFailure DeployResult} (hr : (deploysAfter P srv ds es).2 i = ret r) :
    (∀ e, r = .error e → e.IsHome) ∧ ∀ res, r = .ok res → HandedOver (ds i) res (deploysAfter P srv ds es).1 := by
  have hlaw : ∀ i, (keyPact (ds i).key).Lawful := fun i => keyPact_lawful _
  have hsafe : AllSafe deployShared (fun i => keyPact (ds i).key) (fun i => Ended (HandedOver (ds i)) DeployFailure.IsHome)
      (deploysAfter P srv ds es) := parallel hlaw (fun i j hij s s' _ _ hg k hk => hg k (hkeys i j hij k hk))
    (fun z s hs => ⟨Sane.meanwhile P z hs, fun i k _ => Keeps.meanwhile P z hs k⟩) hdrawn ⟨hS, fun i => safe_deploy (ds i) hS⟩
  obtain ⟨hok, herror⟩ := hsafe.ended hlaw hr
  exact ⟨herror, hok⟩

/-! ### Two deploys -/

/-- A script with another pipeline. -/
def customersScript : ScriptFile where
  path := "pipeline.py"
  isFile := true
  body := runsOne [customersPipeline] customersPipeline .finish
  calls := .ok [⟨some "customers", none⟩]

/-- The orders are deployed from a machine on which they have run, the customers from one on which they
have not. -/
def twoDeploys : Bool → Deployment
  | true => ⟨plainHost, bothRan, ordersScript, 1, ⟨false, none, none⟩⟩
  | false => ⟨plainHost, neverRan, customersScript, 1, ⟨false, none, none⟩⟩

/-- The deploys take turns, and a running pipeline registers meanwhile. -/
def twoDeploying : List (Prog.Event Bool Draws Meanwhile) :=
  let orders : Prog.Event Bool Draws Meanwhile := .turn true ⟨"000000000000000000000orders", "first"⟩
  let customers : Prog.Event Bool Draws Meanwhile := .turn false ⟨"000000000000000000customers", "second"⟩
  [orders, customers, orders, .outside (.pause "000000000000000000customers"), orders, orders, customers, orders, orders]

theorem sane_empty : DeployServer.Sane {} where
  known key pid h := by cases h
  apart key key' pid h := by cases h

/-- The deploy of the orders delivers. -/
theorem deploys_apart_orders : ∃ res, (deploysAfter Runtime.plain {} twoDeploys twoDeploying).2 true = ret (.ok res) ∧
    HandedOver (twoDeploys true) res (deploysAfter Runtime.plain {} twoDeploys twoDeploying).1 := by
  have hkeys : ∀ i j, i ≠ j → ∀ key, (twoDeploys i).key = some key → (twoDeploys j).key ≠ some key := by
    rintro (_ | _) (_ | _) hij key hi
    all_goals first | exact absurd rfl hij | skip
    all_goals
      rw [← hi]
      decide +kernel
  obtain ⟨res, hres⟩ : ∃ res, (deploysAfter Runtime.plain {} twoDeploys twoDeploying).2 true = ret (.ok res) := ⟨_, rfl⟩
  exact ⟨res, hres, (deploys_apart Runtime.plain sane_empty twoDeploys hkeys twoDeploying (by decide +kernel) true hres).2 _ rfl⟩

end Matterbeam
