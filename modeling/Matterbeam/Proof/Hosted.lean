import Mathlib.Data.List.Basic
import Matterbeam.Model.Hosted

/-!
# Pipelines do not notice deploys

The kind of a collector is all that a deploy writes and a pipeline could read, and no request of a
pipeline reads it. So a server with deploys runs as one with as many registrations of pipelines.

* `Server.asExternal`: a server, with all its collectors external.
* `asExternal_step`: a step of a request commutes with it.
* `asExternal_handle`: a request of a deploy is a registration, or nothing.
* `deploys_transparent`: **a run with deploys is a run of pipelines**.
-/

namespace Matterbeam

open Function

/-! ## The kind of a collector -/

def PidItem.asExternal (item : PidItem) : PidItem :=
  { item with collectorType := "external_dlt", execution := "external", runtime := "LAMBDA" }

/-- The server, with all its collectors external. -/
def Server.asExternal (srv : Server) : Server := { srv with pids := fun p => (srv.pids p).map PidItem.asExternal }

namespace Server

variable (srv : Server)

theorem map_update (pids : String → Option PidItem) (pid : String) (item : PidItem) :
    (fun p => (update pids pid (some item) p).map PidItem.asExternal) =
      update (fun p => (pids p).map PidItem.asExternal) pid (some item.asExternal) := by
  funext p
  by_cases h : p = pid
  · rw [h, update_self, update_self, Option.map_some]
  · rw [update_of_ne h, update_of_ne h]

theorem asExternal_setPid (pid : String) (item : PidItem) :
    (srv.setPid pid item).asExternal = srv.asExternal.setPid pid item.asExternal :=
  congrArg (fun pids => { srv with pids := pids }) (map_update srv.pids pid item)

@[simp] theorem asExternal_pids (pid : String) : srv.asExternal.pids pid = (srv.pids pid).map PidItem.asExternal := rfl

theorem asExternal_claim (pid : String) :
    srv.asExternal.claim pid = ((srv.claim pid).1.asExternal, (srv.claim pid).2) := by
  unfold claim
  rw [asExternal_pids]
  cases srv.pids pid with
  | none => rfl
  | some item =>
    have hpaused : item.asExternal.fsmState = item.fsmState := rfl
    have hsemaphore : item.asExternal.invokeSemaphore = item.invokeSemaphore := rfl
    rw [Option.map_some]
    dsimp only
    rw [hpaused, hsemaphore]
    by_cases h₁ : item.fsmState = .paused
    · rw [if_pos h₁, if_pos h₁]
    by_cases h₂ : item.invokeSemaphore ≠ 1
    · rw [if_neg h₁, if_neg h₁, if_pos h₂, if_pos h₂]
      rfl
    · rw [if_neg h₁, if_neg h₁, if_neg h₂, if_neg h₂, asExternal_setPid]
      rfl

theorem asExternal_release (pid : String) (version : ℕ) :
    srv.asExternal.release pid version = (srv.release pid version).asExternal := by
  unfold release
  rw [asExternal_pids]
  cases srv.pids pid with
  | none => rfl
  | some item =>
    have hversion : item.asExternal.updateVersion = item.updateVersion := rfl
    rw [Option.map_some]
    dsimp only
    rw [hversion]
    by_cases h : item.updateVersion = version
    · rw [if_pos h, if_pos h, asExternal_setPid]
      rfl
    · rw [if_neg h, if_neg h]

theorem asExternal_pause (pid : String) : srv.asExternal.pause pid = (srv.pause pid).asExternal := by
  unfold pause
  rw [asExternal_pids]
  cases srv.pids pid with
  | none => rfl
  | some item =>
    rw [Option.map_some]
    dsimp only
    rw [asExternal_setPid]
    rfl

theorem asExternal_nextWriterId (pid : String) : srv.asExternal.nextWriterId pid = srv.nextWriterId pid := by
  unfold nextWriterId
  rw [asExternal_pids]
  cases srv.pids pid <;> rfl

theorem asExternal_allocWriterId (pid : String) : srv.asExternal.allocWriterId pid = (srv.allocWriterId pid).asExternal := by
  unfold allocWriterId
  rw [asExternal_nextWriterId, asExternal_pids]
  cases srv.pids pid with
  | none => rfl
  | some item =>
    rw [Option.map_some]
    dsimp only
    rw [asExternal_setPid]
    rfl

theorem asExternal_trackJobArrival (pid recordtypeId jobId : String) :
    srv.asExternal.trackJobArrival pid recordtypeId jobId = (srv.trackJobArrival pid recordtypeId jobId).asExternal := by
  have hrt : srv.asExternal.rtState pid recordtypeId = srv.rtState pid recordtypeId := rfl
  unfold trackJobArrival
  rw [hrt]
  dsimp only
  by_cases h₁ : (srv.rtState pid recordtypeId).jobOrder.getLast? = some jobId
  · rw [if_pos h₁, if_pos h₁]
  by_cases h₂ : jobId ∈ (srv.rtState pid recordtypeId).jobOrder
  · rw [if_neg h₁, if_neg h₁, if_pos h₂, if_pos h₂]
    rfl
  · rw [if_neg h₁, if_neg h₁, if_neg h₂, if_neg h₂]
    rfl

theorem asExternal_freshDraw (draw : String) : srv.asExternal.freshDraw draw = srv.freshDraw draw := by
  unfold freshDraw
  rw [asExternal_pids, Option.isNone_map]

/-- **A registration of any kind** is one of an external collector. -/
theorem asExternal_register (name datasetName kind draw : String) : srv.asExternal.register name datasetName "external_dlt" draw =
    (srv.register name datasetName kind draw).map fun x => (x.1.asExternal, x.2) := by
  have hkey : srv.asExternal.registry = srv.registry := rfl
  unfold register
  rw [hkey, asExternal_freshDraw]
  cases srv.registry (registryKey name datasetName) with
  | some pid =>
    dsimp only
    rw [asExternal_pids]
    cases hpid : srv.pids pid with
    | none => rfl
    | some item =>
      rw [Option.map_some]
      dsimp only
      rw [if_neg (fun h => absurd h.1 (by decide))]
      by_cases h : kind = "hosted_dlt" ∧ item.collectorType = "external_dlt"
      · -- an adoption changes the kind only
        rw [if_pos h, Option.map_some, asExternal_setPid]
        have hsame : srv.asExternal.setPid pid item.asExternal = srv.asExternal := by
          unfold setPid
          congr 1
          exact update_eq_self_iff.2 (by rw [asExternal_pids, hpid, Option.map_some])
        exact congrArg (fun s => some (s, pid, false)) hsame.symm
      · rw [if_neg h]
        rfl
  | none =>
    dsimp only
    by_cases h : srv.freshDraw draw = true
    · have hpids := map_update srv.pids draw ⟨1, 1, .listening, kind, if kind = "hosted_dlt" then "hosted" else "external",
        if kind = "hosted_dlt" then "ECS" else "LAMBDA", 0⟩
      rw [if_pos h, if_pos h, Option.map_some]
      exact congrArg (fun pids => some ({ srv with
        registry := update srv.registry (registryKey name datasetName) (some draw), pids := pids }, draw, true)) hpids.symm
    · rw [if_neg h, if_neg h]
      rfl

end Server

/-- A registration whose collector is missing has written nothing. -/
theorem Server.register_isNone {srv srv' : Server} {name datasetName kind draw pid : String} {created : Bool}
    (h : srv.register name datasetName kind draw = some (srv', pid, created)) (hnone : (srv'.pids pid).isNone) :
    srv' = srv := by
  unfold register at h
  cases hkey : srv.registry (registryKey name datasetName) with
  | some q =>
    simp only [hkey] at h
    cases hq : srv.pids q with
    | none =>
      rw [hq] at h
      cases h
      rfl
    | some item =>
      rw [hq] at h
      dsimp only at h
      by_cases hkind : kind = "hosted_dlt" ∧ item.collectorType = "external_dlt"
      · rw [if_pos hkind] at h
        cases h
        simp only [setPid, update_self, Option.isNone_some, Bool.false_eq_true] at hnone
      · rw [if_neg hkind] at h
        cases h
        rfl
  | none =>
    simp only [hkey] at h
    by_cases hdraw : srv.freshDraw draw = true
    · rw [if_pos hdraw] at h
      cases h
      simp only [update_self, Option.isNone_some, Bool.false_eq_true] at hnone
    · rw [if_neg hdraw] at h
      cases h

/-! ## Steps -/

section

variable (P : Runtime) (inp : Inputs) (srv : Server)

theorem IngestPc.asExternal_step (rq : IngestRequest) (crash : Option CrashPoint) (pc : IngestPc) :
    pc.step rq crash inp srv.asExternal = ((pc.step rq crash inp srv).1.asExternal, (pc.step rq crash inp srv).2) := by
  cases pc with
  | check =>
    have hledger : srv.asExternal.ledger = srv.ledger := rfl
    simp only [step]
    rw [hledger]
    cases srv.ledger rq.lkey <;> rfl
  | claim =>
    simp only [step]
    rw [srv.asExternal_claim]
    obtain ⟨srv', _ | v⟩ := srv.claim rq.pid <;> rfl
  | closed v =>
    have hclosed : srv.asExternal.closedLoads = srv.closedLoads := rfl
    simp only [step]
    rw [hclosed]
    by_cases h : (rq.pid, rq.loadId) ∈ srv.closedLoads
    · rw [if_pos h, if_pos h]
    · rw [if_neg h, if_neg h]
  | prepare v =>
    simp only [step]
    rw [srv.asExternal_nextWriterId, srv.asExternal_allocWriterId, Server.asExternal_trackJobArrival]
  | filter v writerId =>
    have hseen : srv.asExternal.dltIdsSeen = srv.dltIdsSeen := rfl
    simp only [step]
    rw [hseen]
    obtain ⟨hits, _ | kept⟩ := dedupLoop (srv.dltIdsSeen (rq.pid, rq.loadId)) rq.lines <;> rfl
  | «begin» v b => rfl
  | commit v b beginMs =>
    simp only [step]
    by_cases h : b.kept = []
    · rw [if_pos h, if_pos h]
    · rw [if_neg h, if_neg h]
      rfl
  | mark v b beginMs seg =>
    simp only [step]
    by_cases h : crash = some .afterCommitBeforeMark
    · rw [if_pos h, if_pos h]
    · rw [if_neg h, if_neg h]
      rfl
  | record v b beginMs seg =>
    simp only [step]
    by_cases h : crash = some .afterMarkBeforeLedger
    · rw [if_pos h, if_pos h]
    · rw [if_neg h, if_neg h]
      rfl
  | reply v r =>
    simp only [step]
    by_cases h : crash = some .afterLedger
    · rw [if_pos h, if_pos h]
    · rw [if_neg h, if_neg h]
  | release v out =>
    simp only [step]
    rw [srv.asExternal_release]
  | done out => rfl

theorem PutPc.asExternal_step (pid : String) (doc : Row) (pc : PutPc) :
    pc.step pid doc srv.asExternal = ((pc.step pid doc srv).1.asExternal, (pc.step pid doc srv).2) := by
  cases pc with
  | claim =>
    simp only [step]
    rw [srv.asExternal_claim]
    obtain ⟨srv', _ | v⟩ := srv.claim pid <;> rfl
  | check v =>
    have hstate : srv.asExternal.processState = srv.processState := rfl
    simp only [step]
    rw [hstate]
    obtain _ | _ | _ := Server.staleVersion (srv.processState pid).dltState doc <;> rfl
  | write v => rfl
  | release v out =>
    simp only [step]
    rw [srv.asExternal_release]
  | done out => rfl

theorem asExternal_onceStep (rq : Request) :
    onceStep P inp srv.asExternal rq = ((onceStep P inp srv rq).1.asExternal, (onceStep P inp srv rq).2) := by
  cases rq with
  | register name datasetName =>
    simp only [onceStep]
    rw [srv.asExternal_register name datasetName "external_dlt"]
    cases srv.register name datasetName "external_dlt" inp.draw <;> rfl
  | getState pid =>
    have hstate : srv.asExternal.processState = srv.processState := rfl
    simp only [onceStep]
    rw [hstate]
    cases (srv.processState pid).dltState <;> rfl
  | _ => rfl

/-- **A step of a request does not look at kinds.** -/
theorem Thread.asExternal_step (th : Thread) :
    th.step P inp srv.asExternal = ((th.step P inp srv).1.asExternal, (th.step P inp srv).2) := by
  cases th with
  | ingest rq crash pc =>
    simp only [step]
    rw [IngestPc.asExternal_step]
  | put pid doc pc =>
    simp only [step]
    rw [PutPc.asExternal_step]
  | once rq answer =>
    cases answer with
    | some answer => rfl
    | none =>
      simp only [step]
      rw [asExternal_onceStep]

end

/-! ## The run of pipelines -/

/-- What a request of a deploy is to the pipelines: a registration, or nothing. -/
def DeployRequest.registration : DeployRequest → Option Request
  | .register name datasetName => some (.register name datasetName)
  | _ => none

def DeployEvent.registration : DeployEvent → Option Request
  | .pipeline _ => none
  | .deploy rq _ => rq.registration

/-- The registrations of the deploys, in order. -/
def registrations (es : List DeployEvent) : List Request := es.filterMap DeployEvent.registration

/-- The event, with `k` requests before those that it means. -/
def SysEvent.later (k : ℕ) : SysEvent → SysEvent
  | .tick t inp => .tick (t + k) inp
  | e => e

/-- What happens to the pipelines: `k` registrations stand by, and the next one to be made is the
`i`-th. -/
def asSteps (k : ℕ) : ℕ → List DeployEvent → List SysEvent
  | _, [] => []
  | i, .pipeline e :: es => e.later k :: asSteps k i es
  | i, .deploy rq draws :: es =>
    match rq.registration with
    | some _ => .tick i ⟨0, "", 0, draws.pid⟩ :: asSteps k (i + 1) es
    | none => asSteps k i es

/-- A run with deploys as a run of pipelines: what the deploys will register arrives first. -/
def asPipelines (es : List DeployEvent) : List SysEvent :=
  (registrations es).map (fun rq => .spawn rq none) ++ asSteps (registrations es).length 0 es

/-- The moment of the run of pipelines at which the first `n` events have happened. -/
def asMoment (es : List DeployEvent) (n : ℕ) : ℕ :=
  (registrations es).length + (asSteps (registrations es).length 0 (es.take n)).length

theorem asSteps_append (k : ℕ) (es es' : List DeployEvent) : ∀ i,
    asSteps k i (es ++ es') = asSteps k i es ++ asSteps k (i + (registrations es).length) es' := by
  induction es with
  | nil => intro i; rfl
  | cons e es ih =>
    intro i
    cases e with
    | pipeline e => exact congrArg (e.later k :: ·) (ih i)
    | deploy rq draws =>
      rw [List.cons_append]
      simp only [asSteps, registrations, List.filterMap_cons, DeployEvent.registration]
      cases rq.registration with
      | none => exact ih i
      | some r =>
        have hlen : i + ((r :: registrations es).length) = i + 1 + (registrations es).length := by
          rw [List.length_cons]; omega
        exact congrArg _ ((ih (i + 1)).trans (by rw [← hlen]; rfl))

theorem asMoment_mono (es : List DeployEvent) : Monotone (asMoment es) := by
  intro m n h
  have hsplit : es.take n = es.take m ++ (es.take n).drop m := by
    conv_lhs => rw [← List.take_append_drop m (es.take n), List.take_take, Nat.min_eq_left h]
  unfold asMoment
  rw [hsplit, asSteps_append, List.length_append]
  omega

/-! ## The simulation -/

/-- The run of pipelines shows the server with all collectors external. Before the requests that the
server was sent by pipelines stand `k` registrations of deploys, those in `todo` still to be made. -/
structure Mirrors (k i : ℕ) (todo : List Request) (s : DeploySys) (t : Sys) : Prop where
  srv : t.srv = s.srv.base.asExternal
  length : i + todo.length = k
  threads : ∃ made, t.threads = made ++ todo.map (Thread.once · none) ++ s.threads ∧ made.length = i

section

variable {P : Runtime} {k i : ℕ} {todo : List Request} {s : DeploySys} {t : Sys}

/-- A request of a deploy is a registration of an external collector, or nothing. -/
theorem asExternal_handle (draws : Draws) (srv : DeployServer) (rq : DeployRequest) :
    (DeployServer.handle draws srv rq).1.base.asExternal = match rq.registration with
      | some r => (onceStep P ⟨0, "", 0, draws.pid⟩ srv.base.asExternal r).1
      | none => srv.base.asExternal := by
  cases rq with
  | register name datasetName =>
    have hreg := srv.base.asExternal_register name datasetName "hosted_dlt" draws.pid
    simp only [DeployServer.handle, DeployRequest.registration, onceStep]
    rw [hreg]
    cases h : srv.base.register name datasetName "hosted_dlt" draws.pid with
    | none => rfl
    | some x =>
      obtain ⟨base, pid, created⟩ := x
      rw [Option.map_some]
      dsimp only
      by_cases hnone : (base.pids pid).isNone
      · -- the collector of a registry entry that has none: nothing was written
        rw [if_pos hnone]
        exact congrArg Server.asExternal (srv.base.register_isNone h hnone).symm
      · rw [if_neg hnone]
        cases created <;> rfl
  | submitSecrets pid secrets =>
    simp only [DeployServer.handle, DeployRequest.registration]
    cases (srv.base.pids pid).isNone <;> rfl
  | uploadUrl pid filename =>
    simp only [DeployServer.handle, DeployRequest.registration]
    cases (srv.base.pids pid).isNone <;> rfl
  | upload token package =>
    simp only [DeployServer.handle, DeployRequest.registration]
    cases srv.pendingUploads token <;> rfl
  | build pid =>
    simp only [DeployServer.handle, DeployRequest.registration]
    cases (srv.base.pids pid).isNone <;> rfl
  | buildStatus pid =>
    simp only [DeployServer.handle, DeployRequest.registration]
    cases (srv.base.pids pid).isNone <;> rfl

/-- An event of the pipelines. -/
theorem Mirrors.pipeline (h : Mirrors k i todo s t) (e : SysEvent) :
    Mirrors k i todo (s.step P (.pipeline e)) (t.step P (e.later k)) := by
  obtain ⟨made, hthreads, hmade⟩ := h.threads
  have hlen : (made ++ todo.map (Thread.once · none)).length = k := by
    rw [List.length_append, List.length_map, hmade, h.length]
  cases e with
  | spawn rq crash =>
    refine ⟨h.srv, h.length, made, ?_, hmade⟩
    change t.threads ++ _ = _ ++ (s.threads ++ _)
    rw [hthreads, List.append_assoc]
  | pause pid =>
    refine ⟨?_, h.length, made, hthreads, hmade⟩
    change t.srv.pause pid = (s.srv.base.pause pid).asExternal
    rw [h.srv, Server.asExternal_pause]
  | tick j inp =>
    have hget : t.threads[j + k]? = s.threads[j]? := by
      rw [hthreads, List.getElem?_append_right (by omega), hlen, Nat.add_sub_cancel]
    simp only [SysEvent.later, Sys.step, DeploySys.step, DeploySys.sys]
    rw [hget]
    cases s.threads[j]? with
    | none => exact ⟨h.srv, h.length, made, hthreads, hmade⟩
    | some th =>
      have hstep := Thread.asExternal_step P inp s.srv.base th
      refine ⟨?_, h.length, made, ?_, hmade⟩
      · exact (congrArg (fun srv => (th.step P inp srv).1) h.srv).trans (congrArg Prod.fst hstep)
      · dsimp only
        rw [h.srv, congrArg Prod.snd hstep, hthreads, List.set_append_right _ _ (by omega), hlen, Nat.add_sub_cancel]

/-- A request of a deploy that is nothing to the pipelines. -/
theorem Mirrors.silent (h : Mirrors k i todo s t) {rq : DeployRequest} (hrq : rq.registration = none) (draws : Draws) :
    Mirrors k i todo (s.step P (.deploy rq draws)) t := by
  have hhandle := asExternal_handle (P := P) draws s.srv rq
  rw [hrq] at hhandle
  exact ⟨h.srv.trans hhandle.symm, h.length, h.threads⟩

/-- A registration of a deploy. -/
theorem Mirrors.registered {r : Request} (h : Mirrors k i (r :: todo) s t) {rq : DeployRequest}
    (hrq : rq.registration = some r) (draws : Draws) :
    Mirrors k (i + 1) todo (s.step P (.deploy rq draws)) (t.step P (.tick i ⟨0, "", 0, draws.pid⟩)) := by
  have hhandle := asExternal_handle (P := P) draws s.srv rq
  rw [hrq] at hhandle
  obtain ⟨made, hthreads, hmade⟩ := h.threads
  have hget : t.threads[i]? = some (.once r none) := by
    rw [hthreads, List.append_assoc, List.getElem?_append_right hmade.le, hmade, Nat.sub_self]
    rfl
  simp only [Sys.step]
  rw [hget]
  dsimp only [Thread.step]
  refine ⟨?_, ?_, made ++ [.once r (onceStep P ⟨0, "", 0, draws.pid⟩ t.srv r).2], ?_, ?_⟩
  · rw [h.srv]
    exact hhandle.symm
  · have hk := h.length
    rw [List.length_cons] at hk
    omega
  · dsimp only
    rw [hthreads, List.append_assoc, List.set_append_right _ _ hmade.le, hmade, Nat.sub_self]
    simp only [List.map_cons, List.cons_append, List.set_cons_zero, List.append_assoc, List.nil_append]
    rfl
  · rw [List.length_append, hmade, List.length_singleton]

end

/-- What the deploys will register arrives. -/
theorem arrivals (P : Runtime) (rqs : List Request) (hrqs : ∀ rq ∈ rqs, ∃ name datasetName, rq = .register name datasetName)
    (t : Sys) : Sys.run P (rqs.map fun rq => .spawn rq none) t = ⟨t.srv, t.threads ++ rqs.map (Thread.once · none)⟩ := by
  induction rqs generalizing t with
  | nil => rw [List.map_nil, List.map_nil, List.append_nil]; rfl
  | cons rq rqs ih =>
    obtain ⟨name, datasetName, rfl⟩ := hrqs rq List.mem_cons_self
    rw [List.map_cons]
    refine (ih (fun q hq => hrqs q (List.mem_cons_of_mem _ hq)) _).trans ?_
    change (⟨t.srv, _ ++ _⟩ : Sys) = _
    rw [List.map_cons, List.append_cons]
    rfl

theorem registrations_register {es : List DeployEvent} {rq : Request} (h : rq ∈ registrations es) :
    ∃ name datasetName, rq = .register name datasetName := by
  obtain ⟨e, -, he⟩ := List.mem_filterMap.1 h
  cases e with
  | pipeline e => cases he
  | deploy r draws =>
    cases r with
    | register name datasetName => exact ⟨name, datasetName, (Option.some.inj he).symm⟩
    | _ => cases he

/-- The run of pipelines keeps up. -/
theorem Mirrors.run (P : Runtime) {k : ℕ} (es es' : List DeployEvent) : ∀ {i : ℕ} {s : DeploySys} {t : Sys},
    Mirrors k i (registrations (es ++ es')) s t →
      Mirrors k (i + (registrations es).length) (registrations es') (es.foldl (DeploySys.step P) s)
        (Sys.run P (asSteps k i es) t) := by
  induction es with
  | nil => intro i s t h; exact h
  | cons e es ih =>
    intro i s t h
    cases e with
    | pipeline e => exact ih (h.pipeline e)
    | deploy rq draws =>
      rw [List.cons_append] at h
      simp only [registrations, List.filterMap_cons, DeployEvent.registration, asSteps] at h ⊢
      cases hrq : rq.registration with
      | none =>
        rw [hrq] at h
        exact ih (h.silent hrq draws)
      | some r =>
        rw [hrq] at h
        have hnext := ih (Mirrors.registered (P := P) h hrq draws)
        rw [Nat.add_right_comm] at hnext
        exact hnext

/-- **Pipelines do not notice deploys.** A run of the server with deploys in between shows the
pipelines what a run without deploys does, moment by moment: the same answers, and a server that
differs in the kinds of collectors only. Each registration of a deploy is one of a pipeline there. -/
theorem deploys_transparent (P : Runtime) (es : List DeployEvent) : Monotone (asMoment es) ∧ ∀ n,
    (sAt P (asPipelines es) (asMoment es n)).srv = (DeploySys.after P (es.take n)).srv.base.asExternal ∧
      (sAt P (asPipelines es) (asMoment es n)).threads.drop (registrations es).length =
        (DeploySys.after P (es.take n)).threads := by
  refine ⟨asMoment_mono es, fun n => ?_⟩
  have hsplit : es.take n ++ es.drop n = es := List.take_append_drop n es
  have hstart : Mirrors (registrations es).length 0 (registrations (es.take n ++ es.drop n)) {}
      ⟨{}, (registrations es).map (Thread.once · none)⟩ :=
    ⟨rfl, by rw [hsplit, Nat.zero_add], [], by rw [hsplit]; exact (List.append_nil _).symm, rfl⟩
  have hrun := hstart.run P
  have htake : (asPipelines es).take (asMoment es n) = (registrations es).map (fun rq => .spawn rq none) ++
      asSteps (registrations es).length 0 (es.take n) := by
    unfold asPipelines asMoment
    conv_lhs => rw [← hsplit, asSteps_append, hsplit, ← List.append_assoc]
    exact List.take_left' (by rw [List.length_append, List.length_map])
  have hsys : sAt P (asPipelines es) (asMoment es n) = Sys.run P (asSteps (registrations es).length 0 (es.take n))
      ⟨{}, (registrations es).map (Thread.once · none)⟩ := by
    unfold sAt
    rw [htake]
    unfold Sys.run
    rw [List.foldl_append]
    exact congrArg (List.foldl (Sys.step P) · _) (arrivals P (registrations es) (fun _ => registrations_register) {})
  rw [hsys]
  obtain ⟨made, hthreads, hmade⟩ := hrun.threads
  refine ⟨hrun.srv, ?_⟩
  rw [hthreads]
  exact List.drop_left' (by rw [List.length_append, List.length_map, hmade, hrun.length])

end Matterbeam
