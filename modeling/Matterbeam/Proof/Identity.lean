import Matterbeam.Proof.Acked
import Matterbeam.Proof.Clients

/-!
# One pipeline, one identity

A client resolves its identity by the first call that needs it, under the name of the pipeline,
and keeps it. Every kind of call is a resolution of the identity followed by requests that go
to the pid it gave (`prog_resolves`), and the server gives one name one pid.

* `registry_inv`: **a registration is answered with the pid in the registry**, which never changes.
* `Resolves.identified`: what a call asks, and what identity it leaves its client with.
* `identity_inv`: the clients of a run have the identity in the registry, or none yet.
* `one_identity`: **all calls of a pipeline go to one pid**.
-/

namespace Matterbeam

open Function Prog

/-! ## What a call asks -/

/-- The pid that a request is addressed to. -/
def Request.pid? : Request → Option String
  | register _ _ => none
  | getState pid => some pid
  | putState pid _ => some pid
  | ingest rq => some rq.pid
  | completeLoad pid _ => some pid

/-- The name that a call registers under. -/
def Call.pipelineKey (cl : JobClient Request Answer) (active : Option String) : Call → String
  | getStoredState name => name
  | _ => cl.fallbackKey active

section

variable {P : Runtime} {cl : JobClient Request Answer} {active : Option String}

/-- The program resolves the client's identity; if that fails, it raises, and otherwise all that
it asks is addressed to the client's pid. -/
def Resolves {α : Type} (P : Runtime) (cl : JobClient Request Answer) (key : String)
    (p : Prog Request Answer (Except PyError α × JobClient Request Answer)) : Prop :=
  ∃ f, p = (cl.ensurePid key >>= f) ∧ (∀ e cl', f (.error e, cl') = ret (.error e, cl')) ∧
    ∀ pid cl', IsHttp P cl' → cl'.pidResolved = true →
      (f (.ok pid, cl')).Spec (fun q => q.pid? = some (HttpTransport.pidText cl'.pid)) fun x => x.2 = cl'

/-- What goes on after a program that resolves the identity. -/
theorem Resolves.bind {α β : Type} {key : String}
    {p : Prog Request Answer (Except PyError α × JobClient Request Answer)}
    {g : Except PyError α × JobClient Request Answer → Prog Request Answer (Except PyError β × JobClient Request Answer)}
    (h : Resolves P cl key p) (herr : ∀ e cl', g (.error e, cl') = ret (.error e, cl'))
    (hok : ∀ a cl', IsHttp P cl' → cl'.pidResolved = true →
      (g (.ok a, cl')).Spec (fun q => q.pid? = some (HttpTransport.pidText cl'.pid)) fun x => x.2 = cl') :
    Resolves P cl key (p >>= g) := by
  obtain ⟨f, rfl, hf, hspec⟩ := h
  refine ⟨fun x => f x >>= g, Prog.bind_assoc _ _ _, fun e cl' => ?_, fun pid cl' hcl hr => ?_⟩
  · change f (.error e, cl') >>= g = _
    rw [hf, ret_bind, herr]
  · refine spec_bind (hspec pid cl' hcl hr) ?_
    rintro ⟨r, cl''⟩ rfl
    cases r with
    | error e =>
      rw [herr]
      exact rfl
    | ok a => exact hok a _ hcl hr

/-- A request that is only turned into a result. -/
theorem spec_request_map {α : Type} {T : HttpTransport} {rq : Request} {pid : Option String}
    (hq : rq.pid? = some (HttpTransport.pidText pid)) (f : Except PyError (Option Response) → α) :
    (T.request P rq >>= fun r => ret (f r)).Spec (fun q => q.pid? = some (HttpTransport.pidText pid)) fun _ => True := by
  refine spec_bind ((spec_request rq).imp ?_ fun _ h => h) fun _ _ => trivial
  rintro _ rfl
  exact hq

theorem resolves_sendChunk (c : Chunk) : Resolves P cl (cl.fallbackKey active) (cl.sendChunk active c) := by
  unfold JobClient.sendChunk
  rw [ensurePidFallback_eq]
  refine ⟨_, rfl, fun _ _ => rfl, fun pid cl' hcl hr => ?_⟩
  obtain ⟨T, hT⟩ := hcl
  refine spec_bind (ψ := fun _ => True) ?_ fun _ _ => rfl
  rw [hT]
  change (T.sendChunk P c cl'.pid).Spec _ _
  unfold HttpTransport.sendChunk
  cases buildWireRecords c.keys c.hardDelete c.rows with
  | error e => trivial
  | ok lines => exact spec_bind (spec_request_map rfl _) fun _ _ => trivial

theorem resolves_putDltState (row : Row) : Resolves P cl (cl.fallbackKey active) (cl.putDltState active row) := by
  unfold JobClient.putDltState
  rw [ensurePidFallback_eq]
  refine ⟨_, rfl, fun _ _ => rfl, fun pid cl' hcl hr => ?_⟩
  obtain ⟨T, hT⟩ := hcl
  dsimp only
  -- a resolved client without a pid asks nothing more
  cases hp : cl'.pid with
  | none => rfl
  | some pid =>
    refine spec_bind (ψ := fun _ => True) ?_ fun _ _ => rfl
    rw [hT]
    exact spec_request_map rfl _

theorem resolves_completeLoad (loadId : String) :
    Resolves P cl (cl.fallbackKey active) (cl.completeLoad active loadId) := by
  unfold JobClient.completeLoad
  rw [ensurePidFallback_eq]
  refine ⟨_, rfl, fun _ _ => rfl, fun pid cl' hcl hr => ?_⟩
  obtain ⟨T, hT⟩ := hcl
  refine spec_bind (ψ := fun _ => True) ?_ fun _ _ => rfl
  rw [hT]
  exact spec_bind (spec_request_map rfl _) fun _ _ => trivial

theorem resolves_getStoredState (name : String) : Resolves P cl name (cl.getStoredState name) := by
  unfold JobClient.getStoredState
  refine ⟨_, rfl, fun _ _ => rfl, fun pid cl' hcl hr => ?_⟩
  obtain ⟨T, hT⟩ := hcl
  dsimp only
  cases hp : cl'.pid with
  | none => rfl
  | some pid =>
    refine spec_bind (ψ := fun _ => True) ?_ fun _ _ => rfl
    rw [hT]
    exact spec_bind (spec_request_map rfl _) fun _ _ => trivial

/-- A client that is resolved sends all the chunks of a job to its pid. -/
theorem spec_sendEach_resolved (hcl : IsHttp P cl) (hr : cl.pidResolved = true) (job : LoadJob) (config : Config)
    (cs : List (List Row)) (seq : ℕ) : (job.sendEach active config cs seq cl).Spec
      (fun q => q.pid? = some (HttpTransport.pidText cl.pid)) fun x => x.2 = cl := by
  induction cs generalizing seq with
  | nil => rfl
  | cons c cs ih =>
    have hres : Resolves P cl (cl.fallbackKey active) (cl.sendChunk active (job.chunk config c seq)) :=
      resolves_sendChunk _
    obtain ⟨f, hf, -, hspec⟩ := hres
    unfold LoadJob.sendEach
    rw [hf]
    -- the client is resolved, so the chunk begins with its own request
    have hens : cl.ensurePid (cl.fallbackKey active) = ret (.ok cl.pid, cl) := by
      unfold JobClient.ensurePid
      rw [if_pos hr]
    rw [hens, ret_bind]
    refine spec_bind (hspec _ cl hcl hr) ?_
    rintro ⟨r, cl'⟩ rfl
    cases r with
    | error e => rfl
    | ok key => exact ih (seq + 1)

theorem resolves_sendEach {job : LoadJob} {config : Config} {c : List Row} (cs : List (List Row)) (seq : ℕ) :
    Resolves P cl (cl.fallbackKey active) (job.sendEach active config (c :: cs) seq cl) :=
  (resolves_sendChunk (job.chunk config c seq)).bind (fun _ _ => rfl) fun _ _ hcl hr =>
    spec_sendEach_resolved hcl hr job config cs (seq + 1)

/-- **Every call resolves the identity first**, unless it asks nothing at all. -/
theorem prog_resolves (op : Call) : (∃ v, op.prog P active cl = ret (v, cl)) ∨
    Resolves P cl (op.pipelineKey cl active) (op.prog P active cl) := by
  -- a call only turns the result of the method into its value
  have hmap : ∀ {α : Type} {key : String} {p : Prog Request Answer (Except PyError α × JobClient Request Answer)}
      (f : α → Val), Resolves P cl key p → Resolves P cl key (p >>= fun x => ret (x.1.map f, x.2)) :=
    fun f h => h.bind (fun _ _ => rfl) fun _ _ _ _ => rfl
  cases op with
  | loadJob job =>
    simp only [Call.prog, LoadJob.run]
    cases checkDisposition job.table with
    | error e => exact Or.inl ⟨_, rfl⟩
    | ok w =>
      cases job.rows P with
      | error e => exact Or.inl ⟨_, rfl⟩
      | ok rows =>
        dsimp only
        rw [LoadJob.sendLoop_eq]
        -- a load job of no chunks sends nothing
        cases LoadJob.chunksFrom P cl.config rows [] 0 0 with
        | nil => exact Or.inl ⟨_, rfl⟩
        | cons c cs => exact Or.inr (hmap _ (resolves_sendEach cs 0))
  | stateJob lines =>
    simp only [Call.prog, stateJobRun]
    cases stateRow P.customPuaRemove lines none with
    | error e => exact Or.inl ⟨_, rfl⟩
    | ok row => cases row with
      | none => exact Or.inl ⟨_, rfl⟩
      | some row => exact Or.inr (hmap _ (resolves_putDltState row))
  | putDltState row => exact Or.inr (hmap _ (resolves_putDltState row))
  | getStoredState name => exact Or.inr (hmap _ (resolves_getStoredState name))
  | sendChunk c => exact Or.inr (hmap _ (resolves_sendChunk c))
  | completeLoad loadId => exact Or.inr (hmap _ (resolves_completeLoad loadId))

end

/-! ## Registrations and the registry -/

/-- A registration that was answered is in the registry. -/
def Thread.Listed (P : Runtime) (srv : Server) : Thread → Prop
  | once (.register name ds) (some a) => ∃ pid b, srv.registry (Server.registryKey name ds) = some pid ∧
      a = registered P pid name b
  | _ => True

section

variable {P : Runtime} {es : List SysEvent}

/-- What a step does to the registry: nothing, or it enters the draw under the key of a registration. -/
theorem Thread.step_registry (P : Runtime) (inp : Inputs) (srv : Server) (th : Thread) :
    (th.step P inp srv).1.registry = srv.registry ∨
    ∃ name ds, th = .once (.register name ds) none ∧ srv.registry (Server.registryKey name ds) = none ∧
      inp.draw.length = 27 ∧
      (th.step P inp srv).1.registry = update srv.registry (Server.registryKey name ds) (some inp.draw) := by
  cases th with
  | ingest rq crash pc => exact Or.inl (IngestPc.step_spec rq crash inp srv pc).rolls.registry
  | put pid doc pc => exact Or.inl (PutPc.step_spec pid doc srv pc).rolls.registry
  | once rq answer => cases answer with
    | none =>
      have hstep := onceStep_spec P inp srv rq
      change (onceStep P inp srv rq).1.registry = _ ∨ ∃ name ds, _ ∧ _ ∧ _ ∧ (onceStep P inp srv rq).1.registry = _
      generalize (onceStep P inp srv rq).1 = srv' at *
      generalize (onceStep P inp srv rq).2 = answer at *
      cases hstep with
      -- the draw has passed the check that it is fresh
      | @created name ds h hd =>
        unfold Server.freshDraw at hd
        simp only [Bool.and_eq_true, decide_eq_true_eq] at hd
        exact Or.inr ⟨name, ds, rfl, h, hd.1.1, rfl⟩
      | _ => exact Or.inl rfl
    | some a => exact Or.inl rfl

/-- Entries of the registry do not change. -/
theorem Thread.registry_keep (P : Runtime) (inp : Inputs) {srv : Server} (th : Thread) {key pid : String}
    (h : srv.registry key = some pid) : (th.step P inp srv).1.registry key = some pid := by
  rcases Thread.step_registry P inp srv th with he | ⟨name, ds, -, hnone, -, he⟩
  · rw [he]; exact h
  · rw [he, update_of_ne]
    · exact h
    · -- the key that is entered was not there
      rintro rfl
      rw [h] at hnone
      cases hnone

/-- The registry of the server and the registrations that made it. -/
structure RegistryInv (P : Runtime) (s : Sys) : Prop where
  listed : ∀ th ∈ s.threads, th.Listed P s.srv
  entered : ∀ key pid, s.srv.registry key = some pid → pid.length = 27 ∧
    ∃ name ds, key = Server.registryKey name ds ∧ ∃ th ∈ s.threads, th.request = .register name ds

theorem Thread.Listed.mono {srv srv' : Server} {th : Thread} (h : th.Listed P srv)
    (hkeep : ∀ key pid, srv.registry key = some pid → srv'.registry key = some pid) : th.Listed P srv' := by
  cases th with
  | once rq answer =>
    cases rq with
    | register name ds => cases answer with
      | none => trivial
      | some a =>
        obtain ⟨pid, b, hpid, ha⟩ := h
        exact ⟨pid, b, hkeep _ _ hpid, ha⟩
    | _ => trivial
  | _ => trivial

/-- A registration is listed once it is answered. -/
theorem Thread.Listed.step {srv : Server} {th : Thread} (h : th.Listed P srv) (inp : Inputs) :
    (th.step P inp srv).2.Listed P (th.step P inp srv).1 := by
  cases th with
  | ingest rq crash pc => trivial
  | put pid doc pc => trivial
  | once rq answer => cases answer with
    | some a => exact h.mono fun _ _ hk => hk
    | none =>
      have hstep := onceStep_spec P inp srv rq
      change (Thread.once rq (onceStep P inp srv rq).2).Listed P (onceStep P inp srv rq).1
      generalize (onceStep P inp srv rq).1 = srv' at *
      generalize (onceStep P inp srv rq).2 = answer at *
      cases hstep with
      | known hk => exact ⟨_, _, hk, rfl⟩
      | created hk hd => exact ⟨_, _, update_self _ _ _, rfl⟩
      | @waiting rq => cases rq <;> trivial
      | _ => trivial

/-- A thread arrives, and has registered nothing. -/
theorem RegistryInv.spawn {s : Sys} (h : RegistryInv P s) (crash : Option CrashPoint) (rq : Request) :
    RegistryInv P { s with threads := s.threads ++ [Thread.start crash rq] } := by
  refine ⟨fun th hth => ?_, fun key pid hk => ?_⟩
  · rcases List.mem_append.1 hth with hth | hth
    · exact h.listed th hth
    · rw [List.mem_singleton.1 hth]
      cases rq <;> trivial
  · obtain ⟨hlen, name, ds, hkey, th, hth, hq⟩ := h.entered key pid hk
    exact ⟨hlen, name, ds, hkey, th, List.mem_append_left _ hth, hq⟩

/-- A thread steps, and may register what it was asked to. -/
theorem RegistryInv.tick {s : Sys} (h : RegistryInv P s) {t : ℕ} {th : Thread} (ht : s.threads[t]? = some th)
    (inp : Inputs) : RegistryInv P ⟨(th.step P inp s.srv).1, s.threads.set t (th.step P inp s.srv).2⟩ := by
  have hmem := List.mem_of_getElem? ht
  have hlt := (List.getElem?_eq_some_iff.1 ht).1
  -- the thread of an entry is still there
  have hthere : ∀ th₀ ∈ s.threads, ∃ th₁ ∈ s.threads.set t (th.step P inp s.srv).2, th₁.request = th₀.request := by
    intro th₀ h₀
    obtain ⟨i, hi⟩ := List.mem_iff_getElem?.1 h₀
    by_cases hit : i = t
    · subst hit
      obtain rfl := Option.some.inj (ht.symm.trans hi)
      exact ⟨_, List.mem_set hlt _, Thread.step_request P inp s.srv _⟩
    · exact ⟨th₀, List.mem_of_getElem? ((List.getElem?_set_ne (Ne.symm hit)).trans hi), rfl⟩
  have hold : ∀ {key pid}, s.srv.registry key = some pid → pid.length = 27 ∧ ∃ name ds,
      key = Server.registryKey name ds ∧ ∃ th₁ ∈ s.threads.set t (th.step P inp s.srv).2,
        th₁.request = .register name ds := by
    intro key pid hk
    obtain ⟨hlen, name, ds, hkey, th₀, h₀, hq⟩ := h.entered key pid hk
    obtain ⟨th₁, h₁, hq₁⟩ := hthere th₀ h₀
    exact ⟨hlen, name, ds, hkey, th₁, h₁, hq₁.trans hq⟩
  refine ⟨fun th' hth' => ?listed, fun key pid hk => ?entered⟩
  case listed =>
    rcases List.mem_or_eq_of_mem_set hth' with hth' | rfl
    · exact (h.listed th' hth').mono fun _ _ hk => Thread.registry_keep P inp th hk
    · exact (h.listed th hmem).step inp
  case entered =>
    -- the thread that enters a pid is the registration itself
    rcases Thread.step_registry P inp s.srv th with hr | ⟨name, ds, rfl, -, hlen, hr⟩
    · exact hold (hr ▸ hk)
    · change (Thread.step P inp s.srv (.once (.register name ds) none)).1.registry key = some pid at hk
      rw [hr] at hk
      by_cases hkey : key = Server.registryKey name ds
      · subst hkey
        rw [update_self] at hk
        cases hk
        exact ⟨hlen, name, ds, rfl, _, List.mem_set hlt _, Thread.step_request P inp s.srv _⟩
      · rw [update_of_ne hkey] at hk
        exact hold hk

/-- **A registration is answered with the pid in the registry**, which never changes. -/
theorem registry_inv (P : Runtime) (es : List SysEvent) (n : ℕ) : RegistryInv P (sAt P es n) := by
  refine Sys.invariant (I := RegistryInv P) ⟨by simp, by simp⟩ (fun n hn ih => ?_) n
  generalize sAt P es n = s at *
  rcases Sys.step_cases P s es[n] with ⟨rq, crash, -, he⟩ | ⟨t, inp, th, -, ht, he⟩ | ⟨pid, -, he⟩ | ⟨-, he⟩
  · rw [he]
    exact ih.spawn crash rq
  · rw [he]
    exact ih.tick ht inp
  · have hreg := (SameRolls.pause s.srv pid).registry
    rw [he]
    exact ⟨fun th hth => (ih.listed th hth).mono fun _ _ hk => hreg.symm ▸ hk, fun key p hk => ih.entered key p (hreg ▸ hk)⟩
  · rw [he]; exact ih

end

/-! ## The exchanges of a call -/

/-- Registrations were answered with the pid in the registry, or not at all. -/
def AnswersListed (P : Runtime) (key ds : String) (reg : Option String) (l : List (Request × Answer)) : Prop :=
  ∀ x ∈ l, x.1 = .register key ds → x.2 = .broken ∨ ∃ pid b, reg = some pid ∧ x.2 = registered P pid key b

/-- Once the client is resolved, it has the pid in the registry. -/
def Identified (reg : Option String) (cl : JobClient Request Answer) : Prop :=
  cl.pidResolved = true → ∃ pid, reg = some pid ∧ cl.pid = some pid

section

variable {P : Runtime} {T : HttpTransport} {cl cl' : JobClient Request Answer} {key ds : String} {reg : Option String}
  {l : List (Request × Answer)}

/-- What a registration returns that was answered with a pid. -/
theorem register_registered (P : Runtime) (key ds pid : String) (b : Bool) : ∃ r, registered P pid key b = .reply r ∧
    HttpTransport.isContention r = false ∧ HttpTransport.settle P (.register key ds) r = .ok (some r) ∧
    ∃ body, r.json = some body ∧ body.item "id" = .ok (.str pid) :=
  ⟨_, rfl, rfl, rfl, _, rfl, rfl⟩

/-- **A registration returns the pid in the registry**, or raises without having been answered. -/
theorem talk_register {res : Except PyError (Option String)} (h : Talk (T.register P key ds) l res)
    (hl : AnswersListed P key ds reg l) : (∀ x ∈ l, x.1 = .register key ds) ∧
    ((∃ pid, reg = some pid ∧ res = .ok (some pid) ∧ l ≠ []) ∨ (∃ e, res = .error e) ∧ ∀ x ∈ l, x.2 = .broken) := by
  obtain ⟨l₁, l₂, r, rfl, h₁, h₂⟩ := talk_bind.1 h
  obtain ⟨rfl, hres⟩ := talk_ret.1 h₂
  obtain ⟨l₃, l₄, r₀, rfl, h₃, h₄⟩ := talk_bind.1 h₁
  obtain ⟨rfl, hr⟩ := talk_ret.1 h₄
  rw [List.append_nil, List.append_nil] at *
  have hasks := ((spec_request (P := P) (T := T) (.register key ds)).conv h₃).1
  refine ⟨hasks, ?_⟩
  obtain ⟨contended, last, rfl, hcont, hend⟩ := conv_requestLoop h₃
  -- the server never answers a registration with a contention
  have hnil : contended = [] := by
    rcases contended with _ | ⟨c, contended⟩
    · rfl
    · rcases hl (_, .reply c) (by simp) rfl with hb | ⟨pid, b, -, ha⟩
      · cases hb
      · obtain ⟨r', hr', hc', -⟩ := register_registered P key ds pid b
        rw [hr'] at ha
        cases ha
        rw [hcont c List.mem_cons_self] at hc'
        cases hc'
  subst hnil
  generalize hp : Prog.ret r₀ = p at hend
  cases hend with
  | sending hn => cases hp
  -- too many contentions, or a lost connection: there was no answer
  | gaveUp hn =>
    cases hp
    exact Or.inr ⟨⟨_, hres.trans (by rw [hr]; rfl)⟩, by simp⟩
  | broken hn =>
    cases hp
    exact Or.inr ⟨⟨_, hres.trans (by rw [hr]; rfl)⟩, by simp⟩
  | @settled rsp hn hc =>
    rcases hl (_, .reply rsp) (by simp) rfl with hb | ⟨pid, b, hpid, ha⟩
    · cases hb
    · obtain ⟨r', hr', -, hs, body, hbody, hid⟩ := register_registered P key ds pid b
      rw [hr'] at ha
      cases ha
      have hr₀ : r₀ = .ok (some rsp) := (Prog.ret.inj hp).trans hs
      refine Or.inl ⟨pid, hpid, hres.trans ?_, by simp⟩
      rw [hr, hr₀]
      simp only [HttpTransport.terminal, responseJson, Bind.bind, Except.bind, hbody, hid]
      rfl

/-- **Resolving the identity**: it is the one in the registry, or the client is left as it was. -/
theorem talk_ensurePid_listed (hcl : IsHttp P cl) (hds : cl.config.datasetName = ds) (hok : Identified reg cl)
    {res : Except PyError (Option String)} (h : Talk (cl.ensurePid key) l (res, cl')) (hl : AnswersListed P key ds reg l) :
    (∀ x ∈ l, x.1 = .register key ds) ∧ Identified reg cl' ∧
    ((∃ pid, res = .ok pid ∧ cl'.pidResolved = true ∧ (cl.pidResolved = false → l ≠ [])) ∨
      (∃ e, res = .error e) ∧ cl' = cl ∧ cl.pidResolved = false ∧ ∀ x ∈ l, x.2 = .broken) := by
  unfold JobClient.ensurePid at h
  by_cases hp : cl.pidResolved = true
  · -- a client that is resolved asks nothing
    rw [if_pos hp] at h
    obtain ⟨rfl, he⟩ := talk_ret.1 h
    cases he
    exact ⟨by simp, hok, Or.inl ⟨_, rfl, hp, fun hn => by rw [hp] at hn; cases hn⟩⟩
  · rw [if_neg hp] at h
    obtain ⟨T, hT⟩ := hcl
    obtain ⟨l₁, l₂, r, rfl, h₁, h₂⟩ := talk_bind.1 h
    rw [hT, hds] at h₁
    obtain ⟨hasks, hres⟩ := talk_register h₁ fun x hx => hl x (List.mem_append_left _ hx)
    rcases hres with ⟨pid, hpid, rfl, hne⟩ | ⟨⟨e, rfl⟩, hb⟩
    · obtain ⟨rfl, he⟩ := talk_ret.1 h₂
      cases he
      rw [List.append_nil]
      exact ⟨hasks, fun _ => ⟨pid, hpid, rfl⟩, Or.inl ⟨_, rfl, rfl, fun _ => hne⟩⟩
    · obtain ⟨rfl, he⟩ := talk_ret.1 h₂
      cases he
      rw [List.append_nil]
      exact ⟨hasks, hok, Or.inr ⟨⟨e, rfl⟩, rfl, by simpa using hp, hb⟩⟩

/-- What has been asked, and what is to be asked next. -/
def asksWith {α : Type} (l : List (Request × Answer)) : Prog Request Answer α → List Request
  | .call q _ => l.map Prod.fst ++ [q]
  | .ret _ => l.map Prod.fst

/-- What a call has asked and asks next, and the identity it leaves its client with. -/
structure CallOk {α : Type} (key ds : String) (reg : Option String) (cl : JobClient Request Answer)
    (l : List (Request × Answer)) (p : Prog Request Answer (Except PyError α × JobClient Request Answer)) : Prop where
  asks : ∀ q ∈ asksWith l p, q = .register key ds ∨ ∃ pid, reg = some pid ∧ q.pid? = some pid
  first : cl.pidResolved = false → ∀ q, (asksWith l p).head? = some q → q = .register key ds
  leaves : ∀ v cl', p = .ret (v, cl') → Identified reg cl' ∧ (cl'.pidResolved = true ∨
    cl'.pidResolved = false ∧ cl.pidResolved = false ∧ ∀ x ∈ l, x.1 = .register key ds ∧ x.2 = .broken)

/-- All that is asked to resolve an identity is its registration. -/
theorem spec_ensurePid_register (hcl : IsHttp P cl) (hds : cl.config.datasetName = ds) :
    (cl.ensurePid key).Spec (fun q => q = .register key ds) fun _ => True := by
  obtain ⟨T, hT⟩ := hcl
  unfold JobClient.ensurePid
  split
  · trivial
  · rw [hT, hds]
    have hregister : (T.register P key ds).Spec (fun q => q = .register key ds) fun _ => True :=
      spec_bind (spec_terminalOnConflict _) fun _ _ => trivial
    refine spec_bind hregister fun r _ => ?_
    cases r <;> trivial

/-- **A call that resolves the identity first** goes to the pid in the registry. -/
theorem Resolves.identified {α : Type} {p p' : Prog Request Answer (Except PyError α × JobClient Request Answer)}
    (h : Resolves P cl key p) (hcl : IsHttp P cl) (hds : cl.config.datasetName = ds) (hok : Identified reg cl)
    (hl : AnswersListed P key ds reg l) (hc : Conv p l p') : CallOk key ds reg cl l p' := by
  obtain ⟨f, rfl, herr, hspec⟩ := h
  -- after the identity is resolved, all that is asked goes to it
  have hrest : ∀ {l₁ l₂ : List (Request × Answer)} {res : Except PyError (Option String)} {cl₁ : JobClient Request Answer},
      l = l₁ ++ l₂ → Talk (cl.ensurePid key) l₁ (res, cl₁) → Conv (f (res, cl₁)) l₂ p' → CallOk key ds reg cl l p' := by
    rintro l₁ l₂ res cl₁ rfl h₁ h₂
    obtain ⟨hasks, hok₁, hend⟩ := talk_ensurePid_listed hcl hds hok h₁ fun x hx => hl x (List.mem_append_left _ hx)
    obtain ⟨hsame, -, -, -⟩ := talk_ensurePid h₁
    rcases hend with ⟨pid, rfl, hr, hne⟩ | ⟨⟨e, rfl⟩, rfl, hun, hb⟩
    · obtain ⟨pid₁, hreg, hpid⟩ := hok₁ hr
      obtain ⟨hall, hp'⟩ := (hspec pid cl₁ (hsame.isHttp hcl) hr).conv h₂
      rw [hpid] at hall hp'
      have heq : asksWith (l₁ ++ l₂) p' = l₁.map Prod.fst ++ asksWith l₂ p' := by
        cases p' <;> simp [asksWith]
      refine ⟨fun q hq => ?_, fun hun q hq => ?_, ?_⟩
      · rw [heq] at hq
        rcases List.mem_append.1 hq with hq | hq
        · obtain ⟨x, hx, rfl⟩ := List.mem_map.1 hq
          exact Or.inl (hasks x hx)
        · refine Or.inr ⟨pid₁, hreg, ?_⟩
          cases p' with
          | ret v =>
            obtain ⟨x, hx, rfl⟩ := List.mem_map.1 hq
            exact hall x hx
          | call q' k =>
            rcases List.mem_append.1 hq with hq | hq
            · obtain ⟨x, hx, rfl⟩ := List.mem_map.1 hq
              exact hall x hx
            · rw [List.mem_singleton.1 hq]
              exact hp'.1
      · -- the registration was answered, so it was the first request
        rw [heq] at hq
        obtain ⟨x, l₁', rfl⟩ := List.exists_cons_of_ne_nil (hne hun)
        obtain rfl := Option.some.inj hq
        exact hasks x List.mem_cons_self
      · rintro v cl' rfl
        obtain rfl : cl' = cl₁ := hp'
        exact ⟨hok₁, Or.inl hr⟩
    · -- the registration failed, and the call has raised
      rw [herr] at h₂
      cases h₂
      rw [List.append_nil]
      have hall : ∀ q ∈ l₁.map Prod.fst, q = .register key ds := by
        rintro _ hq
        obtain ⟨x, hx, rfl⟩ := List.mem_map.1 hq
        exact hasks x hx
      refine ⟨fun q hq => Or.inl (hall q hq), fun _ q hq => hall q (List.mem_of_mem_head? hq), ?_⟩
      rintro v cl' ⟨⟩
      exact ⟨hok₁, Or.inr ⟨hun, hun, fun x hx => ⟨hasks x hx, hb x hx⟩⟩⟩
  cases p' with
  | ret x =>
    obtain ⟨l₁, l₂, ⟨res, cl₁⟩, he, h₁, h₂⟩ := talk_bind.1 hc
    exact hrest he h₁ h₂
  | call q k =>
    rcases conv_bind hc with ⟨k', h₁⟩ | ⟨l₁, l₂, ⟨res, cl₁⟩, he, h₁, h₂⟩
    · -- the identity is still to be resolved
      obtain ⟨hall, hq, -⟩ := (spec_ensurePid_register hcl hds).conv h₁
      have hall' : ∀ q' ∈ asksWith l (.call q k), q' = .register key ds := by
        intro q' hq'
        rcases List.mem_append.1 hq' with hq' | hq'
        · obtain ⟨x, hx, rfl⟩ := List.mem_map.1 hq'
          exact hall x hx
        · rw [List.mem_singleton.1 hq']
          exact hq
      exact ⟨fun q' hq' => Or.inl (hall' q' hq'), fun _ q' hq' => hall' q' (List.mem_of_mem_head? hq'), by rintro v cl' ⟨⟩⟩
    · exact hrest he h₁ h₂

/-- A resolved client has its identity whatever the name. -/
theorem Resolves.of_resolved {α : Type} {p : Prog Request Answer (Except PyError α × JobClient Request Answer)}
    (h : Resolves P cl key p) (hres : cl.pidResolved = true) (key' : String) : Resolves P cl key' p := by
  obtain ⟨f, rfl, hrest⟩ := h
  refine ⟨f, ?_, hrest⟩
  unfold JobClient.ensurePid
  rw [if_pos hres, if_pos hres]

/-- A call that has returned without a request has registered under no name. -/
theorem CallOk.silent {α : Type} {x : Except PyError α × JobClient Request Answer} (h : CallOk key ds reg cl [] (.ret x))
    (key' : String) : CallOk key' ds reg cl [] (.ret x) := by
  refine ⟨by simp [asksWith], by simp [asksWith], fun v cl' he => ?_⟩
  obtain ⟨hid, hleft⟩ := h.leaves v cl' he
  exact ⟨hid, hleft.imp_right fun ⟨hun, hun', _⟩ => ⟨hun, hun', by simp⟩⟩

/-- A call that asks nothing. -/
theorem CallOk.idle {α : Type} {v : Except PyError α} (hok : Identified reg cl) :
    CallOk key ds reg cl [] (.ret (v, cl)) := by
  refine ⟨by simp [asksWith], by simp [asksWith], ?_⟩
  rintro v cl' ⟨⟩
  refine ⟨hok, ?_⟩
  cases hr : cl.pidResolved with
  | true => exact Or.inl rfl
  | false => exact Or.inr ⟨rfl, rfl, by simp⟩

end

/-! ## Runs of one pipeline -/

/-- The call begins with a registration. -/
def CallRun.Registers (P : Runtime) (r : CallRun) : Prop :=
  r.start.pidResolved = false ∧ ∃ q k, r.call.prog P r.active r.start = .call q k

/-- The call reads the active pipeline: it registers, and is not told under which name. -/
def CallRun.ReadsActive (P : Runtime) (r : CallRun) : Prop := r.Registers P ∧ ∀ name, r.call ≠ .getStoredState name

/-- The events are those of a pipeline: all clients are opened for its dataset, it is the active one
whenever a call reads which that is, and the state that is restored is its own. -/
structure OfPipeline (P : Runtime) (name ds : String) (es : List Event) : Prop where
  dataset : ∀ config schemaName m, Event.newClient config schemaName m ∈ es → config.datasetName = ds
  active : ∀ r ∈ (wAt P es es.length).calls, r.ReadsActive P → r.active = some name
  stored : ∀ r ∈ (wAt P es es.length).calls, ∀ name', r.call = .getStoredState name' → name' = name

/-- The pid that the pipeline is registered with. -/
def World.pidOf (w : World) (name ds : String) : Option String := w.sys.srv.registry (Server.registryKey name ds)

section

variable {P : Runtime} {es : List Event} {name ds : String} {n : ℕ}

/-- A client that belongs to the pipeline. -/
def ClientOk (reg : Option String) (ds : String) (cl : JobClient Request Answer) : Prop :=
  cl.config.datasetName = ds ∧ Identified reg cl

/-- A call of the pipeline, on a client that belongs to it. -/
structure CallRun.OfPipeline (P : Runtime) (reg : Option String) (name ds : String) (r : CallRun) : Prop where
  start : ClientOk reg ds r.start
  key : r.Registers P → r.call.pipelineKey r.start r.active = name

/-- What the registrations of a call were answered is what the registry has. -/
theorem answers_listed {r : CallRun} (hr : r ∈ (wAt P es n).calls) :
    AnswersListed P name ds ((wAt P es n).pidOf name ds) r.talk := by
  rintro ⟨q, a⟩ hx rfl
  cases a with
  | broken => exact Or.inl rfl
  | reply rsp =>
    obtain ⟨t, th, -, hth, hq, ha⟩ := thread_of_reply hr hx
    have hinv := registry_inv P (sysTrace P es) (sysTime P es n)
    rw [← wAt_sys] at hinv
    have hlisted := hinv.listed th (List.mem_of_getElem? hth)
    cases th with
    | ingest rq crash pc => cases hq
    | put pid doc pc => cases hq
    | once rq answer =>
      obtain rfl : rq = .register name ds := hq
      obtain rfl : answer = some (.reply rsp) := ha
      exact Or.inr hlisted

/-- **A call of the pipeline** asks for its pid, and otherwise goes to it. -/
theorem CallRun.OfPipeline.callOk {r : CallRun} (h : r.OfPipeline P ((wAt P es n).pidOf name ds) name ds)
    (hr : r ∈ (wAt P es n).calls) : CallOk name ds ((wAt P es n).pidOf name ds) r.start r.talk r.prog := by
  have hsound := (world_inv P es n).sound r hr
  have hconv : Conv (r.call.prog P r.active r.start) r.talk r.prog := hsound.conv
  have hprog : (∃ v, r.call.prog P r.active r.start = ret (v, r.start)) ∨
      Resolves P r.start (r.call.pipelineKey r.start r.active) (r.call.prog P r.active r.start) := prog_resolves r.call
  rcases hprog with ⟨v, he⟩ | hres
  · -- a call that asks nothing
    rw [he] at hconv
    generalize r.talk = l at *
    generalize r.prog = p at *
    cases hconv
    exact .idle h.start.2
  by_cases hresolved : r.start.pidResolved = true
  · exact (hres.of_resolved hresolved name).identified hsound.http h.start.1 h.start.2 (answers_listed hr) hconv
  cases hp : r.call.prog P r.active r.start with
  | call q k =>
    rw [h.key ⟨by simpa using hresolved, q, k, hp⟩] at hres
    exact hres.identified hsound.http h.start.1 h.start.2 (answers_listed hr) hconv
  | ret x =>
    -- a call that raises before it registers
    have hcall : ∀ {l p}, Conv (r.call.prog P r.active r.start) l p → l = [] → CallOk _ ds _ r.start l p := fun hc hl =>
      hres.identified hsound.http h.start.1 h.start.2 (by rw [hl]; rintro _ ⟨⟩) hc
    rw [hp] at hconv hcall
    generalize r.talk = l at *
    generalize r.prog = p at *
    cases hconv
    exact (hcall (.nil _) rfl).silent name

/-- The clients and the calls belong to the pipeline. -/
structure IdentityInv (P : Runtime) (name ds : String) (w : World) : Prop where
  clients : ∀ cl ∈ w.clients, ClientOk (w.pidOf name ds) ds cl
  calls : ∀ r ∈ w.calls, r.OfPipeline P (w.pidOf name ds) name ds

theorem ClientOk.mono {reg reg' : Option String} {cl : JobClient Request Answer} (h : ClientOk reg ds cl)
    (hle : ∀ pid, reg = some pid → reg' = some pid) : ClientOk reg' ds cl := by
  refine ⟨h.1, fun hr => ?_⟩
  obtain ⟨pid, hreg, hpid⟩ := h.2 hr
  exact ⟨pid, hle pid hreg, hpid⟩

theorem IdentityInv.mono {w : World} (h : IdentityInv P name ds w) {sys : Sys}
    (hle : ∀ pid, w.pidOf name ds = some pid → sys.srv.registry (Server.registryKey name ds) = some pid) :
    IdentityInv P name ds { w with sys := sys } :=
  ⟨fun cl hcl => (h.clients cl hcl).mono hle, fun r hr => ⟨(h.calls r hr).start.mono hle, (h.calls r hr).key⟩⟩

/-- The client that a call of the pipeline leaves belongs to it too. -/
theorem clientOk_settle {w : World} (hw : wAt P es n = w) {r : CallRun} (hr : r ∈ w.calls)
    (hp : r.OfPipeline P (w.pidOf name ds) name ds) {clients : List (JobClient Request Answer)}
    (hold : ∀ cl ∈ clients, ClientOk (w.pidOf name ds) ds cl) :
    ∀ cl ∈ settleClient clients r.client r.prog, ClientOk (w.pidOf name ds) ds cl := by
  subst hw
  have hok := hp.callOk hr
  have hspec := ((world_inv P es n).sound r hr).spec.2
  generalize r.prog = p at hok hspec ⊢
  intro cl hm
  cases p with
  -- the call is over, and what it left is put in the place of its client
  | ret x =>
    obtain ⟨v, cl'⟩ := x
    rcases List.mem_or_eq_of_mem_set hm with hm | rfl
    · exact hold cl hm
    · have hsame : SameClient r.start cl := hspec
      exact ⟨(congrArg Config.datasetName hsame.config).trans hp.start.1, (hok.leaves v cl rfl).1⟩
  | call q k => exact hold cl hm

/-- The name that a call of the pipeline registers under. -/
theorem OfPipeline.key (hes : OfPipeline P name ds es) (hname : name ≠ "") (hn : n ≤ es.length) {j : ℕ} {r : CallRun}
    (hj : (wAt P es n).calls[j]? = some r) (hreg : r.Registers P) : r.call.pipelineKey r.start r.active = name := by
  obtain ⟨r', hj', hle⟩ := calls_mono hn hj
  have hr' := List.mem_of_getElem? hj'
  by_cases hstored : ∃ name', r.call = .getStoredState name'
  · obtain ⟨name', hcall⟩ := hstored
    rw [hcall]
    exact hes.stored r' hr' name' (hle.call.trans hcall)
  · have hreads : r'.ReadsActive P := by
      unfold CallRun.ReadsActive CallRun.Registers
      rw [hle.call, hle.active, hle.start]
      exact ⟨hreg, fun name' hcall => hstored ⟨name', hcall⟩⟩
    have hkey : r.start.fallbackKey r.active = name := by
      rw [← hle.active, hes.active r' hr' hreads]
      exact if_pos hname
    generalize r.call = op at *
    cases op with
    | getStoredState name' => exact absurd ⟨name', rfl⟩ hstored
    | _ => exact hkey

/-- A call that goes on leaves its client in the pipeline. -/
theorem IdentityInv.proceed {w w' : World} (h : IdentityInv P name ds w) (hw' : wAt P es n = w') {j : ℕ} {r : CallRun}
    {x : Exchange} {prog : Prog Request Answer (Except PyError Val × JobClient Request Answer)}
    (hj : w.calls[j]? = some r) (he : w' = w.proceed j r x prog) : IdentityInv P name ds w' := by
  rw [World.proceed_eq] at he
  have hlt := (List.getElem?_eq_some_iff.1 hj).1
  have hr := h.calls r (List.mem_of_getElem? hj)
  have hr' : CallRun.OfPipeline P (w'.pidOf name ds) name ds { r with log := r.log ++ [x], prog := prog, wait := none } := by
    rw [he]
    exact ⟨hr.start, hr.key⟩
  refine ⟨?_, fun r₁ hr₁ => ?_⟩
  · have hin : { r with log := r.log ++ [x], prog := prog, wait := none } ∈ w'.calls := by
      rw [he]
      exact List.mem_set hlt _
    have hold : ∀ cl ∈ w.clients, ClientOk (w'.pidOf name ds) ds cl := by
      rw [he]
      exact h.clients
    have hsettled := clientOk_settle hw' hin hr' hold
    rw [he] at hsettled ⊢
    exact hsettled
  · rw [he] at hr₁ hr' ⊢
    rcases List.mem_or_eq_of_mem_set hr₁ with hr₁ | rfl
    · exact h.calls r₁ hr₁
    · exact hr'

/-- A call is replaced by one that begins in the same way. -/
theorem IdentityInv.set {w : World} (h : IdentityInv P name ds w) {j : ℕ} {r r' : CallRun} (hj : w.calls[j]? = some r)
    (hstart : r'.start = r.start) (hcall : r'.call = r.call) (hactive : r'.active = r.active) :
    IdentityInv P name ds { w with calls := w.calls.set j r' } := by
  refine ⟨h.clients, fun r₁ hr₁ => ?_⟩
  rcases List.mem_or_eq_of_mem_set hr₁ with hr₁ | rfl
  · exact h.calls r₁ hr₁
  · have hr := h.calls r (List.mem_of_getElem? hj)
    exact ⟨hstart ▸ hr.start, by unfold CallRun.Registers; rw [hstart, hcall, hactive]; exact hr.key⟩

/-- The server does something, and keeps the entries of the registry. -/
theorem IdentityInv.sys {w : World} (h : IdentityInv P name ds w) (e : SysEvent) :
    IdentityInv P name ds { w with sys := Sys.step P w.sys e } := by
  refine h.mono fun pid hpid => ?_
  rcases Sys.step_cases P w.sys e with ⟨rq, crash, -, he⟩ | ⟨t, inp, th, -, ht, he⟩ | ⟨pid', -, he⟩ | ⟨-, he⟩
  · rw [he]; exact hpid
  · rw [he]; exact Thread.registry_keep P inp th hpid
  · rw [he]
    change (w.sys.srv.pause pid').registry _ = _
    rw [(SameRolls.pause w.sys.srv pid').registry]
    exact hpid
  · rw [he]; exact hpid

/-- **All clients and calls of a run belong to the pipeline.** -/
theorem identity_inv (hname : name ≠ "") (hes : OfPipeline P name ds es) :
    ∀ n, IdentityInv P name ds (wAt P es n) := by
  refine World.invariant ⟨by simp, by simp⟩ fun n hn ih => ?_
  have hstep := World.step_spec P (wAt P es n) es[n]
  have hmem : es[n] ∈ es := List.getElem_mem hn
  have hw' := wAt_succ (P := P) hn
  generalize wAt P es n = w at *
  generalize World.step P w es[n] = w' at *
  generalize w.sysEvents es[n] = ses at *
  generalize es[n] = e at *
  cases hstep with
  | opened config schemaName m =>
    refine ⟨fun cl hcl => ?_, ih.calls⟩
    rcases List.mem_append.1 hcl with hcl | hcl
    · exact ih.clients cl hcl
    · -- a new client is for the dataset, and has no identity yet
      rw [List.mem_singleton.1 hcl]
      exact ⟨hes.dataset config schemaName m hmem, fun h => by cases h⟩
  | @called c active op cl hc hidle =>
    have hnew : CallRun.OfPipeline P (w.pidOf name ds) name ds
        { client := c, call := op, active := active, start := cl, prog := op.prog P active cl } :=
      ⟨ih.clients cl (List.mem_of_getElem? hc), hes.key hname hn (j := w.calls.length) (by rw [hw']; simp)⟩
    refine ⟨clientOk_settle hw' (List.mem_append_right _ (List.mem_singleton.2 rfl)) hnew ih.clients, fun r hr => ?_⟩
    rcases List.mem_append.1 hr with hr | hr
    · exact ih.calls r hr
    · rw [List.mem_singleton.1 hr]
      exact hnew
  | @sent j crash r q k hj hp hl hw =>
    have hsys := ih.sys (P := P) (.spawn q crash)
    exact hsys.set hj rfl rfl rfl
  | received hj hp hl hw ht ha => exact ih.proceed hw' hj rfl
  | lost hj hp hl => exact ih.proceed hw' hj rfl
  | abandoned hj => exact ih.set hj rfl rfl rfl
  | ticked t inp => exact ih.sys _
  | paused pid => exact ih.sys _
  | idle => exact ih

end

/-! ## One identity -/

/-- What the call has asked, and what it is to ask next. -/
def CallRun.asks (r : CallRun) : List Request := asksWith r.talk r.prog

theorem CallRun.Sent.asks {r : CallRun} {t : ℕ} {q : Request} (h : r.Sent t q) : q ∈ r.asks := by
  unfold CallRun.asks
  rcases h with ⟨x, hx, -, rfl⟩ | ⟨-, k, hp⟩
  · have hm : x.request ∈ r.talk.map Prod.fst := List.mem_map.2 ⟨_, List.mem_map_of_mem hx, rfl⟩
    cases r.prog with
    | ret v => exact hm
    | call q k => exact List.mem_append_left _ hm
  · rw [hp]
    exact List.mem_append_right _ (List.mem_singleton.2 rfl)

section

variable {P : Runtime} {es : List Event} {name ds : String} {n : ℕ}

/-- A thread of the server has a request for the pid, or to the pid. -/
theorem request_of_thread (hname : name ≠ "") (hes : OfPipeline P name ds es) {th : Thread}
    (hth : th ∈ (wAt P es n).sys.threads) : th.request = .register name ds ∨
      ∃ pid, (wAt P es n).pidOf name ds = some pid ∧ th.request.pid? = some pid := by
  obtain ⟨t, ht⟩ := List.mem_iff_getElem?.1 hth
  -- every thread was sent by a call of the pipeline
  obtain ⟨r, hr, hsent⟩ := (world_inv P es n).sent ht
  exact (((identity_inv hname hes n).calls r hr).callOk hr).asks _ hsent.asks

end

/-- **One pipeline, one identity.** In every run of the clients of a pipeline:

* the registry has no key but the pipeline's;
* every request but a registration goes to the pid that the registry has, which is not `None`;
* a call on a client that is not resolved registers first;
* a call that has returned leaves its client resolved, with the pid of the registry, or not
  resolved if all that it asked was registrations that were not answered;
* and the next call on that client begins with what it left. -/
theorem one_identity (P : Runtime) (es : List Event) (name ds : String) (hname : name ≠ "")
    (hes : OfPipeline P name ds es) (n : ℕ) :
    (∀ key pid, (wAt P es n).sys.srv.registry key = some pid → key = Server.registryKey name ds) ∧
    (∀ th ∈ (wAt P es n).sys.threads, ∀ pid, th.request.pid? = some pid →
      (wAt P es n).sys.srv.registry (Server.registryKey name ds) = some pid ∧ pid ≠ HttpTransport.pidText none) ∧
    (∀ r ∈ (wAt P es n).calls, r.start.pidResolved = false →
      ∀ q, r.asks.head? = some q → q = .register name ds) ∧
    (∀ r ∈ (wAt P es n).calls, ∀ v cl, r.prog = .ret (v, cl) →
      (cl.pidResolved = true ∧ ∃ pid, (wAt P es n).sys.srv.registry (Server.registryKey name ds) = some pid ∧
        cl.pid = some pid) ∨
      (cl.pidResolved = false ∧ ∀ x ∈ r.log, x.request = .register name ds ∧ x.answer = .broken)) ∧
    ∀ j j' r r', (wAt P es n).Next j j' r r' → ∃ v, r.prog = .ret (v, r'.start) := by
  have hinv := identity_inv (P := P) hname hes n
  have hreg := registry_inv P (sysTrace P es) (sysTime P es n)
  rw [← wAt_sys] at hreg
  have hok : ∀ r ∈ (wAt P es n).calls, CallOk name ds ((wAt P es n).pidOf name ds) r.start r.talk r.prog :=
    fun r hr => (hinv.calls r hr).callOk hr
  refine ⟨fun key pid hk => ?_, fun th hth pid hpid => ?_, fun r hr hun q hq => (hok r hr).first hun q hq,
    fun r hr v cl hp => ?_, fun j j' r r' hn => (client_inv P es n).next hn⟩
  · -- a key is there for a registration, and all registrations are the pipeline's
    obtain ⟨-, name', ds', rfl, th, hth, hq⟩ := hreg.entered key pid hk
    rcases request_of_thread hname hes hth with h | ⟨pid', -, hp⟩
    · rw [hq] at h
      cases h
      rfl
    · rw [hq] at hp
      cases hp
  · rcases request_of_thread hname hes hth with h | ⟨pid', hpid', hp⟩
    · rw [h] at hpid
      cases hpid
    · rw [hpid] at hp
      cases hp
      obtain ⟨hlen, -⟩ := hreg.entered _ _ hpid'
      refine ⟨hpid', ?_⟩
      -- a pid has 27 characters, and `None` has four
      rintro rfl
      exact absurd hlen (by decide)
  · obtain ⟨hid, hres | ⟨hun, -, hall⟩⟩ := (hok r hr).leaves v cl hp
    · exact Or.inl ⟨hres, hid hres⟩
    · exact Or.inr ⟨hun, fun x hx => hall (x.request, x.answer) (List.mem_map_of_mem hx)⟩

/-- A registration is lost, another client registers, and then the first one does so again. -/
def retriedRun : List Event :=
  [.newClient ⟨"shop", 50000, 4194304⟩ "shop" 20, .newClient ⟨"shop", 50000, 4194304⟩ "shop" 20,
    .call 0 (some "shop") (.completeLoad "1.0"), .send 0 none, .lose 0,
    .call 1 none (.getStoredState "shop")] ++ exchange 1 1 1 ++ exchange 1 2 1 ++
    [.call 0 (some "shop") (.completeLoad "1.0")] ++ exchange 2 3 1 ++ exchange 2 4 1

theorem ofPipeline_retriedRun : OfPipeline .plain "shop" "shop" retriedRun := by
  have hcalls : (wAt .plain retriedRun retriedRun.length).calls.map (fun r => (r.call, r.active)) =
      [(.completeLoad "1.0", some "shop"), (.getStoredState "shop", none), (.completeLoad "1.0", some "shop")] := rfl
  have hmem : ∀ r ∈ (wAt .plain retriedRun retriedRun.length).calls,
      (r.call = .completeLoad "1.0" ∧ r.active = some "shop") ∨ r.call = .getStoredState "shop" := fun r hr => by
    have hr' := List.mem_map_of_mem (f := fun r : CallRun => (r.call, r.active)) hr
    rw [hcalls] at hr'
    simp only [List.mem_cons, Prod.mk.injEq, List.not_mem_nil, or_false] at hr'
    exact hr'.elim Or.inl fun h => h.elim (fun h => Or.inr h.1) Or.inl
  refine ⟨fun config schemaName m h => ?_, fun r hr hreads => ?_, fun r hr name' hcall => ?_⟩
  · simp [retriedRun, exchange] at h
    rw [h.1]
  · exact (hmem r hr).elim And.right fun h => absurd h (hreads.2 "shop")
  · rcases hmem r hr with ⟨h, -⟩ | h
    · rw [hcall] at h
      cases h
    · rw [hcall] at h
      cases h
      rfl

/-- The client that had lost its registration gets the pid of the other one. -/
theorem one_identity_retried :
    ∃ r v cl, (wAt .plain retriedRun 19).calls[2]? = some r ∧ r.start.pidResolved = false ∧ r.prog = .ret (v, cl) ∧
      ∃ pid, (wAt .plain retriedRun 19).sys.srv.registry "shop|shop" = some pid ∧ cl.pid = some pid := by
  obtain ⟨-, -, -, hleft, -⟩ := one_identity .plain retriedRun "shop" "shop" (by decide) ofPipeline_retriedRun 19
  have hr : ∃ r v cl, (wAt .plain retriedRun 19).calls[2]? = some r ∧ r.start.pidResolved = false ∧
      r.prog = .ret (v, cl) ∧ cl.pidResolved = true := ⟨_, _, _, rfl, rfl, rfl, rfl⟩
  obtain ⟨r, v, cl, hr, hun, hp, hcl⟩ := hr
  refine ⟨r, v, cl, hr, hun, hp, ?_⟩
  rcases hleft r (List.mem_of_getElem? hr) v cl hp with ⟨-, h⟩ | ⟨hun', -⟩
  · exact h
  · rw [hcl] at hun'
    cases hun'

end Matterbeam
