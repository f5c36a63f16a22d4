import Matterbeam.Proof.Register

/-!
# The published cursor

A state row names the load it was written in. Nothing in `MatterbeamStateJob.run` or on the
server looks at whether that load has landed: the order in which its jobs are run decides.

* `early_cursor`: the state job is run first, and a fresh machine reads a cursor whose rows are
  in no segment.
* `cursor_safe`: **where the state is written last, the cursor is never ahead of the data.**
-/

namespace Matterbeam

open Prog

/-- The call publishes load `L`: it writes a state row that is read back as of `L`. -/
def Call.Publishes (P : Runtime) (L : String) (op : Call) : Prop :=
  ∃ row, op.putRow P = some row ∧ (JobClient.stateDoc row).get "dlt_load_id" = .str L

/-- Every row of the job is committed, under one pid. -/
def JobLanded (P : Runtime) (srv : Server) (job : LoadJob) : Prop :=
  ∃ pid, ∀ row ∈ job.fileRows P, ∃ e,
    buildWireRecord row (keyFields job.table) (hardDeleteFields job.table) = .ok e ∧
      Committed srv pid job.table.name job.loadId e

/-- Whenever a read returns a state of load `L`, the jobs have landed. -/
def CursorSafe (P : Runtime) (es : List Event) (L : String) (jobs : List LoadJob) : Prop :=
  ∀ n, ∀ r ∈ (wAt P es n).calls, ∀ (name : String) (info : StateInfo) (cl : JobClient Request Answer), r.call = .getStoredState name →
    r.prog = .ret (.ok (.state (some info)), cl) → info.dltLoadId = .str L →
      ∀ job ∈ jobs, JobLanded P (wAt P es n).sys.srv job

/-- A call that publishes `L` begins only when every one of the jobs has returned. -/
def PublishedLast (P : Runtime) (es : List Event) (L : String) (jobs : List LoadJob) : Prop :=
  ∀ (n j : ℕ) (r : CallRun), (wAt P es n).calls[j]? = none → (wAt P es (n + 1)).calls[j]? = some r → r.call.Publishes P L →
    ∀ job ∈ jobs, ∃ r' ∈ (wAt P es n).calls, r'.call = .loadJob job ∧ ∃ cl, r'.prog = .ret (.ok .unit, cl)

section

variable {P : Runtime} {es : List Event} {n : ℕ} {r : CallRun}

theorem Committed.later {pid table loadId : String} {e : Envelope} {m : ℕ} (hnm : n ≤ m)
    (h : Committed (wAt P es n).sys.srv pid table loadId e) : Committed (wAt P es m).sys.srv pid table loadId e := by
  rw [wAt_sys] at h ⊢
  exact h.mono fun _ hs => (segments_grow (sysTime_le hnm)).subset hs

/-- Every call has begun at some moment. -/
theorem exists_begin (hr : r ∈ (wAt P es n).calls) : ∃ (m j : ℕ) (r' : CallRun), m < n ∧ (wAt P es m).calls[j]? = none ∧
    (wAt P es (m + 1)).calls[j]? = some r' ∧ r'.call = r.call := by
  obtain ⟨j, hj⟩ := List.mem_iff_getElem?.1 hr
  clear hr
  induction n generalizing r with
  | zero => cases hj
  | succ n ih =>
    cases hn : (wAt P es n).calls[j]? with
    | none => exact ⟨n, j, r, by omega, hn, hj, rfl⟩
    | some r₀ =>
      obtain ⟨r₁, hr₁, hle⟩ := calls_mono (show n ≤ n + 1 by omega) hn
      rw [hj] at hr₁
      cases hr₁
      obtain ⟨m, j', r', hm, h₁, h₂, hc⟩ := ih hn
      exact ⟨m, j', r', by omega, h₁, h₂, hc.trans hle.call.symm⟩

/-- A call that has returned stays as it is. -/
theorem CallRun.Le.returned {r' : CallRun} {sys sys' : Sys} (h : r.Le r') (hs : r.Sound P sys) (hs' : r'.Sound P sys')
    {x : Except PyError Val × JobClient Request Answer} (hret : r.prog = .ret x) : r'.prog = .ret x := by
  obtain ⟨l, hl⟩ := h.log
  have htalk : r'.talk = r.talk ++ l.map fun x => (x.request, x.answer) := by
    unfold CallRun.talk
    rw [← hl, List.map_append]
  have hconv := hs'.conv
  have hprog : r'.program P = r.program P := by
    unfold CallRun.program
    rw [h.call, h.active, h.start]
  rw [htalk, hprog] at hconv
  obtain ⟨p, h₁, h₂⟩ := hconv.split
  rw [h₁.det hs.conv, hret] at h₂
  generalize l.map (fun x => (x.request, x.answer)) = l' at h₂
  generalize r'.prog = p' at h₂ ⊢
  cases h₂
  rfl

/-- The state is written last if nothing publishes `L` before a moment by which every job has
returned. -/
theorem PublishedLast.of_moment {L : String} {jobs : List LoadJob} (k : ℕ)
    (hbefore : ∀ r ∈ (wAt P es k).calls, ¬ r.call.Publishes P L)
    (hjobs : ∀ job ∈ jobs, ∃ r ∈ (wAt P es k).calls, r.call = .loadJob job ∧ ∃ cl, r.prog = .ret (.ok .unit, cl)) :
    PublishedLast P es L jobs := by
  intro n j r hnone hsome hpub job hjob
  rcases Nat.lt_or_ge n k with hlt | hge
  · obtain ⟨r', hr', hle⟩ := calls_mono (show n + 1 ≤ k by omega) hsome
    exact absurd (hle.call.symm ▸ hpub) (hbefore r' (List.mem_of_getElem? hr'))
  · obtain ⟨r₀, hr₀, hcall, cl, hret⟩ := hjobs job hjob
    obtain ⟨i, hi⟩ := List.mem_iff_getElem?.1 hr₀
    obtain ⟨r₁, hr₁, hle⟩ := calls_mono hge hi
    have hm := List.mem_of_getElem? hr₁
    exact ⟨r₁, hm, hle.call.trans hcall, cl,
      hle.returned ((world_inv P es k).sound r₀ hr₀) ((world_inv P es n).sound r₁ hm) hret⟩

/-- The load that a state is read back as of. -/
theorem readState_loadId {doc : Row} {info : StateInfo} (h : JobClient.readState doc.toJson = .ok (some info)) :
    info.dltLoadId = doc.get "dlt_load_id" := by
  have hinfo : JobClient.stateInfo doc.toJson = .ok info := by
    unfold JobClient.readState at h
    rw [if_neg (by simp [Row.toJson])] at h
    cases hs : JobClient.stateInfo doc.toJson with
    | error e => rw [hs] at h; cases h
    | ok info' => rw [hs] at h; cases h; rfl
  unfold JobClient.stateInfo at hinfo
  cases h₁ : doc.toJson.item "version" with
  | error e => rw [h₁] at hinfo; cases hinfo
  | ok v₁ => cases h₂ : doc.toJson.item "engine_version" with
    | error e => rw [h₁, h₂] at hinfo; cases hinfo
    | ok v₂ => cases h₃ : doc.toJson.item "pipeline_name" with
      | error e => rw [h₁, h₂, h₃] at hinfo; cases hinfo
      | ok v₃ => cases h₄ : doc.toJson.item "state" with
        | error e => rw [h₁, h₂, h₃, h₄] at hinfo; cases hinfo
        | ok v₄ => cases h₅ : doc.toJson.item "created_at" with
          | error e => rw [h₁, h₂, h₃, h₄, h₅] at hinfo; cases hinfo
          | ok v₅ =>
            rw [h₁, h₂, h₃, h₄, h₅, JobClient.get_toJson, JobClient.get_toJson] at hinfo
            cases hinfo
            rfl

end

/-- **Where the state is written last, the cursor is never ahead of the data**: a state of load
`L` that is read was published by a call that began when every job of `L` had returned, and
by then every row of them was in the store. -/
theorem cursor_safe (P : Runtime) (es : List Event) (L : String) (jobs : List LoadJob)
    (hjobs : ∀ job ∈ jobs, job.loadId = L) (hes : Unmixed (· = L) (sysTrace P es))
    (hlast : PublishedLast P es L jobs) : CursorSafe P es L jobs := by
  intro n r hr name info cl hcall hret hload job hjob
  rcases get_reads hr hcall hret with ⟨-, h⟩ | ⟨pid, t, m, -, -, hm, -, hread⟩
  · cases h
  rcases hread with ⟨-, h⟩ | ⟨doc, hdoc, hread⟩
  · cases h
  -- the state that was read is the last one accepted, which some call has published
  rw [dltState_eq] at hdoc
  obtain ⟨⟨t', doc'⟩, hw, rfl⟩ := Option.map_eq_some_iff.1 hdoc
  obtain ⟨r', hr', -, row, hrow, rfl⟩ := accepted_row (List.mem_of_getLast? hw) hm.le
  have hpub : r'.call.Publishes P L := ⟨row, hrow, (readState_loadId hread).symm.trans hload⟩
  -- that call began when the job had returned
  obtain ⟨k, j, r₀, hk, hnone, hsome, hc⟩ := exists_begin hr'
  obtain ⟨r₁, hr₁, hjob₁, cl₁, hret₁⟩ := hlast k j r₀ hnone hsome (hc ▸ hpub) job hjob
  have hland := job_committed hes hr₁ (hjobs job hjob) hjob₁ hret₁
  refine ⟨HttpTransport.pidText cl₁.pid, fun row hrow => ?_⟩
  obtain ⟨e, he, hcom⟩ := hland row hrow
  exact ⟨e, he, hcom.later hk.le⟩

/-! ### Both orders -/

/-- Every call is made on a client of its own: the state job of load `1.0`, a read on a fresh
machine, and the load's table job. -/
def earlyRun : List Event :=
  [.newClient ⟨"shop", 50000, 4194304⟩ "shop" 20, .newClient ⟨"shop", 50000, 4194304⟩ "shop" 20,
    .newClient ⟨"shop", 50000, 4194304⟩ "shop" 20, .call 0 (some "shop") (.stateJob [.bare (stateRowOf 1 "1.0")])] ++
    exchange 0 0 1 ++ exchange 0 1 4 ++ [.call 1 none (.getStoredState "shop")] ++ exchange 1 2 1 ++ exchange 1 3 1 ++
    [.call 2 (some "shop") (.loadJob (ordersJob [1]))] ++ exchange 2 4 1 ++ exchange 2 5 11

theorem ingests_earlyRun : ingests (sysTrace .plain earlyRun) = [ordersChunk] := by decide

/-- **The cursor is ahead of the data**: the state of load `1.0` is read when its table job has not
begun, and no row of it is in the store. -/
theorem early_cursor : (∀ job ∈ [ordersJob [1]], job.loadId = "1.0") ∧
    Unmixed (· = "1.0") (sysTrace .plain earlyRun) ∧ ¬ CursorSafe .plain earlyRun "1.0" [ordersJob [1]] := by
  refine ⟨by simp [ordersJob], RowsOk.unmixed (.of_ingests ingests_earlyRun (by decide) (by decide))
    (.of_ingests ingests_earlyRun (by decide)) _, fun h => ?_⟩
  have hr : ∃ r info cl, (wAt .plain earlyRun 20).calls[1]? = some r ∧ r.call = .getStoredState "shop" ∧
      r.prog = .ret (.ok (.state (some info)), cl) ∧ info.dltLoadId = .str "1.0" := ⟨_, _, _, rfl, rfl, rfl, rfl⟩
  obtain ⟨r, info, cl, hr, hcall, hret, hload⟩ := hr
  obtain ⟨pid, hland⟩ := h 20 r (List.mem_of_getElem? hr) _ info cl hcall hret hload _ (List.mem_singleton.2 rfl)
  have hrow : (ordersJob [1]).fileRows .plain ≠ [] := by decide
  obtain ⟨row, hm⟩ := List.exists_mem_of_ne_nil _ hrow
  obtain ⟨e, -, seg, hseg, -⟩ := hland row hm
  have hsegs : (wAt .plain earlyRun 20).sys.srv.segments = [] := rfl
  rw [hsegs] at hseg
  cases hseg

/-- The same jobs, the table job first. -/
def lateRun : List Event :=
  [.newClient ⟨"shop", 50000, 4194304⟩ "shop" 20, .newClient ⟨"shop", 50000, 4194304⟩ "shop" 20,
    .newClient ⟨"shop", 50000, 4194304⟩ "shop" 20, .call 2 (some "shop") (.loadJob (ordersJob [1]))] ++
    exchange 0 0 1 ++ exchange 0 1 11 ++ [.call 0 (some "shop") (.stateJob [.bare (stateRowOf 1 "1.0")])] ++
    exchange 1 2 1 ++ exchange 1 3 4 ++ [.call 1 none (.getStoredState "shop")] ++ exchange 2 4 1 ++ exchange 2 5 1

theorem ingests_lateRun : ingests (sysTrace .plain lateRun) = [ordersChunk] := by decide

/-- In this order the state is read only with the rows in the store. -/
theorem cursor_safe_late : CursorSafe .plain lateRun "1.0" [ordersJob [1]] ∧
    ∃ r ∈ (wAt .plain lateRun 37).calls, ∃ info cl, r.call = .getStoredState "shop" ∧
      r.prog = .ret (.ok (.state (some info)), cl) ∧ info.dltLoadId = .str "1.0" := by
  refine ⟨cursor_safe .plain lateRun "1.0" [ordersJob [1]] (by simp [ordersJob])
    (RowsOk.unmixed (.of_ingests ingests_lateRun (by decide) (by decide)) (.of_ingests ingests_lateRun (by decide)) _)
    (.of_moment 20 ?_ ?_), ?_⟩
  · intro r hr
    have hcalls : (wAt .plain lateRun 20).calls.map CallRun.call = [.loadJob (ordersJob [1])] := rfl
    have hcall : r.call ∈ (wAt .plain lateRun 20).calls.map CallRun.call := List.mem_map_of_mem hr
    rw [hcalls, List.mem_singleton] at hcall
    rw [hcall]
    rintro ⟨row, hrow, -⟩
    cases hrow
  · intro job hjob
    rw [List.mem_singleton.1 hjob]
    exact ⟨_, List.mem_singleton.2 rfl, rfl, _, rfl⟩
  · have hr : ∃ r info cl, (wAt .plain lateRun 37).calls[2]? = some r ∧ r.call = .getStoredState "shop" ∧
        r.prog = .ret (.ok (.state (some info)), cl) ∧ info.dltLoadId = .str "1.0" := ⟨_, _, _, rfl, rfl, rfl, rfl⟩
    obtain ⟨r, info, cl, hr, hrest⟩ := hr
    exact ⟨r, List.mem_of_getElem? hr, info, cl, hrest⟩

end Matterbeam
