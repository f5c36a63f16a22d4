import Matterbeam.Proof.FileMerge
import Matterbeam.Proof.HttpMerge
import Matterbeam.Proof.Inversions
import Matterbeam.Proof.JobLog

/-!
# What loads make of a table

A table is loaded by one job after another, each from any client and run as often as it takes, while
other tables are loaded too and chunks of jobs that are over still arrive.

* `Loaded`: the jobs that a table has been loaded by.
* `loaded_inv`: the records of the table are the lines of the jobs, in order.
* `loads_folded`: **the fold of the table is the walk over the rows of the jobs**.
* `transports_agree`: **over the file transport the same jobs leave the same table**.
-/

namespace Matterbeam

open Prog

/-! ## Segments and who sent them -/

section

variable {P : Runtime}

/-- The segment is that of a chunk in a thread, and its records have the ids of lines of it. -/
def Segment.Sourced (s : Sys) (seg : Segment) : Prop :=
  (∃ (t : ℕ) (th : Thread), s.threads[t]? = some th ∧ th.request = .ingest seg.request) ∧
    seg.recordtypeId = seg.request.recordtypeId ∧
    ∀ record ∈ seg.records, ∃ e ∈ seg.request.lines, recordKey record = e.key

/-- **Every segment has its source.** -/
theorem sourced {es : List SysEvent} (hes : IdsOk es) (hcrash : MarksOk es) (n : ℕ) :
    ∀ seg ∈ (sAt P es n).srv.segments, seg.Sourced (sAt P es n) := by
  refine Sys.invariant (I := fun s => ∀ seg ∈ s.srv.segments, seg.Sourced s) (by simp) (fun n hn ih => ?_) n
  rw [← sAt_succ hn]
  have hkeep : ∀ {seg : Segment}, seg.Sourced (sAt P es n) → seg.Sourced (sAt P es (n + 1)) := by
    rintro seg ⟨⟨t, th, ht, hq⟩, hrest⟩
    obtain ⟨th', ht', hq', -⟩ := thread_mono (Nat.le_succ n) ht
    exact ⟨⟨t, th', ht', hq'.trans hq⟩, hrest⟩
  rcases segments_succ (P := P) hn with he | ⟨t, rq, b, beginMs, noise, ⟨crash, v, ms, ht⟩, he⟩
  · rw [he]
    exact fun seg hseg => hkeep (ih seg hseg)
  · rw [he]
    intro seg hseg
    rcases List.mem_append.1 hseg with hseg | hseg
    · exact hkeep (ih seg hseg)
    · rw [List.mem_singleton.1 hseg]
      refine hkeep ⟨⟨t, _, ht, rfl⟩, rfl, fun record hrecord => ?_⟩
      -- what is kept of a chunk are lines of it
      obtain ⟨-, -, hsub, -⟩ := (once_inv hes hcrash n).2 ht
      obtain ⟨e, he, rfl⟩ := List.mem_map.1 hrecord
      exact ⟨e, hsub.subset he, recordKey_stamp e _ _ _⟩

end

section

variable {P : Runtime} {es : List Event} {n m : ℕ}

/-- What a call has sent is what it can ask. -/
theorem CallRun.Sent.canAsk {r : CallRun} {t : ℕ} {q : Request} (hr : r ∈ (wAt P es n).calls) (h : r.Sent t q) :
    Asks P r.start.config r.call q := by
  obtain ⟨hlog, hprog⟩ := ((world_inv P es n).sound r hr).spec
  rcases h with ⟨x, hx, -, rfl⟩ | ⟨-, k, hk⟩
  · exact hlog x hx
  · rw [hk] at hprog
    exact hprog.1

/-- The lines of rows are those of one row each. -/
theorem mem_wireRecords {keys hardDelete : List String} {rows : List Row} {lines : List Envelope}
    (h : buildWireRecords keys hardDelete rows = .ok lines) {e : Envelope} :
    e ∈ lines ↔ ∃ row ∈ rows, buildWireRecord row keys hardDelete = .ok e := by
  have hf := buildWireRecords_forall₂ h
  clear h
  induction hf with
  | nil => simp
  | @cons row e' rows lines he _ ih =>
    have hfirst : e = e' ↔ buildWireRecord row keys hardDelete = .ok e := by
      rw [he, Except.ok.injEq, eq_comm]
    rw [List.mem_cons, List.exists_mem_cons_iff, hfirst]
    exact or_congr_right ih

/-- What a job sends is sent under its names. -/
theorem LoadJob.sent {r : CallRun} {t : ℕ} {rq : IngestRequest} {job : LoadJob} (hr : r ∈ (wAt P es n).calls)
    (hjob : r.call = .loadJob job) (h : r.Sent t (.ingest rq)) :
    rq.table = job.table.name ∧ rq.loadId = job.loadId ∧ rq.jobId = job.jobId := by
  have hasks := h.canAsk hr
  rw [hjob] at hasks
  cases hasks
  exact ⟨rfl, rfl, rfl⟩

/-- What a job sends are lines of its own. -/
theorem LoadJob.sent_lines {r : CallRun} {t : ℕ} {rq : IngestRequest} {job : LoadJob} {lines : List Envelope}
    (hr : r ∈ (wAt P es n).calls) (hjob : r.call = .loadJob job) (h : r.Sent t (.ingest rq))
    (hlines : job.envelopes P = .ok lines) : rq.lines ⊆ lines := by
  have hasks := h.canAsk hr
  rw [hjob] at hasks
  cases hasks with
  | @job _ rows hrows i c hc lines' hlines' pid =>
    intro e he
    unfold LoadJob.envelopes at hlines
    rw [hrows] at hlines
    -- the rows of a chunk are rows of the job
    obtain ⟨row, hrow, hbuilt⟩ := (mem_wireRecords hlines').1 he
    have hmem : row ∈ rows := LoadJob.chunks_flatten P r.start.config rows ▸
      List.mem_flatten.2 ⟨c, List.mem_of_getElem? hc, hrow⟩
    exact (mem_wireRecords hlines).2 ⟨row, hmem, hbuilt⟩

/-- The segments of a run are only added to. -/
theorem wAt_segments (P : Runtime) (es : List Event) (hnm : n ≤ m) : (wAt P es n).sys.srv.segments <+: (wAt P es m).sys.srv.segments := by
  rw [wAt_sys, wAt_sys]
  exact segments_grow (sysTime_le hnm)

/-- A segment is that of a chunk which a call has sent. -/
theorem segment_sent (hes : IdsOk (sysTrace P es)) (hcrash : MarksOk (sysTrace P es)) {seg : Segment}
    (h : seg ∈ (wAt P es n).sys.srv.segments) : seg.recordtypeId = seg.request.recordtypeId ∧
      (∃ r ∈ (wAt P es n).calls, ∃ t, r.Sent t (.ingest seg.request)) ∧
      Arrives (sysTrace P es) (.ingest seg.request) ∧
      ∀ record ∈ seg.records, ∃ e ∈ seg.request.lines, recordKey record = e.key := by
  have hsource := h
  rw [wAt_sys] at hsource
  obtain ⟨⟨t, th, ht, hq⟩, hrt, hrecords⟩ := sourced hes hcrash _ seg hsource
  have harr := arrives_of_thread ht
  rw [← wAt_sys] at ht
  obtain ⟨r, hr, hs⟩ := (world_inv P es n).sent ht
  rw [hq] at hs harr
  exact ⟨hrt, ⟨r, hr, t, hs⟩, harr, hrecords⟩

end

/-! ## Loads of a table -/

/-- A run of the job for the pid has returned. -/
def Returned (P : Runtime) (es : List Event) (n : ℕ) (pid : String) (job : LoadJob) : Prop :=
  ∃ r ∈ (wAt P es n).calls, ∃ cl, r.call = .loadJob job ∧ r.prog = .ret (.ok .unit, cl) ∧
    HttpTransport.pidText cl.pid = pid

/-- What has been sent for the recordtype, one of the jobs has sent. -/
def OnlyBy (P : Runtime) (es : List Event) (n : ℕ) (recordtypeId : String) (js : List LoadJob) : Prop :=
  ∀ r ∈ (wAt P es n).calls, ∀ t rq, r.Sent t (.ingest rq) → rq.recordtypeId = recordtypeId →
    ∃ job ∈ js, r.call = .loadJob job

/-- **The table has been loaded by these jobs**, in this order. A job that comes next has a name of its own,
and it has returned before the one after it sends anything. -/
inductive Loaded (P : Runtime) (es : List Event) (pid name : String) : List LoadJob → ℕ → Prop
  | none {n : ℕ} (honly : OnlyBy P es n (pid ++ "." ++ name) []) : Loaded P es pid name [] n
  | next {js : List LoadJob} {n m : ℕ} {job : LoadJob} (h : Loaded P es pid name js n) (hnm : n ≤ m)
      (hname : job.table.name = name) (hnew : ∀ j ∈ js, j.loadId = job.loadId → j.jobId ≠ job.jobId)
      (hown : OwnLines P es pid job) (hjob : Returned P es m pid job)
      (honly : OnlyBy P es m (pid ++ "." ++ name) (js ++ [job])) : Loaded P es pid name (js ++ [job]) m
  | later {js : List LoadJob} {n m : ℕ} (h : Loaded P es pid name js n) (hnm : n ≤ m)
      (honly : OnlyBy P es m (pid ++ "." ++ name) js) : Loaded P es pid name js m

/-- The lines of a job. -/
def LoadJob.linesOf (P : Runtime) (job : LoadJob) : List Envelope := (job.envelopes P).toOption.getD []

theorem LoadJob.linesOf_ok {P : Runtime} {job : LoadJob} {lines : List Envelope} (h : job.envelopes P = .ok lines) :
    job.linesOf P = lines := by
  unfold linesOf
  rw [h]
  rfl

/-- What the store has of a table that has been loaded. -/
structure TableInv (P : Runtime) (es : List Event) (pid name : String) (js : List LoadJob) (n : ℕ) : Prop where
  log : List.Forall₂ (fun e record => ∃ loadId utc, record = e.stamp (pid ++ "." ++ name) loadId utc)
    (js.flatMap fun job => (job.linesOf P).eraseDups) (recordsIn (wAt P es n).sys.srv.segments (pid ++ "." ++ name))
  jobs : ∀ job ∈ js, job.table.name = name ∧
    ∃ chunks, job.envelopes P = .ok chunks.flatten ∧ JobCommitted P es n pid job chunks
  only : OnlyBy P es n (pid ++ "." ++ name) js

section

variable {P : Runtime} {es : List Event} {pid name : String} {n m : ℕ} {js : List LoadJob} {job : LoadJob}

theorem JobCommitted.mono {chunks : List (List Envelope)} (h : JobCommitted P es n pid job chunks) (hnm : n ≤ m) :
    JobCommitted P es m pid job chunks :=
  ⟨h.arrived, fun i lines hi e he => (h.committed i lines hi e he).mono fun _ hs => (wAt_segments P es hnm).subset hs⟩

/-- Ids in new segments are new. -/
theorem new_ids {srv srv' : Server} (hG : OnceInv srv') {new : List Segment} (hnew : srv.segments ++ new = srv'.segments)
    {seg : Segment} (hseg : seg ∈ new) {record : Row} (hrecord : record ∈ seg.records) {k : Json.HashKey}
    (hk : recordKey record = some k) : k ∉ srv.landed seg.request.pid seg.request.loadId := by
  have hnodup := hG.nodup seg.request.pid seg.request.loadId
  unfold Server.landed Server.recordsOf at hnodup ⊢
  rw [← hnew, List.filter_append, List.flatMap_append, List.filterMap_append] at hnodup
  refine fun hmem => (List.nodup_append'.1 hnodup).2.2 hmem (List.mem_filterMap.2 ⟨record, ?_, hk⟩)
  exact List.mem_flatMap.2 ⟨seg, List.mem_filter.2 ⟨hseg, by simp⟩, hrecord⟩

/-- The records of a recordtype, told apart by their ids. -/
theorem recordsIn_eq (pid loadId : String) (ids : List Json.HashKey) {segments : List Segment} {recordtypeId : String}
    (hin : ∀ seg ∈ segments, seg.recordtypeId = recordtypeId → (seg.request.pid = pid ∧ seg.request.loadId = loadId) ∧
      ∀ record ∈ seg.records, (recordKey record).any (· ∈ ids) = true)
    (hout : ∀ seg ∈ segments, seg.recordtypeId ≠ recordtypeId → seg.request.pid = pid → seg.request.loadId = loadId →
      ∀ record ∈ seg.records, (recordKey record).any (· ∈ ids) = false) :
    ((segments.filter fun s => s.request.pid = pid ∧ s.request.loadId = loadId).flatMap Segment.records).filter
      (fun record => (recordKey record).any (· ∈ ids)) = recordsIn segments recordtypeId := by
  unfold recordsIn segmentsOf
  induction segments with
  | nil => rfl
  | cons seg segments ih =>
    obtain ⟨hin₁, hin⟩ := List.forall_mem_cons.1 hin
    obtain ⟨hout₁, hout⟩ := List.forall_mem_cons.1 hout
    have ih := ih hin hout
    by_cases hrt : seg.recordtypeId = recordtypeId
    · obtain ⟨hrq, hkeys⟩ := hin₁ hrt
      rw [List.filter_cons_of_pos (by simpa using hrq), List.filter_cons_of_pos (by simpa using hrt), List.flatMap_cons,
        List.flatMap_cons, List.filter_append, List.filter_eq_self.2 hkeys, ih]
    · rw [List.filter_cons_of_neg (a := seg) (l := segments) (p := fun s => s.recordtypeId = recordtypeId) (by simpa using hrt)]
      by_cases hrq : seg.request.pid = pid ∧ seg.request.loadId = loadId
      · have hnone : seg.records.filter (fun record => (recordKey record).any (· ∈ ids)) = [] :=
          List.filter_eq_nil_iff.2 fun record hr => by simp only [hout₁ hrt hrq.1 hrq.2 record hr, Bool.false_eq_true, not_false_iff]
        rw [List.filter_cons_of_pos (by simpa using hrq), List.flatMap_cons, List.filter_append, hnone, List.nil_append, ih]
      · rw [List.filter_cons_of_neg (by simpa using hrq), ih]

/-- Who has sent a line of the job has done so under its name. -/
theorem OwnLines.sender {lines : List Envelope} (h : OwnLines P es pid job) (hlines : job.envelopes P = .ok lines) {r : CallRun}
    (hr : r ∈ (wAt P es n).calls) {t : ℕ} {rq : IngestRequest} (hs : r.Sent t (.ingest rq)) (hp : rq.pid = pid)
    (hl : rq.loadId = job.loadId) (he : ∃ e ∈ lines, e ∈ rq.lines) {job' : LoadJob} (hjob' : r.call = .loadJob job') :
    job'.jobId = job.jobId := by
  have hend : ∃ r' ∈ (wAt P es es.length).calls, r.Le r' := by
    rcases Nat.le_total n es.length with hn | hn
    · obtain ⟨j, hj⟩ := List.mem_iff_getElem?.1 hr
      obtain ⟨r', hr', hle⟩ := calls_mono hn hj
      exact ⟨r', List.mem_of_getElem? hr', hle⟩
    · refine ⟨r, ?_, .refl r⟩
      rw [wAt, List.take_of_length_le hn] at hr
      rwa [wAt, List.take_length]
  obtain ⟨r', hr', hle⟩ := hend
  obtain ⟨i, hi⟩ := CallRun.sent_iff.1 hs
  obtain ⟨e, he, hmem⟩ := he
  obtain ⟨job'', hcall, hid⟩ := h lines hlines r' hr' t rq (CallRun.sent_iff.2 ⟨i, hle.sent i t _ hi⟩) hp hl ⟨e, hmem, he⟩
  rw [hle.call, hjob'] at hcall
  cases hcall
  exact hid

variable (hes : IdsOk (sysTrace P es)) (hcrash : MarksOk (sysTrace P es))

include hes hcrash

theorem world_once (n : ℕ) : OnceInv (wAt P es n).sys.srv := by
  rw [wAt_sys]
  exact (once_inv hes hcrash _).1

/-- Every record in a segment has an id, and there is one. -/
theorem exists_record {seg : Segment} (h : seg ∈ (wAt P es n).sys.srv.segments) :
    ∃ record ∈ seg.records, ∃ k, recordKey record = some k := by
  have hwhole : seg.Whole := (visible_inv _).whole seg (wAt_sys (P := P) es n ▸ h)
  obtain ⟨record, hrecord⟩ := List.exists_mem_of_ne_nil _ hwhole.nonempty
  exact ⟨record, hrecord, Option.ne_none_iff_exists'.1 ((world_once hes hcrash n).keyed seg h record hrecord)⟩

/-- **A job that is over adds nothing** to the table. -/
theorem TableInv.no_more (h : TableInv P es pid name js n) {new : List Segment}
    (hnew : (wAt P es n).sys.srv.segments ++ new = (wAt P es m).sys.srv.segments) {seg : Segment} (hseg : seg ∈ new)
    (hrt : seg.recordtypeId = pid ++ "." ++ name) {r : CallRun} (hr : r ∈ (wAt P es m).calls) {t : ℕ}
    (hs : r.Sent t (.ingest seg.request)) (hmem : job ∈ js) (hjob : r.call = .loadJob job) : False := by
  obtain ⟨hname, chunks, hlines, hcommitted⟩ := h.jobs job hmem
  have hsegm : seg ∈ (wAt P es m).sys.srv.segments := hnew ▸ List.mem_append_right _ hseg
  obtain ⟨hrtq, -, -, hrecords⟩ := segment_sent hes hcrash hsegm
  obtain ⟨htable, hload, -⟩ := LoadJob.sent hr hjob hs
  have hpid : seg.request.pid = pid := by
    rw [hrt, IngestRequest.recordtypeId, htable, hname] at hrtq
    exact ((String.append_left_inj _).1 ((String.append_left_inj _).1 hrtq)).symm
  -- its lines have landed, and what lands is new
  obtain ⟨record, hrecord, k, hk⟩ := exists_record hes hcrash hsegm
  obtain ⟨e, he, hkey⟩ := hrecords record hrecord
  obtain ⟨-, -, -, -, hc⟩ := hcommitted.mem (LoadJob.sent_lines hr hjob hs hlines he)
  refine new_ids (world_once hes hcrash m) hnew hseg hrecord hk ?_
  rw [hpid, hload]
  exact hc.landed (hkey.symm.trans hk)

/-- Where an id of the job is, there is a line of the job. -/
theorem JobCommitted.found {chunks : List (List Envelope)} (h : JobCommitted P es m pid job chunks)
    (hrows : RowsOk (sysTrace P es)) {seg : Segment} (hseg : seg ∈ (wAt P es n).sys.srv.segments)
    (hp : seg.request.pid = pid) (hl : seg.request.loadId = job.loadId) {record : Row} (hrecord : record ∈ seg.records)
    (hkey : (recordKey record).any (· ∈ chunks.flatten.filterMap Envelope.key) = true) :
    seg.recordtypeId = pid ++ "." ++ job.table.name ∧ ∃ e ∈ chunks.flatten, e ∈ seg.request.lines := by
  obtain ⟨hrt, -, harr, hrecords⟩ := segment_sent hes hcrash hseg
  obtain ⟨e', he', hk'⟩ := hrecords record hrecord
  obtain ⟨k, hk, hmem⟩ := (Option.any_eq_true _ _).1 hkey
  obtain ⟨e, he, hek⟩ := List.mem_filterMap.1 (of_decide_eq_true hmem)
  obtain ⟨i, lines, hi, hei, -⟩ := h.mem he
  obtain ⟨htable, rfl⟩ := hrows.distinct (h.arrived i lines hi) harr hp.symm hl.symm e hei e' he' (by simp [hek])
    (hek.trans (hk.symm.trans hk'))
  refine ⟨?_, e, he, he'⟩
  rw [hrt, IngestRequest.recordtypeId, hp, ← htable]
  rfl

/-- **The next job** adds its lines to the table. -/
theorem TableInv.next (hrows : RowsOk (sysTrace P es)) (hkeys : KeyResent (sysTrace P es)) (h : TableInv P es pid name js n)
    (hnm : n ≤ m) (hname : job.table.name = name) (hnew : ∀ j ∈ js, j.loadId = job.loadId → j.jobId ≠ job.jobId)
    (hown : OwnLines P es pid job) (hjob : Returned P es m pid job)
    (honly : OnlyBy P es m (pid ++ "." ++ name) (js ++ [job])) : TableInv P es pid name (js ++ [job]) m := by
  obtain ⟨r, hr, cl, hcall, hret, rfl⟩ := hjob
  obtain ⟨chunks, hlines, hcommitted⟩ := jobCommitted_of_return hrows hkeys hr hcall hret
  obtain ⟨new, hsegs⟩ := wAt_segments P es hnm
  have hnewm : ∀ seg ∈ new, seg ∈ (wAt P es m).sys.srv.segments := fun seg hseg => hsegs ▸ List.mem_append_right _ hseg
  have hlog : (wAt P es m).sys.srv.recordsWith (HttpTransport.pidText cl.pid) job.loadId (chunks.flatten.filterMap Envelope.key) =
      recordsIn new (HttpTransport.pidText cl.pid ++ "." ++ name) := by
    rw [← recordsIn_eq (HttpTransport.pidText cl.pid) job.loadId (chunks.flatten.filterMap Envelope.key) ?_ ?_]
    · unfold Server.recordsWith Server.recordsOf
      rw [← hsegs, List.filter_append, List.flatMap_append, List.filter_append, List.filter_eq_nil_iff.2, List.nil_append]
      intro record hrecord
      -- of the job nothing is there before it is run
      obtain ⟨seg, hseg, hrecord⟩ := List.mem_flatMap.1 hrecord
      obtain ⟨hseg, hrq⟩ := List.mem_filter.1 hseg
      obtain ⟨hp, hl⟩ := of_decide_eq_true hrq
      refine fun hkey => ?_
      obtain ⟨hrt, hline⟩ := hcommitted.found hes hcrash hrows hseg hp hl hrecord hkey
      obtain ⟨hrtq, ⟨r', hr', t, hs⟩, -, -⟩ := segment_sent hes hcrash hseg
      obtain ⟨job', hmem, hjob'⟩ := h.only r' hr' t _ hs (by rw [← hrtq, hrt, hname])
      obtain ⟨-, hload, -⟩ := LoadJob.sent hr' hjob' hs
      exact hnew job' hmem (hload.symm.trans hl) (hown.sender hlines hr' hs hp hl hline hjob')
    · intro seg hseg hrt
      obtain ⟨hrtq, ⟨r', hr', t, hs⟩, -, hrecords⟩ := segment_sent hes hcrash (hnewm seg hseg)
      obtain ⟨job', hmem, hjob'⟩ := honly r' hr' t _ hs (hrtq ▸ hrt)
      rcases List.mem_append.1 hmem with hmem | hmem
      · exact (h.no_more hes hcrash hsegs hseg hrt hr' hs hmem hjob').elim
      · rw [List.mem_singleton.1 hmem] at hjob'
        obtain ⟨htable, hload, -⟩ := LoadJob.sent hr' hjob' hs
        refine ⟨⟨?_, hload⟩, fun record hrecord => ?_⟩
        · rw [hrt, IngestRequest.recordtypeId, htable, hname] at hrtq
          exact ((String.append_left_inj _).1 ((String.append_left_inj _).1 hrtq)).symm
        · obtain ⟨e, he, hkey⟩ := hrecords record hrecord
          obtain ⟨k, hk⟩ := Option.ne_none_iff_exists'.1 ((world_once hes hcrash m).keyed seg (hnewm seg hseg) record hrecord)
          rw [hk, Option.any_some, decide_eq_true_eq]
          exact List.mem_filterMap.2 ⟨e, LoadJob.sent_lines hr' hjob' hs hlines he, hkey.symm.trans hk⟩
    · intro seg hseg hrt hp hl record hrecord
      by_contra hkey
      rw [Bool.not_eq_false] at hkey
      exact hrt ((hcommitted.found hes hcrash hrows (hnewm seg hseg) hp hl hrecord hkey).1.trans (by rw [hname]))
  have hlogged := hcommitted.logged hes hcrash hrows hkeys hlines hown
  rw [hlog, hname] at hlogged
  refine ⟨?_, fun j hj => ?_, honly⟩
  · rw [← hsegs, List.flatMap_append, List.flatMap_singleton, LoadJob.linesOf_ok hlines]
    have happend : recordsIn ((wAt P es n).sys.srv.segments ++ new) (HttpTransport.pidText cl.pid ++ "." ++ name) =
        recordsIn (wAt P es n).sys.srv.segments (HttpTransport.pidText cl.pid ++ "." ++ name) ++
          recordsIn new (HttpTransport.pidText cl.pid ++ "." ++ name) := by
      unfold recordsIn segmentsOf
      rw [List.filter_append, List.flatMap_append]
    rw [happend]
    exact List.rel_append h.log (hlogged.imp fun e record ⟨utc, he⟩ => ⟨job.loadId, utc, he⟩)
  · rcases List.mem_append.1 hj with hj | hj
    · obtain ⟨hname', chunks', hlines', hc'⟩ := h.jobs j hj
      exact ⟨hname', chunks', hlines', hc'.mono hnm⟩
    · rw [List.mem_singleton.1 hj]
      exact ⟨hname, chunks, hlines, hcommitted⟩

/-- **What the store has of a table**, whatever it has been loaded by. -/
theorem loaded_inv (hrows : RowsOk (sysTrace P es)) (hkeys : KeyResent (sysTrace P es)) (h : Loaded P es pid name js n) :
    TableInv P es pid name js n := by
  induction h with
  | none honly =>
    refine ⟨?_, by simp, honly⟩
    -- nobody has sent anything
    rw [recordsIn, segmentsOf, List.filter_eq_nil_iff.2]
    · exact .nil
    · intro seg hseg hrt
      obtain ⟨hrtq, ⟨r, hr, t, hs⟩, -, -⟩ := segment_sent hes hcrash hseg
      obtain ⟨job, hmem, -⟩ := honly r hr t _ hs (hrtq ▸ of_decide_eq_true hrt)
      cases hmem
  | next _ hnm hname hnew hown hjob honly ih => exact ih.next hes hcrash hrows hkeys hnm hname hnew hown hjob honly
  | @later js n m _ hnm honly ih =>
    obtain ⟨new, hsegs⟩ := wAt_segments P es hnm
    have hnone : recordsIn (wAt P es m).sys.srv.segments (pid ++ "." ++ name) =
        recordsIn (wAt P es n).sys.srv.segments (pid ++ "." ++ name) := by
      have hnew : new.filter (fun s => s.recordtypeId = pid ++ "." ++ name) = [] := ?_
      · unfold recordsIn segmentsOf
        rw [← hsegs, List.filter_append, hnew, List.append_nil]
      refine List.filter_eq_nil_iff.2 fun seg hseg hrt => ?_
      have hrt := of_decide_eq_true hrt
      obtain ⟨hrtq, ⟨r, hr, t, hs⟩, -, -⟩ := segment_sent hes hcrash (hsegs ▸ List.mem_append_right _ hseg)
      obtain ⟨job, hmem, hjob⟩ := honly r hr t _ hs (hrtq ▸ hrt)
      exact ih.no_more hes hcrash hsegs hseg hrt hr hs hmem hjob
    refine ⟨by rw [hnone]; exact ih.log, fun job hj => ?_, honly⟩
    obtain ⟨hname, chunks, hlines, hc⟩ := ih.jobs job hj
    exact ⟨hname, chunks, hlines, hc.mono hnm⟩

end

/-! ## What readers make of the table -/

/-- Nothing that is committed for the recordtype is hidden from readers. -/
structure AllShown (srv : Server) (recordtypeId : String) : Prop where
  inversions : srv.counters.inversions = 0
  apart : ((segmentsOf srv.segments recordtypeId).map Segment.lastId).Nodup

section

variable {P : Runtime} {es : List Event} {pid name : String} {n : ℕ} {js : List LoadJob} {keys : List String}

/-- A scan reads everything, if nothing is hidden. -/
theorem AllShown.scan {recordtypeId : String} (h : AllShown (wAt P es n).sys.srv recordtypeId) :
    (scan (wAt P es n).sys.srv.segments recordtypeId "0").1.map Prod.snd =
      recordsIn (wAt P es n).sys.srv.segments recordtypeId := by
  have hv : VisibleInv (wAt P es n).sys.srv := by
    rw [wAt_sys]
    exact visible_inv _
  have hwhole : ∀ seg ∈ segmentsOf (wAt P es n).sys.srv.segments recordtypeId, seg.Whole :=
    fun seg hs => hv.whole seg (List.mem_of_mem_filter hs)
  have hasc := hv.ascending h.inversions h.apart
  have htaken : taken ([] ++ segmentsOf (wAt P es n).sys.srv.segments recordtypeId) "0" = _ := taken_of_ascending nofun hasc
    fun seg hs => Decimal.zero_lt_repr (hwhole seg hs).pos
  have hscan : (Matterbeam.scan (wAt P es n).sys.srv.segments recordtypeId "0").1 =
      (taken (listed (wAt P es n).sys.srv.segments recordtypeId) "0").flatMap Segment.facts := scanLoop_fst _ _
  rw [hscan, hasc.listed, ← List.nil_append (segmentsOf _ _), htaken, map_snd_facts hwhole]
  rfl

/-- Ids tell lines apart. -/
theorem nodup_of_keys {lines : List Envelope} (h : (lines.filterMap Envelope.key).Nodup)
    (hkeyed : ∀ e ∈ lines, e.key ≠ none) : lines.Nodup := by
  have hsome : (lines.filterMap Envelope.key).map some = lines.map Envelope.key := by
    rw [List.map_filterMap]
    exact List.filterMap_eq_map_iff_forall_eq_some.2 fun e he => by
      obtain ⟨k, hk⟩ := Option.ne_none_iff_exists'.1 (hkeyed e he)
      rw [hk]
      rfl
  refine List.Nodup.of_map Envelope.key ?_
  rw [← hsome]
  exact (List.nodup_map_iff (Option.some_injective _)).2 h

/-- The lines of a job say what its rows say. -/
theorem LoadJob.linesOf_op (hk : KeysOk keys) {job : LoadJob} (hkeys : keyFields job.table = keys) {lines : List Envelope}
    (hlines : job.envelopes P = .ok lines) (hids : ((job.sentRows P).filterMap rowId).Nodup)
    (hkeyed : ∀ e ∈ lines, e.key ≠ none) :
    (job.linesOf P).eraseDups.map (envelopeOp P keys) =
      (job.sentRows P).map (walkOp P keys (dataColumns (hardDeleteFields job.table))) := by
  rw [linesOf_ok hlines]
  unfold envelopes at hlines
  cases hrows : job.rows P with
  | error e =>
    rw [hrows] at hlines
    cases hlines
  | ok rows =>
    rw [hrows] at hlines
    rw [sentRows_ok hrows] at hids ⊢
    subst hkeys
    have hop := wireLines_op (P := P) hk hlines
    have hkeys := congrArg (List.filterMap Prod.fst) hop
    have hops := congrArg (List.map Prod.snd) hop
    rw [List.filterMap_map, List.filterMap_map] at hkeys
    rw [List.map_map, List.map_map] at hops
    rw [Batches.eraseDups_of_nodup (nodup_of_keys (hkeys ▸ hids) hkeyed)]
    exact hops.symm

/-- **What the records of the table say** is what the rows of the jobs say, in order. -/
theorem loaded_ops (hk : KeysOk keys) (hes : IdsOk (sysTrace P es)) (hcrash : MarksOk (sysTrace P es))
    (hrows : RowsOk (sysTrace P es)) (hkeys : KeyResent (sysTrace P es)) (h : Loaded P es pid name js n)
    (hfields : ∀ job ∈ js, keyFields job.table = keys) (hids : ∀ job ∈ js, ((job.sentRows P).filterMap rowId).Nodup) :
    (recordsIn (wAt P es n).sys.srv.segments (pid ++ "." ++ name)).map (bodyOp P keys) =
      js.flatMap fun job => (job.sentRows P).map (walkOp P keys (dataColumns (hardDeleteFields job.table))) := by
  have hinv := loaded_inv hes hcrash hrows hkeys h
  have hops : (js.flatMap fun job => (job.linesOf P).eraseDups).map (envelopeOp P keys) =
      (recordsIn (wAt P es n).sys.srv.segments (pid ++ "." ++ name)).map (bodyOp P keys) := by
    refine List.forall₂_eq_eq_eq ▸ List.forall₂_map_left_iff.2 (List.forall₂_map_right_iff.2 (hinv.log.imp ?_))
    rintro e record ⟨loadId, utc, rfl⟩
    exact (stamp_bodyOp hk e _ _ _).symm
  rw [← hops, List.map_flatMap]
  refine List.flatMap_congr fun job hj => ?_
  obtain ⟨-, chunks, hlines, hc⟩ := hinv.jobs job hj
  refine LoadJob.linesOf_op hk (hfields job hj) hlines (hids job hj) fun e he => ?_
  obtain ⟨-, -, -, -, hcommitted⟩ := hc.mem he
  exact Option.ne_none_iff_exists'.2 (hcommitted.keyed (world_once hes hcrash n))

/-- The jobs have returned. -/
theorem Loaded.returned (h : Loaded P es pid name js n) : ∀ job ∈ js, ∃ m, Returned P es m pid job := by
  induction h with
  | none => exact fun job hj => absurd hj List.not_mem_nil
  | @next js n m job h hnm hname hnew hown hjob honly ih =>
    intro j hj
    rcases List.mem_append.1 hj with hj | hj
    · exact ih j hj
    · exact ⟨m, List.mem_singleton.1 hj ▸ hjob⟩
  | later h hnm honly ih => exact ih

/-- A job that has returned is one that the destination takes. -/
theorem Returned.keyedJob {job : LoadJob} (hk : KeysOk keys) (h : Returned P es n pid job) (hfields : keyFields job.table = keys) :
    KeyedJob P keys job := by
  obtain ⟨r, hr, cl, hjob, hret, -⟩ := h
  have hconv := ((world_inv P es n).sound r hr).conv
  rw [hret, CallRun.program, hjob] at hconv
  refine ⟨hfields, taken_of_talk hconv, fun row hrow => ?_⟩
  -- all its rows were encoded
  obtain ⟨chunks, hlines, -⟩ := chunks_of_return hr hjob hret
  unfold LoadJob.envelopes at hlines
  cases hrows : job.rows P with
  | error e =>
    rw [hrows] at hlines
    cases hlines
  | ok rows =>
    rw [hrows] at hlines
    have hencoded := buildWireRecords_forall₂ hlines
    obtain ⟨i, hi, rfl⟩ := List.getElem_of_mem ((LoadJob.mem_rows hrows).2 hrow)
    subst hfields
    exact keyed_of_wire hk (hencoded.get hi (hencoded.length_eq ▸ hi))

/-- **What readers make of the table.** A keyed table that was loaded by jobs one after another folds to the
walk over their rows: for every key, what the last row of the last job says that has one. This is so for
whatever clients, retries and other tables there are, in every run of which this holds:

* all rows have ids, no two of a chunk the same, and rows of a load of a pid that have the same id are
  the same row of the same table (`IdsOk`, `RowsOk`);
* chunks of one ledger key are for one load of one table, and carry the same rows (`KeyResent`);
* no request crashes between its commit and its mark (`MarksOk`);
* each job has a name of its own, under which alone its lines are sent in its load, and has returned
  before the next one sends anything; nobody else sends anything for the table (`Loaded`);
* the key columns of the table are the same for all jobs, and no id occurs twice in a job;
* nothing that was committed is hidden from readers (`AllShown`). -/
theorem loads_folded (P : Runtime) (es : List Event) (hes : IdsOk (sysTrace P es)) (hcrash : MarksOk (sysTrace P es))
    (hrows : RowsOk (sysTrace P es)) (hkeys : KeyResent (sysTrace P es)) (keys : List String) (hk : KeysOk keys)
    {pid name : String} {js : List LoadJob} {n : ℕ} (h : Loaded P es pid name js n)
    (hfields : ∀ job ∈ js, keyFields job.table = keys) (hids : ∀ job ∈ js, ((job.sentRows P).filterMap rowId).Nodup)
    (hshown : AllShown (wAt P es n).sys.srv (pid ++ "." ++ name)) :
    (wAt P es n).sys.srv.folded P (pid ++ "." ++ name) keys =
      Replay.replay (js.flatMap fun job => (job.sentRows P).map (walkOp P keys (dataColumns (hardDeleteFields job.table)))) := by
  rw [← loaded_ops hk hes hcrash hrows hkeys h hfields hids, ← bodies_eq, ← hshown.scan]
  rfl

/-- **The transports agree.** The same jobs, run one after another over the file transport, each with any
number of failed attempts, leave a file that folds to the same table, if the run over HTTP is as
`loads_folded` takes it: as to the ids of all rows that arrive (`IdsOk`, `RowsOk`), the rows of one ledger
key (`KeyResent`), crashes (`MarksOk`), how the table is loaded (`Loaded`), its key columns, the ids in a
job, and what is shown (`AllShown`). -/
theorem transports_agree (P : Runtime) (es : List Event) (hes : IdsOk (sysTrace P es)) (hcrash : MarksOk (sysTrace P es))
    (hrows : RowsOk (sysTrace P es)) (hkeys : KeyResent (sysTrace P es)) (keys : List String) (hk : KeysOk keys)
    {pid name : String} {js : List Retried} {n : ℕ} (h : Loaded P es pid name (js.map Retried.job) n)
    (hfields : ∀ j ∈ js, keyFields j.job.table = keys) (hids : ∀ j ∈ js, ((j.job.sentRows P).filterMap rowId).Nodup)
    (hshown : AllShown (wAt P es n).sys.srv (pid ++ "." ++ name)) (datasetName : String) :
    (wAt P es n).sys.srv.folded P (pid ++ "." ++ name) keys =
      bodies P (Retried.runAll P datasetName js (fun _ => []) (datasetName ++ "." ++ name ++ ".jsonl")) keys := by
  have hops := loaded_ops hk hes hcrash hrows hkeys h (List.forall_mem_map.2 hfields) (List.forall_mem_map.2 hids)
  have hjobs : ∀ j ∈ js, j.job.table.name = name ∧ KeyedJob P keys j.job ∧ ∃ rows, j.job.rows P = .ok rows := by
    intro j hj
    obtain ⟨hname, chunks, hlines, -⟩ := (loaded_inv hes hcrash hrows hkeys h).jobs j.job (List.mem_map_of_mem hj)
    obtain ⟨m, hreturned⟩ := h.returned j.job (List.mem_map_of_mem hj)
    refine ⟨hname, hreturned.keyedJob hk (hfields j hj), ?_⟩
    unfold LoadJob.envelopes at hlines
    cases hr : j.job.rows P with
    | error e =>
      rw [hr] at hlines
      cases hlines
    | ok rows => exact ⟨rows, rfl⟩
  have hfiles := jobs_sent hk datasetName name hjobs (fun _ => []) (l := []) rfl
  rw [List.nil_append] at hfiles
  have hfolded : (wAt P es n).sys.srv.folded P (pid ++ "." ++ name) keys =
      bodies P (recordsIn (wAt P es n).sys.srv.segments (pid ++ "." ++ name)) keys := by
    rw [← hshown.scan]
    rfl
  rw [hfolded, bodies_eq, bodies_eq, hops, hfiles, List.flatMap_map]

end

/-! ### Two loads -/

/-- A load of the customers. -/
def customersLoad (loadId jobId : String) (rows : List Row) : LoadJob where
  table := customers
  lines := rows.map .bare
  loadId := loadId
  jobId := jobId

/-- Two customers are loaded, and later one of them is deleted. -/
def customersLoads : List LoadJob :=
  [customersLoad "1.0" "customers.a.jsonl" [Dict.ofEntries [("id", .int 1), ("name", .str "ada"), ("_dlt_id", .str "a")],
      Dict.ofEntries [("id", .int 2), ("name", .str "bob"), ("_dlt_id", .str "b")]],
    customersLoad "2.0" "customers.b.jsonl" [Dict.ofEntries [("id", .int 1), ("deleted", .bool true), ("_dlt_id", .str "c")]]]

/-- The first load loses its connection and is run again before the second one. -/
def customersRun : List Event :=
  [.newClient ⟨"shop", 1, 4194304⟩ "shop" 20, .call 0 (some "shop") (.loadJob customersLoads[0])] ++
    exchange 0 0 1 ++ exchange 0 1 11 ++ [.send 0 none, .tick 2 someInputs, .lose 0] ++
    [.call 0 (some "shop") (.loadJob customersLoads[0])] ++ exchange 1 3 1 ++ exchange 1 4 11 ++
    [.call 0 (some "shop") (.loadJob customersLoads[1])] ++ exchange 2 5 11

/-- The pid of the shop. -/
def shopPid : String := "0123456789abcdefghijklmnopq"

theorem customersRun_ids : IdsOk (sysTrace .plain customersRun) := by
  have hids : ∀ rq ∈ ingests (sysTrace .plain customersRun),
      (∀ e ∈ rq.lines, e.dltId.truthy = true) ∧ (rq.lines.filterMap Envelope.key).Nodup := by decide +kernel
  exact ⟨fun ha => (hids _ (arrives_ingest.1 ha)).1, fun ha => (hids _ (arrives_ingest.1 ha)).2⟩

theorem customersRun_rows : RowsOk (sysTrace .plain customersRun) :=
  .of_ingests rfl (by decide +kernel) (by decide +kernel)

theorem customersRun_keys : KeyResent (sysTrace .plain customersRun) := .of_ingests rfl (by decide +kernel)

/-- Both loads are over at the end of the run. -/
theorem customersRun_loaded : Loaded .plain customersRun shopPid "customers" customersLoads 52 := by
  have hfirst : (wAt .plain customersRun 38).calls.map CallRun.call =
      [.loadJob customersLoads[0], .loadJob customersLoads[0]] := rfl
  have hsecond : (wAt .plain customersRun 52).calls.map CallRun.call =
      [.loadJob customersLoads[0], .loadJob customersLoads[0], .loadJob customersLoads[1]] := rfl
  have honly₁ : OnlyBy .plain customersRun 38 (shopPid ++ "." ++ "customers") ([] ++ [customersLoads[0]]) := by
    intro r hr t rq _ _
    have hcall := List.mem_map_of_mem (f := CallRun.call) hr
    rw [hfirst] at hcall
    exact ⟨_, List.mem_singleton.2 rfl, by simpa using hcall⟩
  have hjobs : ∀ r ∈ (wAt .plain customersRun 52).calls,
      r.call = .loadJob customersLoads[0] ∨ r.call = .loadJob customersLoads[1] := by
    intro r hr
    have hcall := List.mem_map_of_mem (f := CallRun.call) hr
    rw [hsecond] at hcall
    simpa using hcall
  have honly₂ : OnlyBy .plain customersRun 52 (shopPid ++ "." ++ "customers") ([] ++ [customersLoads[0]] ++ [customersLoads[1]]) :=
    fun r hr t rq _ _ => (hjobs r hr).elim (fun h => ⟨_, by simp, h⟩) fun h => ⟨_, by simp, h⟩
  -- the loads have ids of their own
  have hown₁ : OwnLines .plain customersRun shopPid customersLoads[0] := by
    intro lines _ r hr t rq hs _ hl _
    rcases hjobs r hr with h | h
    · exact ⟨_, h, rfl⟩
    · exact absurd ((LoadJob.sent hr h hs).2.1.symm.trans hl) (by decide)
  have hown₂ : OwnLines .plain customersRun shopPid customersLoads[1] := by
    intro lines _ r hr t rq hs _ hl _
    rcases hjobs r hr with h | h
    · exact absurd ((LoadJob.sent hr h hs).2.1.symm.trans hl) (by decide)
    · exact ⟨_, h, rfl⟩
  exact .next (.next (.none (n := 0) fun r hr => by cases hr) (Nat.zero_le 38) rfl (by simp) hown₁
    ⟨_, List.mem_of_getElem? (i := 1) rfl, _, rfl, rfl, rfl⟩ honly₁) (by decide) rfl (by decide) hown₂
    ⟨_, List.mem_of_getElem? (i := 2) rfl, _, rfl, rfl, rfl⟩ honly₂

theorem customersRun_marks : MarksOk (sysTrace .plain customersRun) := marksOk_of_spawns rfl

theorem customersRun_shown : AllShown (wAt .plain customersRun 52).sys.srv (shopPid ++ "." ++ "customers") :=
  ⟨by decide +kernel, by decide +kernel⟩

/-- The second customer is left. -/
theorem loads_folded_customers :
    (wAt .plain customersRun 52).sys.srv.folded .plain (shopPid ++ "." ++ "customers") ["id"] =
      Replay.replay (customersLoads.flatMap fun job =>
        (job.sentRows .plain).map (walkOp .plain ["id"] (dataColumns (hardDeleteFields job.table)))) :=
  loads_folded .plain customersRun customersRun_ids customersRun_marks customersRun_rows customersRun_keys ["id"]
    ⟨by decide, by decide, by decide, by decide⟩ customersRun_loaded (by decide) (by decide) customersRun_shown

/-- The same loads over the file transport, the first of which has failed once. -/
def customersFiles : List Retried :=
  [⟨customersLoads[0], [(oneByOne, 1)], oneByOne⟩, ⟨customersLoads[1], [], oneByOne⟩]

theorem transports_agree_customers :
    (wAt .plain customersRun 52).sys.srv.folded .plain (shopPid ++ "." ++ "customers") ["id"] =
      bodies .plain (Retried.runAll .plain "shop" customersFiles (fun _ => []) ("shop" ++ "." ++ "customers" ++ ".jsonl")) ["id"] :=
  transports_agree .plain customersRun customersRun_ids customersRun_marks customersRun_rows customersRun_keys ["id"]
    ⟨by decide, by decide, by decide, by decide⟩
    (customersRun_loaded : Loaded .plain customersRun shopPid "customers" (customersFiles.map Retried.job) 52)
    (by decide) (by decide) customersRun_shown "shop"

end Matterbeam
