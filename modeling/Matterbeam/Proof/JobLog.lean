import Matterbeam.Base.Batches
import Matterbeam.Proof.InTurn

/-!
# What a job leaves in the log

Chunks that are committed at most once and in turn make a log in which the rows of a job stand as they
stand in its file, each once, whoever else writes to the load and however often the job was run.

* `ids_of_commit`: what a commit adds to the ids of its load.
* `landed_upto`: the ids of the chunks of one job come in the order of the chunks.
* `job_logged`: **a load job that has returned is in the log**, row by row.
-/

namespace Matterbeam

open Prog

/-! ## Commits -/

section

variable {P : Runtime} {es : List SysEvent} {n t : ℕ} {rq : IngestRequest} {b : Batch}

/-- The ids of a chunk. -/
def IngestRequest.ids (rq : IngestRequest) : List Json.HashKey := rq.lines.filterMap Envelope.key

/-- Thread `t` is about to commit what it has kept of a chunk. -/
def Committing (P : Runtime) (es : List SysEvent) (n t : ℕ) (rq : IngestRequest) (b : Batch) : Prop :=
  ∃ crash v beginMs, (sAt P es n).threads[t]? = some (.ingest rq crash (.commit v b beginMs))

theorem Committed.landed {srv : Server} {pid table loadId : String} {e : Envelope} {k : Json.HashKey}
    (hc : Committed srv pid table loadId e) (hk : e.key = some k) : k ∈ srv.landed pid loadId :=
  have hall : AllCommitted srv ⟨pid, table, loadId, "", "", [e]⟩ := by simpa [AllCommitted] using hc
  hall.landed e (List.mem_singleton.2 rfl) k hk

/-- **What a commit adds**: the ids of the chunk that are not in the store. -/
theorem ids_of_commit (hes : IdsOk es) (hcrash : MarksOk es) (hrows : RowsOk es) (hkeys : KeyResent es)
    (h : Committing P es n t rq b) : b.ids = rq.ids.filter (· ∉ (sAt P es n).srv.landed rq.pid rq.loadId) := by
  obtain ⟨crash, v, beginMs, ht⟩ := h
  obtain ⟨⟨ha, -⟩, hm, hsub, hfresh⟩ := (once_inv hes hcrash n).2 ht
  obtain ⟨-, hnew⟩ := fresh_ids hes ha hsub hfresh (hm v rfl)
  obtain ⟨-, hsettled⟩ := ((commit_inv (hrows.unmixed hkeys fun _ => True) n).2 ht).2 trivial
  have hids : b.ids.Sublist (rq.ids.filter (· ∉ (sAt P es n).srv.landed rq.pid rq.loadId)) := by
    have hfilter := (hsub.filterMap Envelope.key).filter (· ∉ (sAt P es n).srv.landed rq.pid rq.loadId)
    rwa [List.filter_eq_self.2 fun k hk => by simpa using hnew k hk] at hfilter
  refine hids.eq_of_length_le (List.Nodup.subperm ((hes.nodup ha).filter _) fun k hk => ?_).length_le
  -- a line that was dropped is in the store
  obtain ⟨hk, hn⟩ := List.mem_filter.1 hk
  obtain ⟨e, he, hkey⟩ := List.mem_filterMap.1 hk
  rcases hsettled e he with hkept | hc
  · exact List.mem_filterMap.2 ⟨e, hkept, hkey⟩
  · exact absurd (hc.landed hkey) (by simpa using hn)

/-- What an event can do to the segments. -/
theorem segments_succ (hn : n < es.length) : (sAt P es (n + 1)).srv.segments = (sAt P es n).srv.segments ∨
    ∃ t rq b beginMs noise, Committing P es n t rq b ∧ (sAt P es (n + 1)).srv.segments =
      ((sAt P es n).srv.addSegment (writeSegment rq.recordtypeId (b.records rq) beginMs b.writerId noise rq)).segments := by
  rcases Sys.step_cases P (sAt P es n) es[n] with ⟨rq, crash, -, he⟩ | ⟨t, inp, th, -, ht, he⟩ | ⟨pid, -, he⟩ | ⟨-, he⟩
  all_goals rw [sAt_succ hn, he]
  · exact .inl rfl
  · rcases Thread.step_commit P inp (sAt P es n).srv th with h | ⟨rq, crash, v, b, beginMs, noise, rfl, -, -, h⟩
    · exact .inl h
    · exact .inr ⟨t, rq, b, beginMs, noise, ⟨crash, v, beginMs, ht⟩, h⟩
  · exact .inl (SameFacts.pause _ pid).segments
  · exact .inl rfl

/-- What an event can do to the ids of a load. -/
theorem landed_succ (hn : n < es.length) (pid loadId : String) :
    (sAt P es (n + 1)).srv.landed pid loadId = (sAt P es n).srv.landed pid loadId ∨
    ∃ t rq b, Committing P es n t rq b ∧ (rq.pid = pid ∧ rq.loadId = loadId) ∧
      (sAt P es (n + 1)).srv.landed pid loadId = (sAt P es n).srv.landed pid loadId ++ b.ids := by
  rcases segments_succ (P := P) hn with he | ⟨t, rq, b, beginMs, noise, hc, he⟩
  · left
    unfold Server.landed Server.recordsOf
    rw [he]
  · have hadd := landed_addSegment (sAt P es n).srv b rq beginMs noise pid loadId
    rw [Server.landed, Server.recordsOf, ← he] at hadd
    change (sAt P es (n + 1)).srv.landed pid loadId = _ at hadd
    rw [hadd]
    by_cases hrq : rq.pid = pid ∧ rq.loadId = loadId
    · exact .inr ⟨t, rq, b, hc, hrq, by rw [if_pos hrq]⟩
    · exact .inl (by rw [if_neg hrq, List.append_nil])

/-- **The ids of the chunks of one job come in order**, if a chunk that carries one of them is one of
the chunks, or comes after all of them, and all chunks before it have landed. -/
theorem landed_upto (hes : IdsOk es) (hcrash : MarksOk es) (hrows : RowsOk es) (hkeys : KeyResent es) {pid loadId : String}
    {cs : List (List Json.HashKey)} (hcs : ∀ c ∈ cs, c.Nodup)
    (hturn : ∀ n t rq b, Committing P es n t rq b → rq.pid = pid → rq.loadId = loadId →
      (∃ k ∈ rq.ids, k ∈ cs.flatten) → ∃ j, (∀ c ∈ cs.take j, ∀ k ∈ c, k ∈ (sAt P es n).srv.landed pid loadId) ∧ (j < cs.length → cs[j]? = some rq.ids))
    (n : ℕ) : Batches.Upto cs ((sAt P es n).srv.landed pid loadId) := by
  refine Sys.invariant (I := fun s => Batches.Upto cs (s.srv.landed pid loadId)) (Batches.upto_nil cs) (fun n hn ih => ?_) n
  rw [← sAt_succ hn]
  rcases landed_succ (P := P) hn pid loadId with he | ⟨t, rq, b, hc, ⟨rfl, rfl⟩, he⟩
  · rw [he]
    exact ih
  rw [he, ids_of_commit hes hcrash hrows hkeys hc]
  by_cases hk : ∃ k ∈ rq.ids, k ∈ cs.flatten
  · obtain ⟨j, hbefore, hj⟩ := hturn n t rq b hc rfl rfl hk
    rcases Nat.lt_or_ge j cs.length with hlt | hge
    · exact Batches.Grows.upto hcs (.batch (hj hlt) hbefore) ih
    · -- all chunks are there already
      refine Batches.Grows.upto hcs (.apart fun k hk hmem => ?_) ih
      obtain ⟨c, hc, hkc⟩ := List.mem_flatten.1 hmem
      rw [List.take_of_length_le hge] at hbefore
      exact absurd (hbefore c hc k hkc) (by simpa using (List.mem_filter.1 hk).2)
  · exact Batches.Grows.upto hcs (.apart fun k hmem hc => hk ⟨k, (List.mem_filter.1 hmem).1, hc⟩) ih

end

/-! ## Jobs -/

/-- What the rows of a job are on the wire, in the order in which it sends them. -/
def LoadJob.envelopes (P : Runtime) (job : LoadJob) : Except PyError (List Envelope) := do
  buildWireRecords (keyFields job.table) (hardDeleteFields job.table) (← job.rows P)

/-- The records of a load with one of the ids, in commit order. -/
def Server.recordsWith (srv : Server) (pid loadId : String) (ids : List Json.HashKey) : List Row :=
  (srv.recordsOf pid loadId).filter fun record => (recordKey record).any (· ∈ ids)

/-- The lines of a job are sent under its name only. -/
def OwnLines (P : Runtime) (es : List Event) (pid : String) (job : LoadJob) : Prop :=
  ∀ lines, job.envelopes P = .ok lines → ∀ r ∈ (wAt P es es.length).calls, ∀ t rq, r.Sent t (.ingest rq) →
    rq.pid = pid → rq.loadId = job.loadId → (∃ e ∈ rq.lines, e ∈ lines) →
      ∃ job', r.call = .loadJob job' ∧ job'.jobId = job.jobId

theorem buildWireRecords_append {keys hardDelete : List String} {rows rows' : List Row} {lines lines' : List Envelope}
    (h : buildWireRecords keys hardDelete rows = .ok lines) (h' : buildWireRecords keys hardDelete rows' = .ok lines') :
    buildWireRecords keys hardDelete (rows ++ rows') = .ok (lines ++ lines') := by
  induction rows generalizing lines with
  | nil =>
    cases h
    exact h'
  | cons row rows ih =>
    simp only [buildWireRecords] at h
    cases he : buildWireRecord row keys hardDelete with
    | error err =>
      rw [he] at h
      cases h
    | ok e =>
      cases hes : buildWireRecords keys hardDelete rows with
      | error err =>
        rw [he, hes] at h
        cases h
      | ok es =>
        rw [he, hes] at h
        cases h
        simp only [List.cons_append, buildWireRecords, he, ih hes]
        rfl

theorem buildWireRecords_flatten {keys hardDelete : List String} {chunks : List (List Row)} {lines : List (List Envelope)}
    (h : List.Forall₂ (fun rows lines => buildWireRecords keys hardDelete rows = .ok lines) chunks lines) :
    buildWireRecords keys hardDelete chunks.flatten = .ok lines.flatten := by
  induction h with
  | nil => rfl
  | cons hc _ ih => exact buildWireRecords_append hc ih

section

variable {P : Runtime} {es : List Event}

/-- **A chunk of a job comes when the chunks before it have landed**, whoever sent them. -/
theorem chunk_in_turn (hrows : RowsOk (sysTrace P es)) (hkeys : KeyResent (sysTrace P es)) {m t : ℕ} {rq : IngestRequest}
    {job : LoadJob} {r : CallRun} (hr : r ∈ (wAt P es es.length).calls) (hjob : r.call = .loadJob job)
    (hs : r.Sent t (.ingest rq)) (hlt : t < (sAt P (sysTrace P es) m).threads.length) : rq.jobId = job.jobId ∧
      ∃ b : ℕ, rq.seq = b.repr ∧ ∀ (rq₀ : IngestRequest) (a : ℕ), Arrives (sysTrace P es) (.ingest rq₀) →
        rq₀.pid = rq.pid → rq₀.loadId = rq.loadId → rq₀.jobId = rq.jobId → rq₀.seq = a.repr → a < b →
          Landed (sAt P (sysTrace P es) m).srv rq₀ := by
  obtain ⟨n, hn, hsys⟩ := exists_wAt (P := P) es m
  rw [hsys] at hlt ⊢
  obtain ⟨j, hj⟩ := List.mem_iff_getElem?.1 hr
  obtain ⟨r', i', hr', hle, hi', -⟩ := sentAt_of_thread hn hj hs hlt
  have hmem' := List.mem_of_getElem? hr'
  obtain ⟨b, hat⟩ := hi'.atChunk ((world_inv P es n).sound r' hmem') (hle.call.symm.trans hjob)
  refine ⟨hat.jobId, b, hat.seq, fun rq₀ a harr hp hl hj hs hab => ?_⟩
  -- the chunk of that number has been acknowledged, and it is the same by its ledger key
  obtain ⟨rq₁, rsp, hmem, hrsp, hp₁, hl₁, hj₁, hs₁⟩ := hat.acked a (Nat.zero_le a) hab
  have hmem := List.mem_of_mem_take hmem
  have hun := hrows.unmixed hkeys fun _ => True
  have hall := committed_of_reply hun hmem' trivial hmem hrsp
  have hk : rq₁.lkey = rq₀.lkey := by
    unfold IngestRequest.lkey
    rw [hp₁, hl₁, hj₁, hs₁, hs, hp, hl, hj, hat.loadId, hat.jobId]
  have harr₁ : Arrives (sysTrace P es) (.ingest rq₁) := by
    obtain ⟨t₁, th, -, hth, hq, -⟩ := thread_of_reply hmem' hmem
    rw [wAt_sys] at hth
    exact hq ▸ arrives_of_thread hth
  exact (AllCommitted.resent hun harr harr₁ trivial hk.symm fun _ => hall).landed

/-- A thread of the server was sent by a call. -/
theorem exists_sent {m t : ℕ} {th : Thread} (h : (sAt P (sysTrace P es) m).threads[t]? = some th) :
    ∃ r ∈ (wAt P es es.length).calls, r.Sent t th.request := by
  obtain ⟨n, hn, hsys⟩ := exists_wAt (P := P) es m
  rw [hsys] at h
  obtain ⟨r, hr, hs⟩ := (world_inv P es n).sent h
  obtain ⟨j, hj⟩ := List.mem_iff_getElem?.1 hr
  obtain ⟨r', hr', hle⟩ := calls_mono hn hj
  obtain ⟨i, hi⟩ := CallRun.sent_iff.1 hs
  exact ⟨r', List.mem_of_getElem? hr', CallRun.sent_iff.2 ⟨i, hle.sent i t _ hi⟩⟩

/-- The request for a chunk of a job. -/
def LoadJob.ingest (job : LoadJob) (pid : String) (i : ℕ) (lines : List Envelope) : IngestRequest :=
  ⟨pid, job.table.name, job.loadId, job.jobId, i.repr, lines⟩

variable {n : ℕ} {r : CallRun} {job : LoadJob} {cl : JobClient Request Answer}

/-- A job that has returned has had each of its chunks acknowledged. -/
theorem chunks_of_return (hr : r ∈ (wAt P es n).calls) (hjob : r.call = .loadJob job) (hret : r.prog = .ret (.ok .unit, cl)) :
    ∃ chunks : List (List Envelope), job.envelopes P = .ok chunks.flatten ∧ ∀ i lines, chunks[i]? = some lines →
      ∃ rsp, (Request.ingest (job.ingest (HttpTransport.pidText cl.pid) i lines), Answer.reply rsp) ∈ r.talk ∧
        rsp.status < 400 := by
  have hs := (world_inv P es n).sound r hr
  have hconv := hs.conv
  rw [hret, CallRun.program, hjob] at hconv
  obtain ⟨rows, hrows, htalk⟩ := talk_job hconv
  obtain ⟨-, hack⟩ := talk_sendEach hs.http htalk
  let cs := LoadJob.chunks P r.start.config rows
  let linesOf := fun c => (buildWireRecords (keyFields job.table) (hardDeleteFields job.table) c).toOption.getD []
  have hlines : ∀ i (hi : i < cs.length), buildWireRecords (keyFields job.table) (hardDeleteFields job.table) cs[i] =
      .ok (linesOf cs[i]) ∧ ∃ rsp, (Request.ingest (job.ingest (HttpTransport.pidText cl.pid) i (linesOf cs[i])),
        Answer.reply rsp) ∈ r.talk ∧ rsp.status < 400 := by
    intro i hi
    obtain ⟨lines, rsp, hlines, hmem, -, -, hrsp⟩ := hack i hi
    have he : linesOf cs[i] = lines := by
      change (buildWireRecords _ _ cs[i]).toOption.getD [] = lines
      rw [hlines]
      rfl
    rw [he]
    rw [Nat.zero_add] at hmem
    exact ⟨hlines, rsp, hmem, hrsp⟩
  refine ⟨cs.map linesOf, ?_, fun i lines hi => ?_⟩
  · have hbuild : List.Forall₂ (fun c lines => buildWireRecords (keyFields job.table) (hardDeleteFields job.table) c =
        .ok lines) cs (cs.map linesOf) := by
      rw [List.forall₂_map_right_iff, List.forall₂_same]
      intro c hc
      obtain ⟨i, hi, rfl⟩ := List.getElem_of_mem hc
      exact (hlines i hi).1
    have hflatten := buildWireRecords_flatten hbuild
    rw [LoadJob.chunks_flatten] at hflatten
    unfold LoadJob.envelopes
    rw [hrows]
    exact hflatten
  · rw [List.getElem?_map, Option.map_eq_some_iff] at hi
    obtain ⟨c, hc, rfl⟩ := hi
    obtain ⟨hlt, rfl⟩ := List.getElem?_eq_some_iff.1 hc
    exact (hlines i hlt).2

end

/-! ## The log of a job -/

section

variable {srv : Server} {pid table loadId : String}

/-- The ids of the records with one of the ids. -/
theorem map_recordsWith (srv : Server) (pid loadId : String) (ids : List Json.HashKey) :
    (srv.recordsWith pid loadId ids).map recordKey = ((srv.landed pid loadId).filter (· ∈ ids)).map some := by
  unfold Server.recordsWith Server.landed
  induction srv.recordsOf pid loadId with
  | nil => rfl
  | cons record records ih =>
    cases hk : recordKey record with
    | none => rw [List.filter_cons_of_neg (by simp [hk]), ih, List.filterMap_cons_none hk]
    | some k =>
      rw [List.filterMap_cons_some hk]
      by_cases hmem : k ∈ ids
      · rw [List.filter_cons_of_pos (by simpa [hk] using hmem), List.filter_cons_of_pos (by simpa using hmem), List.map_cons,
          List.map_cons, hk, ih]
      · rw [List.filter_cons_of_neg (by simpa [hk] using hmem), List.filter_cons_of_neg (by simpa using hmem), ih]

/-- A committed line and a record with its id are the same. -/
theorem stamp_of_key (hG : OnceInv srv) {e : Envelope} {record : Row} (hc : Committed srv pid table loadId e)
    (hrecord : record ∈ srv.recordsOf pid loadId) (hkey : recordKey record = e.key) :
    ∃ utc, record = e.stamp (pid ++ "." ++ table) loadId utc := by
  obtain ⟨seg, hseg, ⟨-, hp, hl⟩, utc, hm⟩ := hc
  have hmem : e.stamp (pid ++ "." ++ table) loadId utc ∈ srv.recordsOf pid loadId :=
    List.mem_flatMap.2 ⟨seg, List.mem_filter.2 ⟨hseg, by simp [hp, hl]⟩, hm⟩
  -- an id is in the store at most once
  have hone := countP_key_le_one hG pid loadId e.key
  rw [List.countP_eq_length_filter] at hone
  have h₁ : record ∈ (srv.recordsOf pid loadId).filter fun r => recordKey r = e.key :=
    List.mem_filter.2 ⟨hrecord, by simpa using hkey⟩
  have h₂ : e.stamp (pid ++ "." ++ table) loadId utc ∈ (srv.recordsOf pid loadId).filter fun r => recordKey r = e.key :=
    List.mem_filter.2 ⟨hmem, by simpa using recordKey_stamp e _ _ _⟩
  generalize (srv.recordsOf pid loadId).filter (fun r => recordKey r = e.key) = l at *
  match l, hone with
  | [], _ => cases h₁
  | [x], _ => exact ⟨utc, (List.mem_singleton.1 h₁).trans (List.mem_singleton.1 h₂).symm⟩

theorem Committed.keyed (hG : OnceInv srv) {e : Envelope} (hc : Committed srv pid table loadId e) : ∃ k, e.key = some k := by
  obtain ⟨seg, hseg, -, utc, hm⟩ := hc
  have hne := hG.keyed seg hseg _ hm
  rw [recordKey_stamp] at hne
  exact Option.ne_none_iff_exists'.1 hne

end

section

variable {P : Runtime} {es : List Event} {pid : String} {job : LoadJob} {chunks : List (List Envelope)} {n : ℕ}

/-- Each chunk of a job has arrived, and is committed. -/
structure JobCommitted (P : Runtime) (es : List Event) (n : ℕ) (pid : String) (job : LoadJob)
    (chunks : List (List Envelope)) : Prop where
  arrived : ∀ (i : ℕ) (lines : List Envelope), chunks[i]? = some lines →
    Arrives (sysTrace P es) (.ingest (job.ingest pid i lines))
  committed : ∀ (i : ℕ) (lines : List Envelope), chunks[i]? = some lines →
    AllCommitted (wAt P es n).sys.srv (job.ingest pid i lines)

theorem jobCommitted_of_return (hrows : RowsOk (sysTrace P es)) (hkeys : KeyResent (sysTrace P es)) {r : CallRun}
    {cl : JobClient Request Answer} (hr : r ∈ (wAt P es n).calls) (hjob : r.call = .loadJob job)
    (hret : r.prog = .ret (.ok .unit, cl)) : ∃ chunks : List (List Envelope), job.envelopes P = .ok chunks.flatten ∧
      JobCommitted P es n (HttpTransport.pidText cl.pid) job chunks := by
  obtain ⟨chunks, hlines, hack⟩ := chunks_of_return hr hjob hret
  refine ⟨chunks, hlines, fun i lines hi => ?_, fun i lines hi => ?_⟩
  · obtain ⟨rsp, hmem, -⟩ := hack i lines hi
    obtain ⟨t, th, -, hth, hq, -⟩ := thread_of_reply hr hmem
    rw [wAt_sys] at hth
    exact hq ▸ arrives_of_thread hth
  · obtain ⟨rsp, hmem, hrsp⟩ := hack i lines hi
    exact committed_of_reply (hrows.unmixed hkeys fun _ => True) hr trivial hmem hrsp

namespace JobCommitted

theorem mem (h : JobCommitted P es n pid job chunks) {e : Envelope} (he : e ∈ chunks.flatten) :
    ∃ (i : ℕ) (lines : List Envelope), chunks[i]? = some lines ∧ e ∈ lines ∧
      Committed (wAt P es n).sys.srv pid job.table.name job.loadId e := by
  obtain ⟨lines, hl, he⟩ := List.mem_flatten.1 he
  obtain ⟨i, hi⟩ := List.mem_iff_getElem?.1 hl
  exact ⟨i, lines, hi, he, h.committed i lines hi e he⟩

/-- Its ids tell the lines of a job apart, among all that arrive for the load. -/
theorem eq_of_key (h : JobCommitted P es n pid job chunks) (hrows : RowsOk (sysTrace P es)) {e e' : Envelope} {k : Json.HashKey}
    (he : e ∈ chunks.flatten) (hk : e.key = some k) {rq : IngestRequest} (ha : Arrives (sysTrace P es) (.ingest rq))
    (hp : rq.pid = pid) (hl : rq.loadId = job.loadId) (he' : e' ∈ rq.lines) (hk' : e'.key = some k) : e = e' := by
  obtain ⟨i, lines, hi, he, -⟩ := h.mem he
  exact (hrows.distinct (h.arrived i lines hi) ha hp.symm hl.symm e he e' he' (by simp [hk]) (hk.trans hk'.symm)).2

/-- What commits an id of the job is one of its chunks, in turn. -/
theorem turn (h : JobCommitted P es n pid job chunks) (hrows : RowsOk (sysTrace P es)) (hkeys : KeyResent (sysTrace P es))
    (hlines : job.envelopes P = .ok chunks.flatten) (hown : OwnLines P es pid job) {m t : ℕ} {rq : IngestRequest} {b : Batch}
    (hc : Committing P (sysTrace P es) m t rq b) (hp : rq.pid = pid) (hl : rq.loadId = job.loadId)
    (hk : ∃ k ∈ rq.ids, k ∈ (chunks.map (List.filterMap Envelope.key)).flatten) :
    ∃ j, (∀ c ∈ (chunks.map (List.filterMap Envelope.key)).take j, ∀ k ∈ c,
        k ∈ (sAt P (sysTrace P es) m).srv.landed pid job.loadId) ∧
      (j < (chunks.map (List.filterMap Envelope.key)).length →
        (chunks.map (List.filterMap Envelope.key))[j]? = some rq.ids) := by
  obtain ⟨crash, v, beginMs, ht⟩ := hc
  have ha : Arrives (sysTrace P es) (.ingest rq) := arrives_of_thread ht
  obtain ⟨r, hr, hs⟩ := exists_sent ht
  -- it carries a line of the job, so it is sent under its name
  obtain ⟨job', hjob', hjobId⟩ : ∃ job', r.call = .loadJob job' ∧ job'.jobId = job.jobId := by
    obtain ⟨k, hk, hmem⟩ := hk
    obtain ⟨e', he', hk'⟩ := List.mem_filterMap.1 hk
    rw [← List.filterMap_flatten] at hmem
    obtain ⟨e, he, hkey⟩ := List.mem_filterMap.1 hmem
    obtain rfl := h.eq_of_key hrows he hkey ha hp hl he' hk'
    exact hown _ hlines r hr t rq hs hp hl ⟨e, he', he⟩
  obtain ⟨hj, j, hseq, hbefore⟩ := chunk_in_turn hrows hkeys hr hjob' hs (List.getElem?_eq_some_iff.1 ht).1
  have hj := hj.trans hjobId
  refine ⟨j, fun c hc k hk => ?_, fun hlt => ?_⟩
  · obtain ⟨i, hi, rfl⟩ := List.mem_take_iff_getElem.1 hc
    obtain ⟨hij, hlt⟩ := Nat.lt_min.1 hi
    rw [List.length_map] at hlt
    rw [List.getElem_map] at hk
    obtain ⟨e, he, hkey⟩ := List.mem_filterMap.1 hk
    exact hbefore _ i (h.arrived i _ (List.getElem?_eq_getElem hlt)) hp.symm hl.symm hj.symm rfl hij e he k hkey
  · rw [List.length_map] at hlt
    have hlkey : (job.ingest pid j chunks[j]).lkey = rq.lkey := by
      unfold IngestRequest.lkey LoadJob.ingest
      dsimp only
      rw [hp, hl, hj, hseq]
    have hsame := (hkeys _ _ (h.arrived j _ (List.getElem?_eq_getElem hlt)) ha hlkey).2.2.2
    rw [List.getElem?_map, List.getElem?_eq_getElem hlt, Option.map_some, IngestRequest.ids, ← hsame]
    rfl

/-- **The ids of the job are in the store in the order of its lines**, each once. -/
theorem landed_eq (h : JobCommitted P es n pid job chunks) (hes : IdsOk (sysTrace P es)) (hcrash : MarksOk (sysTrace P es))
    (hrows : RowsOk (sysTrace P es)) (hkeys : KeyResent (sysTrace P es)) (hlines : job.envelopes P = .ok chunks.flatten)
    (hown : OwnLines P es pid job) :
    ((wAt P es n).sys.srv.landed pid job.loadId).filter (· ∈ chunks.flatten.filterMap Envelope.key) =
      (chunks.flatten.filterMap Envelope.key).eraseDups := by
  have hnodup : ∀ c ∈ chunks.map (List.filterMap Envelope.key), c.Nodup := by
    intro c hc
    obtain ⟨lines, hl, rfl⟩ := List.mem_map.1 hc
    obtain ⟨i, hi⟩ := List.mem_iff_getElem?.1 hl
    exact hes.nodup (h.arrived i lines hi)
  have hupto := landed_upto hes hcrash hrows hkeys hnodup
    (fun m t rq b hc hp hl hk => h.turn hrows hkeys hlines hown hc hp hl hk) (sysTime P es n)
  rw [← wAt_sys] at hupto
  have hlog := hupto.all fun k hk => by
    rw [← List.filterMap_flatten] at hk
    obtain ⟨e, he, hkey⟩ := List.mem_filterMap.1 hk
    obtain ⟨-, -, -, -, hc⟩ := h.mem he
    exact hc.landed hkey
  rwa [← List.filterMap_flatten] at hlog

/-- **The records of the job are its lines**, each once, where it came first. -/
theorem logged (h : JobCommitted P es n pid job chunks) (hes : IdsOk (sysTrace P es)) (hcrash : MarksOk (sysTrace P es))
    (hrows : RowsOk (sysTrace P es)) (hkeys : KeyResent (sysTrace P es)) (hlines : job.envelopes P = .ok chunks.flatten)
    (hown : OwnLines P es pid job) :
    List.Forall₂ (fun e record => ∃ utc, record = e.stamp (pid ++ "." ++ job.table.name) job.loadId utc)
      chunks.flatten.eraseDups
      ((wAt P es n).sys.srv.recordsWith pid job.loadId (chunks.flatten.filterMap Envelope.key)) := by
  have hG : OnceInv (wAt P es n).sys.srv := by
    rw [wAt_sys]
    exact (once_inv hes hcrash _).1
  have hcommitted : ∀ e ∈ chunks.flatten, Committed (wAt P es n).sys.srv pid job.table.name job.loadId e := fun e he => by
    obtain ⟨-, -, -, -, hc⟩ := h.mem he
    exact hc
  -- the ids of the records are the ids of the lines
  have hids : ((wAt P es n).sys.srv.recordsWith pid job.loadId (chunks.flatten.filterMap Envelope.key)).map recordKey =
      chunks.flatten.eraseDups.map Envelope.key := by
    have hkeyed : (chunks.flatten.filterMap Envelope.key).map some = chunks.flatten.map Envelope.key := by
      rw [List.map_filterMap]
      refine (List.filterMap_eq_map_iff_forall_eq_some.2 fun e he => ?_)
      obtain ⟨k, hk⟩ := (hcommitted e he).keyed hG
      rw [hk]
      rfl
    have hinj : ∀ e ∈ chunks.flatten, ∀ e' ∈ chunks.flatten, e.key = e'.key → e = e' := fun e he e' he' hk => by
      obtain ⟨k, hkey⟩ := (hcommitted e he).keyed hG
      obtain ⟨i, lines, hi, he', -⟩ := h.mem he'
      exact h.eq_of_key hrows he hkey (h.arrived i lines hi) rfl rfl he' (hk ▸ hkey)
    rw [map_recordsWith, h.landed_eq hes hcrash hrows hkeys hlines hown,
      ← Batches.map_eraseDups fun a _ b _ => Option.some.inj, hkeyed, Batches.map_eraseDups hinj]
  -- and a record and a line of one id are the same
  have hlen := congrArg List.length hids
  rw [List.length_map, List.length_map] at hlen
  refine List.forall₂_iff_get.2 ⟨hlen.symm, fun i h₁ h₂ => ?_⟩
  have hkey := congrArg (fun l => l[i]?) hids
  simp only [List.getElem?_map, List.getElem?_eq_getElem h₁, List.getElem?_eq_getElem h₂, Option.map_some, Option.some.injEq]
    at hkey
  exact stamp_of_key hG (hcommitted _ (List.mem_eraseDups.1 (List.getElem_mem h₁)))
    (List.mem_of_mem_filter (List.getElem_mem h₂)) hkey

end JobCommitted

end

/-- **A load job that has returned is in the log**: its records stand there in the order of its rows,
each row once, where it came first. This is so ever after, in every run of which this holds:

* all rows have ids, no two of a chunk the same, and rows of a load of a pid that have the same id are
  the same row of the same table (`IdsOk`, `RowsOk`);
* chunks of one ledger key are for one load of one table, and carry the same rows, so that a job is run
  again with the rows and the chunk settings that it had (`KeyResent`);
* no request crashes between its commit and its mark (`MarksOk`);
* in its load, the lines of the job are sent under its name only (`OwnLines`).

Whatever else is written may come in between, and the job may be run any number of times. -/
theorem job_logged (P : Runtime) (es : List Event) (hes : IdsOk (sysTrace P es)) (hcrash : MarksOk (sysTrace P es))
    (hrows : RowsOk (sysTrace P es)) (hkeys : KeyResent (sysTrace P es)) {n : ℕ} {r : CallRun}
    (hr : r ∈ (wAt P es n).calls) {job : LoadJob} {cl : JobClient Request Answer} (hjob : r.call = .loadJob job)
    (hret : r.prog = .ret (.ok .unit, cl)) (hown : OwnLines P es (HttpTransport.pidText cl.pid) job) :
    ∃ lines, job.envelopes P = .ok lines ∧
      List.Forall₂ (fun e record => ∃ utc, record = e.stamp (HttpTransport.pidText cl.pid ++ "." ++ job.table.name) job.loadId utc)
        lines.eraseDups
        ((wAt P es n).sys.srv.recordsWith (HttpTransport.pidText cl.pid) job.loadId (lines.filterMap Envelope.key)) := by
  obtain ⟨chunks, hlines, hjobc⟩ := jobCommitted_of_return hrows hkeys hr hjob hret
  exact ⟨chunks.flatten, hlines, hjobc.logged hes hcrash hrows hkeys hlines hown⟩

/-! ### A job that is run twice -/

/-- A client loads two rows, one to a chunk, and loses its connection with the second; then it loads
them again. -/
def loadedTwice : List Event :=
  [.newClient ⟨"shop", 1, 4194304⟩ "shop" 20, .call 0 (some "shop") (.loadJob (ordersJob [1, 2]))] ++
    exchange 0 0 1 ++ exchange 0 1 11 ++ [.send 0 none, .tick 2 someInputs, .lose 0] ++
    [.call 0 (some "shop") (.loadJob (ordersJob [1, 2]))] ++ exchange 1 3 1 ++ exchange 1 4 11

theorem ingests_loadedTwice :
    ingests (sysTrace .plain loadedTwice) = [ordersChunk, secondChunk, ordersChunk, secondChunk] := by decide

/-- Both rows are in the log, in order. -/
theorem job_logged_twice : ∃ r ∈ (wAt .plain loadedTwice 38).calls, ∃ cl, r.prog = .ret (.ok .unit, cl) ∧
    ∃ lines, (ordersJob [1, 2]).envelopes .plain = .ok lines ∧
      List.Forall₂ (fun e record => ∃ utc, record = e.stamp (HttpTransport.pidText cl.pid ++ "." ++ "orders") "1.0" utc)
        lines.eraseDups
        ((wAt .plain loadedTwice 38).sys.srv.recordsWith (HttpTransport.pidText cl.pid) "1.0" (lines.filterMap Envelope.key)) := by
  have hids : ∀ rq ∈ ingests (sysTrace .plain loadedTwice),
      (∀ e ∈ rq.lines, e.dltId.truthy = true) ∧ (rq.lines.filterMap Envelope.key).Nodup := by
    rw [ingests_loadedTwice]
    decide
  have hreturned : ∃ r ∈ (wAt .plain loadedTwice 38).calls, r.call = .loadJob (ordersJob [1, 2]) ∧
      ∃ cl, r.prog = .ret (.ok .unit, cl) := ⟨_, List.mem_of_getElem? (i := 1) rfl, rfl, _, rfl⟩
  have hcalls : (wAt .plain loadedTwice loadedTwice.length).calls.map CallRun.call =
      [.loadJob (ordersJob [1, 2]), .loadJob (ordersJob [1, 2])] := rfl
  obtain ⟨r, hr, hjob, cl, hret⟩ := hreturned
  refine ⟨r, hr, cl, hret, job_logged .plain loadedTwice ⟨fun ha => (hids _ (arrives_ingest.1 ha)).1,
    fun ha => (hids _ (arrives_ingest.1 ha)).2⟩ (marksOk_of_spawns rfl) (.of_ingests ingests_loadedTwice (by decide) (by decide))
    (.of_ingests ingests_loadedTwice (by decide)) hr hjob hret fun lines _ r' hr' t rq _ _ _ _ => ?_⟩
  have hmem := List.mem_map_of_mem (f := CallRun.call) hr'
  rw [hcalls] at hmem
  have hcall : r'.call = .loadJob (ordersJob [1, 2]) := by simpa using hmem
  exact ⟨_, hcall, rfl⟩

end Matterbeam
