import Matterbeam.Base.Window
import Matterbeam.Proof.Serial

/-!
# Writer ids, the ledger and the resurrection counter

In the serial order of a pid, the chunks that were let in are numbered. Their numbers are their
writer ids, the order of the pid's segments and the order of the jobs that the server looks at
to tell whether a job comes back.

* `Outlook`: what the chunks that were let in have left.
* `serve_outlook`: one more request; `run_outlook`: a run.
* `tenures`: **what is left of every run**, for each pid.
-/

namespace Matterbeam

open Function

/-! ## What was let in -/

/-- The request of a chunk that found its load open. -/
def Tenure.letIn : Tenure → Option IngestRequest
  | ingest rq _ r => if r.closed then none else some rq
  | put _ _ => none

/-- The chunks that were let in, in the order of a history. -/
def letIn (js : List (ℕ × Tenure)) : List IngestRequest := js.filterMap fun j => j.2.letIn

/-- The jobs of a list of chunks of a recordtype. -/
def jobsOn (recordtypeId : String) (rqs : List IngestRequest) : List String :=
  (rqs.filter fun rq => rq.recordtypeId = recordtypeId).map IngestRequest.jobId

/-- The ids of a segment were packed with this writer id. -/
def Segment.WrittenBy (s : Segment) (writerId : ℕ) : Prop :=
  ∃ ms noise, s.ids = (List.range s.records.length).map fun seq => packRecordId ms seq writerId noise

/-- The writer id of the chunk with this number, from 0 on. -/
def writerOf (k : ℕ) : ℕ := (k + 1) % 65536

/-- What the server knows of the jobs of a recordtype. -/
def RtState.noted (rt : RtState) : List String × ℕ := (rt.jobOrder, rt.residualStaleResurrectionCount)

/-- What the chunks that were let in have left in the data of their pid. -/
structure Outlook (rqs : List IngestRequest) (d : PidData) : Prop where
  writerSeq : d.writerSeq = rqs.length % 65536
  noted : ∀ r, (d.state.recordtypes r).noted = (jobsOn r rqs).foldl (Window.note Server.jobOrderWindow) ([], 0)
  /-- The segments are in the order of their chunks, and bear their writer ids. -/
  segments : ∃ ks : List ℕ, ks.Pairwise (· < ·) ∧
    List.Forall₂ (fun seg k => rqs[k]? = some seg.request ∧ seg.WrittenBy (writerOf k)) d.segments ks
  /-- A result in the ledger is that of a chunk with its key, and bears its writer id. -/
  ledger : ∀ chunk res, d.ledger chunk = some res →
    ∃ k rq, rqs[k]? = some rq ∧ rq.chunk = chunk ∧ res.writerId = writerOf k

/-! ## One request -/

section

variable (rq : IngestRequest) (crash : Option CrashPoint) (d : PidData)

theorem RtState.noted_arrive (rt : RtState) (jobId : String) :
    (rt.arrive jobId).noted = Window.note Server.jobOrderWindow rt.noted jobId := by
  unfold arrive noted Window.note Window.push
  by_cases h : rt.jobOrder.getLast? = some jobId <;> simp [h, List.rtake]

theorem RtState.noted_commit (rt : RtState) (beginMs : ℕ) (seg : Option Segment) : (rt.commit beginMs seg).noted = rt.noted := rfl

theorem PidData.noted_setRt (r r' : String) (rt : RtState) : ((d.setRt r rt).state.recordtypes r').noted =
    if r' = r then rt.noted else (d.state.recordtypes r').noted := by
  unfold setRt
  by_cases h : r' = r <;> simp [h]

/-- What an ingest that has got the writer id `w` still does to the data: at most one segment, and
one result in the ledger. -/
structure Leaves (w : ℕ) (d d' : PidData) : Prop where
  writerSeq : d'.writerSeq = d.writerSeq
  noted : ∀ r, (d'.state.recordtypes r).noted = (d.state.recordtypes r).noted
  segments : d'.segments = d.segments ∨ ∃ seg, seg.request = rq ∧ seg.WrittenBy w ∧ d'.segments = d.segments ++ [seg]
  ledger : d'.ledger = d.ledger ∨ ∃ res, res.writerId = w ∧ d'.ledger = update d.ledger rq.chunk (some res)

theorem Leaves.refl (w : ℕ) : Leaves rq w d d := ⟨rfl, fun _ => rfl, Or.inl rfl, Or.inl rfl⟩

namespace PidData

theorem ingestReply_fst (r : IngestResult) : (d.ingestReply crash r).1 = d := by
  unfold ingestReply
  split <;> rfl

/-- From the mark on, no segment is written. -/
theorem ingestMark_leaves (b : Batch) (ms : ℕ) (seg : Option Segment) :
    Leaves rq b.writerId d (d.ingestMark rq crash b ms seg).1 ∧
      (d.ingestMark rq crash b ms seg).1.segments = d.segments := by
  unfold ingestMark
  split
  · exact ⟨.refl rq d _, rfl⟩
  · unfold ingestRecord
    split
    · exact ⟨⟨rfl, fun _ => rfl, Or.inl rfl, Or.inl rfl⟩, rfl⟩
    · rw [ingestReply_fst]
      refine ⟨⟨rfl, fun r => ?_, Or.inl rfl, Or.inr ⟨b.result seg, rfl, rfl⟩⟩, rfl⟩
      unfold enter
      rw [noted_setRt, RtState.noted_commit]
      split
      · rename_i h
        rw [h]
        rfl
      · rfl

theorem ingestCommit_leaves (b : Batch) (ms noise : ℕ) :
    Leaves rq b.writerId d (d.ingestCommit rq crash b ms noise).1 := by
  unfold ingestCommit
  split
  · exact (ingestMark_leaves rq crash d b ms none).1
  · obtain ⟨h, hsegs⟩ := ingestMark_leaves rq crash
      (d.append (writeSegment rq.recordtypeId (b.records rq) ms b.writerId noise rq)) b ms
      (some (writeSegment rq.recordtypeId (b.records rq) ms b.writerId noise rq))
    exact ⟨h.writerSeq, h.noted, Or.inr ⟨_, rfl, ⟨ms, noise, rfl⟩, hsegs⟩, h.ledger⟩

theorem ingestFilter_leaves (w : ℕ) (utc : String) (now noise : ℕ) :
    Leaves rq w d (d.ingestFilter rq crash w utc now noise).1 := by
  unfold ingestFilter
  split
  · exact ingestCommit_leaves rq crash d ⟨w, _, utc⟩ _ noise
  · exact .refl rq d w

end PidData

end

section

variable {rqs : List IngestRequest} {d d' : PidData}

theorem jobsOn_concat (r : String) (rqs : List IngestRequest) (rq : IngestRequest) :
    jobsOn r (rqs ++ [rq]) = jobsOn r rqs ++ if rq.recordtypeId = r then [rq.jobId] else [] := by
  unfold jobsOn
  by_cases h : rq.recordtypeId = r <;> simp [h]

theorem Outlook.init : Outlook [] {} :=
  ⟨rfl, fun _ => rfl, ⟨[], List.Pairwise.nil, List.Forall₂.nil⟩, fun _ _ h => by cases h⟩

/-- The numbers of chunks stay the same when one more is let in. -/
theorem getElem?_concat_of_some {rq rq' : IngestRequest} {k : ℕ} (h : rqs[k]? = some rq) :
    (rqs ++ [rq'])[k]? = some rq :=
  (List.getElem?_append_left (List.getElem?_eq_some_iff.1 h).1).trans h

/-- One more chunk is let in. -/
theorem Outlook.concat (h : Outlook rqs d) {rq : IngestRequest} (hl : Leaves rq d.nextWriter (d.prepared rq) d') :
    Outlook (rqs ++ [rq]) d' := by
  have hnext : d.nextWriter = writerOf rqs.length := by
    unfold PidData.nextWriter writerOf
    rw [h.writerSeq]
    omega
  rw [hnext] at hl
  have hnew : (rqs ++ [rq])[rqs.length]? = some rq := List.getElem?_concat_length
  refine ⟨?_, fun r => ?_, ?_, fun chunk res hres => ?_⟩
  · rw [hl.writerSeq, List.length_append, List.length_singleton]
    exact hnext
  · rw [hl.noted, PidData.prepared, PidData.noted_setRt, RtState.noted_arrive, h.noted, jobsOn_concat, List.foldl_append]
    by_cases hr : rq.recordtypeId = r
    · subst hr
      simp
    · rw [if_neg (Ne.symm hr), if_neg hr]
      exact h.noted r
  · obtain ⟨ks, hks, hsegs⟩ := h.segments
    have hold : List.Forall₂ (fun (seg : Segment) k => (rqs ++ [rq])[k]? = some seg.request ∧ seg.WrittenBy (writerOf k))
        d.segments ks := hsegs.imp fun seg k hk => ⟨getElem?_concat_of_some hk.1, hk.2⟩
    rcases hl.segments with he | ⟨seg, hrq, hw, he⟩
    · exact ⟨ks, hks, by rw [he]; exact hold⟩
    · -- the number of the chunk is beyond those of the earlier segments
      have hlt : ∀ k ∈ ks, k < rqs.length := by
        intro k hk
        obtain ⟨i, hi, rfl⟩ := List.getElem_of_mem hk
        have hseg := hsegs.get (hsegs.length_eq ▸ hi) hi
        exact (List.getElem?_eq_some_iff.1 hseg.1).1
      refine ⟨ks ++ [rqs.length], ?_, ?_⟩
      · refine List.pairwise_append.2 ⟨hks, List.pairwise_singleton _ _, fun k hk k' hk' => ?_⟩
        rw [List.mem_singleton.1 hk']
        exact hlt k hk
      · rw [he]
        refine List.rel_append hold (List.Forall₂.cons ⟨?_, hw⟩ List.Forall₂.nil)
        rw [hnew, hrq]
  · rcases hl.ledger with he | ⟨res', hw, he⟩
    · rw [he] at hres
      obtain ⟨k, rq', hk, hchunk⟩ := h.ledger chunk res hres
      exact ⟨k, rq', getElem?_concat_of_some hk, hchunk⟩
    · rw [he] at hres
      by_cases hc : chunk = rq.chunk
      · subst hc
        rw [update_self] at hres
        cases hres
        exact ⟨_, rq, hnew, rfl, hw⟩
      · rw [update_of_ne hc] at hres
        obtain ⟨k, rq', hk, hchunk⟩ := h.ledger chunk res hres
        exact ⟨k, rq', getElem?_concat_of_some hk, hchunk⟩

/-- **One more request.** -/
theorem serve_outlook (h : Outlook rqs d) (τ : Tenure) : Outlook (rqs ++ τ.letIn.toList) (τ.serve d).1 := by
  cases τ with
  | ingest rq crash r =>
    unfold Tenure.letIn Tenure.serve PidData.ingest
    by_cases hc : r.closed
    · simpa [hc] using h
    · simp only [hc, Bool.false_eq_true, if_false]
      exact h.concat (PidData.ingestFilter_leaves rq crash _ _ _ _ _)
  | put pid doc =>
    have hput : (Tenure.serve (.put pid doc) d).1 = d ∨
        (Tenure.serve (.put pid doc) d).1 = { d with state := { d.state with dltState := some doc } } := by
      simp only [Tenure.serve, PidData.putDltState]
      rcases Server.staleVersion d.state.dltState doc with e | stale
      · exact Or.inl rfl
      · cases stale
        · exact Or.inr rfl
        · exact Or.inl rfl
    rw [Tenure.letIn, Option.toList_none, List.append_nil]
    rcases hput with he | he
    · rw [he]
      exact h
    · rw [he]
      exact ⟨h.writerSeq, h.noted, h.segments, h.ledger⟩

/-- **What requests have left**, one after another. -/
theorem run_outlook (js : List (ℕ × Tenure)) : Outlook (letIn js) (Serial.run (fun j => Tenure.serve j.2) js {}) := by
  induction js using List.reverseRecOn with
  | nil => exact Outlook.init
  | append_singleton js j ih =>
    have hlet : letIn (js ++ [j]) = letIn js ++ j.2.letIn.toList := by
      unfold letIn
      rw [List.filterMap_append]
      cases h : j.2.letIn <;> simp [h]
    rw [hlet, Serial.run_concat]
    exact serve_outlook ih j.2

/-- What the server knows of the jobs of a recordtype. -/
theorem Outlook.jobs (h : Outlook rqs d) (r : String) :
    (d.state.recordtypes r).jobOrder = (Window.changes (jobsOn r rqs)).rtake Server.jobOrderWindow ∧
      ((d.state.recordtypes r).residualStaleResurrectionCount = 0 ↔
        Window.Apart Server.jobOrderWindow (Window.changes (jobsOn r rqs))) := by
  have hw : 0 < Server.jobOrderWindow := by decide
  constructor
  · rw [← Window.foldl_push hw, ← Window.foldl_note_fst _ _ ([], 0), ← h.noted]
    rfl
  · rw [← Window.comebacks_eq_zero hw, ← h.noted]
    rfl

end

/-! ## Runs -/

/-- **What is left of every run**, for each pid. Its requests have a serial order such that
whenever nobody holds the pid, writer ids, segments, the ledger and the arrival of jobs go by the
number of the chunk among those that were let in; and the server has counted a comeback if and only
if a job has come back that it left at most 16 changes of job ago. -/
theorem tenures (P : Runtime) (es : List SysEvent) {pid : String} (hlen : pid.length = 27) :
    ∃ h, SerialHistory P es pid h ∧ ∀ n ≤ es.length, (∀ th ∈ (sAt P es n).threads, th.pidHeld ≠ some pid) →
      Outlook (letIn (Serial.before h n)) ((sAt P es n).srv.dataOf pid) ∧ ∀ r,
        ((sAt P es n).srv.rtState pid r).jobOrder =
          (Window.changes (jobsOn r (letIn (Serial.before h n)))).rtake Server.jobOrderWindow ∧
        (((sAt P es n).srv.rtState pid r).residualStaleResurrectionCount = 0 ↔
          Window.Apart Server.jobOrderWindow (Window.changes (jobsOn r (letIn (Serial.before h n))))) := by
  obtain ⟨h, H⟩ := exists_serialHistory P es hlen
  refine ⟨h, H, fun n hn hfree => ?_⟩
  have hout := run_outlook (Serial.before h n)
  rw [← H.data n hn hfree] at hout
  exact ⟨hout, hout.jobs⟩

theorem tenures_contended : ∃ h, SerialHistory .plain contendedRun "0123456789abcdefghijklmnopq" h ∧
    ∀ n ≤ contendedRun.length,
      (∀ th ∈ (sAt .plain contendedRun n).threads, th.pidHeld ≠ some "0123456789abcdefghijklmnopq") →
      Outlook (letIn (Serial.before h n)) ((sAt .plain contendedRun n).srv.dataOf "0123456789abcdefghijklmnopq") ∧
      ∀ r, ((sAt .plain contendedRun n).srv.rtState "0123456789abcdefghijklmnopq" r).jobOrder =
          (Window.changes (jobsOn r (letIn (Serial.before h n)))).rtake Server.jobOrderWindow ∧
        (((sAt .plain contendedRun n).srv.rtState "0123456789abcdefghijklmnopq" r).residualStaleResurrectionCount = 0 ↔
          Window.Apart Server.jobOrderWindow (Window.changes (jobsOn r (letIn (Serial.before h n))))) :=
  tenures .plain contendedRun (by decide)

end Matterbeam
