import Mathlib.Algebra.Order.BigOperators.Group.List
import Matterbeam.Model.Section
import Matterbeam.Proof.Commit

/-!
# What was acknowledged and what is stored

A non-duplicate answer of an ingest states how many records it has committed. Summed over all
requests of a pid, the answers account for what is stored: no record is acknowledged twice or
without being there, and none is there that no request owns up to, but for requests that are
not answered yet, or crashed.

* `Thread.step_account`: what a step adds to the store and to what its request owns up to.
* `accounted`: **the answers account for the store**, in every state of every run.
-/

namespace Matterbeam

/-! ## Records -/

/-- The number of records that are stored for a pid. -/
def Server.stored (srv : Server) (pid : String) : ℕ := ((srv.dataOf pid).segments.flatMap Segment.records).length

/-- The records that a result says are new. -/
def IngestResult.newRecords (r : IngestResult) : ℕ := if r.duplicate then 0 else r.recordCount

/-- The records that an ingest has committed, as far as it still knows: a crash forgets them. -/
def IngestPc.committed : IngestPc → ℕ
  | mark _ b _ _ => b.kept.length
  | record _ b _ _ => b.kept.length
  | reply _ r => r.newRecords
  | release _ (.ingested r) => r.newRecords
  | done (.ingested r) => r.newRecords
  | _ => 0

/-- The ingest has crashed. -/
def IngestPc.crashed : IngestPc → Bool
  | release _ (.crashed _) => true
  | done (.crashed _) => true
  | _ => false

/-- The records that an ingest has committed, at most. -/
def IngestPc.most (rq : IngestRequest) (pc : IngestPc) : ℕ := if pc.crashed then rq.lines.length else pc.committed

/-- The records that a request of the pid has committed, at least and at most. -/
def Thread.atLeast (pid : String) : Thread → ℕ
  | ingest rq _ pc => if rq.pid = pid then pc.committed else 0
  | _ => 0

def Thread.atMost (pid : String) : Thread → ℕ
  | ingest rq _ pc => if rq.pid = pid then pc.most rq else 0
  | _ => 0

/-- The new records that the answer to a request of the pid states. -/
def Thread.acked (pid : String) : Thread → ℕ
  | ingest rq _ (.done (.ingested r)) => if rq.pid = pid then r.newRecords else 0
  | _ => 0

/-- The lines of a chunk of the pid that is not answered yet, or crashed. -/
def Thread.unsettled (pid : String) : Thread → ℕ
  | ingest rq _ pc => if rq.pid = pid ∧ ((Thread.ingest rq none pc).outcome = none ∨ pc.crashed) then rq.lines.length else 0
  | _ => 0

/-- A chunk does not grow on its way. -/
def IngestPc.Sized (rq : IngestRequest) : IngestPc → Prop
  | «begin» _ b => b.kept.length ≤ rq.lines.length
  | commit _ b _ => b.kept.length ≤ rq.lines.length
  | mark _ b _ _ => b.kept.length ≤ rq.lines.length
  | record _ b _ _ => b.kept.length ≤ rq.lines.length
  | reply _ r => r.newRecords ≤ rq.lines.length
  | release _ (.ingested r) => r.newRecords ≤ rq.lines.length
  | _ => True

def Thread.Sized : Thread → Prop
  | ingest rq _ pc => pc.Sized rq
  | _ => True

/-! ## Steps -/

section

variable {srv srv' : Server} {pid : String}

theorem stored_congr (h : srv'.segments = srv.segments) : srv'.stored pid = srv.stored pid := by
  unfold Server.stored Server.dataOf
  rw [h]

theorem stored_addSegment (seg : Segment) : (srv.addSegment seg).stored pid =
    srv.stored pid + if seg.request.pid = pid then seg.records.length else 0 := by
  unfold Server.stored Server.dataOf Server.addSegment
  dsimp only
  rw [List.filter_append, List.flatMap_append, List.length_append]
  by_cases h : seg.request.pid = pid <;> simp [h]

theorem length_records (b : Batch) (rq : IngestRequest) : (b.records rq).length = b.kept.length :=
  List.length_map _

/-- What a step of a chunk adds to the store, and to what the chunk owns up to. -/
theorem IngestStep.account {rq : IngestRequest} {crash : Option CrashPoint} {inp : Inputs} {pc pc' : IngestPc}
    (h : IngestStep rq crash inp srv pc srv' pc') (hs : pc.Sized rq) : pc'.Sized rq ∧
    ((srv'.segments = srv.segments ∧ pc'.committed ≤ pc.committed ∧ pc.most rq ≤ pc'.most rq) ∨
      ∃ seg, srv' = srv.addSegment seg ∧ seg.request = rq ∧ pc'.committed = pc.committed + seg.records.length ∧
        pc'.most rq = pc.most rq + seg.records.length) := by
  cases h with
  | hit => exact ⟨trivial, Or.inl ⟨rfl, by simp [IngestPc.committed, IngestResult.newRecords], Nat.zero_le _⟩⟩
  | prepared =>
    exact ⟨trivial, Or.inl ⟨((SameFacts.allocWriterId srv rq.pid).trans (SameFacts.trackJobArrival _ _ _ _)).segments,
      le_rfl, le_rfl⟩⟩
  | unhashable => exact ⟨trivial, Or.inl ⟨rfl, le_rfl, Nat.zero_le _⟩⟩
  | filtered => exact ⟨List.length_filter_le _ _, Or.inl ⟨rfl, le_rfl, le_rfl⟩⟩
  | begun => exact ⟨hs, Or.inl ⟨rfl, le_rfl, le_rfl⟩⟩
  | empty hb => exact ⟨hs, Or.inl ⟨rfl, by simp [IngestPc.committed, hb], Nat.zero_le _⟩⟩
  | @committed v b ms hb =>
    refine ⟨hs, Or.inr ⟨_, rfl, rfl, ?_, ?_⟩⟩
    · simp [IngestPc.committed, writeSegment, length_records]
    · simp [IngestPc.most, IngestPc.crashed, IngestPc.committed, writeSegment, length_records]
  | crashMark => exact ⟨trivial, Or.inl ⟨rfl, Nat.zero_le _, hs⟩⟩
  | marked => exact ⟨hs, Or.inl ⟨rfl, le_rfl, le_rfl⟩⟩
  | crashRecord => exact ⟨trivial, Or.inl ⟨rfl, Nat.zero_le _, hs⟩⟩
  | recorded => exact ⟨hs, Or.inl ⟨rfl, le_rfl, le_rfl⟩⟩
  | crashReply => exact ⟨trivial, Or.inl ⟨rfl, Nat.zero_le _, hs⟩⟩
  | replied => exact ⟨hs, Or.inl ⟨rfl, le_rfl, le_rfl⟩⟩
  | @released v out =>
    refine ⟨trivial, Or.inl ⟨(SameFacts.release srv _ _).segments, ?_, ?_⟩⟩ <;> cases out <;> exact le_rfl
  | ended => exact ⟨hs, Or.inl ⟨rfl, le_rfl, le_rfl⟩⟩
  | late => exact ⟨trivial, Or.inl ⟨rfl, le_rfl, le_rfl⟩⟩
  | refused c h =>
    refine ⟨trivial, Or.inl ⟨rfl, ?_, Nat.zero_le _⟩⟩
    rcases h with rfl | ⟨rfl, -⟩ | ⟨-, r, rfl⟩ <;> exact le_rfl
  | _ => exact ⟨trivial, Or.inl ⟨rfl, le_rfl, le_rfl⟩⟩

/-- **What a step adds to the store**, and to what its request owns up to. -/
theorem Thread.step_account (P : Runtime) (srv : Server) (pid : String) (inp : Inputs) {th : Thread} (hs : th.Sized) :
    (th.step P inp srv).2.Sized ∧
      (th.step P inp srv).2.atLeast pid + srv.stored pid ≤ th.atLeast pid + (th.step P inp srv).1.stored pid ∧
      (th.step P inp srv).1.stored pid + th.atMost pid ≤ srv.stored pid + (th.step P inp srv).2.atMost pid := by
  cases th with
  | ingest rq crash pc =>
    obtain ⟨hs', h⟩ := (pc.step_spec rq crash inp srv).account hs
    refine ⟨hs', ?_⟩
    change (if rq.pid = pid then (pc.step rq crash inp srv).2.committed else 0) + _ ≤
        (if rq.pid = pid then pc.committed else 0) + (pc.step rq crash inp srv).1.stored pid ∧
      (pc.step rq crash inp srv).1.stored pid + (if rq.pid = pid then pc.most rq else 0) ≤
        _ + if rq.pid = pid then (pc.step rq crash inp srv).2.most rq else 0
    rcases h with ⟨hsegs, hleast, hmost⟩ | ⟨seg, he, hrq, hleast, hmost⟩
    · rw [stored_congr hsegs]
      split_ifs <;> omega
    · rw [he, stored_addSegment, hrq, hleast, hmost]
      split_ifs <;> omega
  | put p doc pc =>
    refine ⟨trivial, ?_⟩
    have hsegs : ((Thread.put p doc pc).step P inp srv).1.segments = srv.segments := (pc.step_spec p doc srv).facts.segments
    rw [stored_congr hsegs]
    exact ⟨le_rfl, le_rfl⟩
  | once rq answer =>
    cases answer with
    | none =>
      refine ⟨trivial, ?_⟩
      have hsegs : ((Thread.once rq none).step P inp srv).1.segments = srv.segments :=
        (onceStep_spec P inp srv rq).facts.segments
      rw [stored_congr hsegs]
      exact ⟨le_rfl, le_rfl⟩
    | some a => exact ⟨trivial, le_rfl, le_rfl⟩

end

/-! ## Runs -/

/-- A sum over a list, once an entry of it has been replaced. -/
theorem sum_map_set {α : Type*} (f : α → ℕ) {l : List α} {i : ℕ} {a : α} (h : l[i]? = some a) (b : α) :
    ((l.set i b).map f).sum + f a = (l.map f).sum + f b := by
  induction l generalizing i with
  | nil => cases h
  | cons x l ih =>
    cases i with
    | zero =>
      obtain rfl : x = a := by simpa using h
      simp only [List.set_cons_zero, List.map_cons, List.sum_cons]
      omega
    | succ i =>
      have := ih (i := i) (by simpa using h)
      simp only [List.set_cons_succ, List.map_cons, List.sum_cons]
      omega

/-- The new records that the answers to the requests of a pid state. -/
def Sys.acked (s : Sys) (pid : String) : ℕ := (s.threads.map (Thread.acked pid)).sum

/-- The lines of the chunks of a pid that are not answered yet, or crashed. -/
def Sys.unsettled (s : Sys) (pid : String) : ℕ := (s.threads.map (Thread.unsettled pid)).sum

/-- What the requests of a pid own up to brackets what is stored. -/
structure AccountInv (pid : String) (s : Sys) : Prop where
  sized : ∀ th ∈ s.threads, th.Sized
  atLeast : (s.threads.map (Thread.atLeast pid)).sum ≤ s.srv.stored pid
  atMost : s.srv.stored pid ≤ (s.threads.map (Thread.atMost pid)).sum

section

variable {P : Runtime} {es : List SysEvent} {pid : String}

theorem account_inv (P : Runtime) (es : List SysEvent) (pid : String) (n : ℕ) : AccountInv pid (sAt P es n) := by
  refine Sys.invariant ⟨by simp, by simp, by simp [Server.stored, Server.dataOf]⟩ (fun n hn ih => ?_) n
  rcases Sys.step_cases P (sAt P es n) es[n] with ⟨rq, crash, -, he⟩ | ⟨t, inp, th, -, ht, he⟩ | ⟨q, -, he⟩ | ⟨-, he⟩
  · -- a request that has just arrived owns up to nothing
    rw [he]
    have hnew : (Thread.start crash rq).Sized ∧ (Thread.start crash rq).atLeast pid = 0 ∧
        (Thread.start crash rq).atMost pid = 0 := by
      cases rq <;> simp [Thread.start, Thread.Sized, IngestPc.Sized, Thread.atLeast, Thread.atMost, IngestPc.most,
        IngestPc.committed, IngestPc.crashed]
    refine ⟨fun th hth => ?_, ?_, ?_⟩
    · rcases List.mem_append.1 hth with hth | hth
      · exact ih.sized th hth
      · rw [List.mem_singleton.1 hth]
        exact hnew.1
    · simpa [hnew.2.1] using ih.atLeast
    · simpa [hnew.2.2] using ih.atMost
  · rw [he]
    obtain ⟨hs, hleast, hmost⟩ := Thread.step_account P (sAt P es n).srv pid inp
      (ih.sized th (List.mem_of_getElem? ht))
    have hsumleast := sum_map_set (Thread.atLeast pid) ht (th.step P inp (sAt P es n).srv).2
    have hsummost := sum_map_set (Thread.atMost pid) ht (th.step P inp (sAt P es n).srv).2
    have hle := ih.atLeast
    have hge := ih.atMost
    refine ⟨fun th' hth' => ?_, ?_, ?_⟩
    · rcases List.mem_or_eq_of_mem_set hth' with hth' | rfl
      · exact ih.sized th' hth'
      · exact hs
    · dsimp only
      omega
    · dsimp only
      omega
  · rw [he]
    have hstored : ((sAt P es n).srv.pause q).stored pid = (sAt P es n).srv.stored pid :=
      stored_congr (SameFacts.pause _ q).segments
    exact ⟨ih.sized, by rw [hstored]; exact ih.atLeast, by rw [hstored]; exact ih.atMost⟩
  · rw [he]
    exact ih

/-- What an answer states has been committed. -/
theorem Thread.acked_le (th : Thread) : th.acked pid ≤ th.atLeast pid := by
  cases th with
  | ingest rq crash pc =>
    cases pc with
    | done out => cases out <;> first | exact le_rfl | exact Nat.zero_le _
    | _ => exact Nat.zero_le _
  | _ => exact le_rfl

/-- What a request has committed it has answered for, or it is unsettled. -/
theorem Thread.atMost_le {th : Thread} (hs : th.Sized) : th.atMost pid ≤ th.acked pid + th.unsettled pid := by
  cases th with
  | ingest rq crash pc =>
    unfold atMost acked unsettled
    by_cases hp : rq.pid = pid
    · cases pc with
      | done out => cases out <;> simp [hp, IngestPc.most, IngestPc.crashed, IngestPc.committed, outcome]
      | release v out =>
        cases out with
        | ingested r => simpa [hp, IngestPc.most, IngestPc.crashed, IngestPc.committed, outcome] using (show r.newRecords ≤ _ from hs)
        | _ => simp [hp, IngestPc.most, IngestPc.crashed, IngestPc.committed, outcome]
      | mark v b ms seg =>
        simpa [hp, IngestPc.most, IngestPc.crashed, IngestPc.committed, outcome] using (show b.kept.length ≤ _ from hs)
      | record v b ms seg =>
        simpa [hp, IngestPc.most, IngestPc.crashed, IngestPc.committed, outcome] using (show b.kept.length ≤ _ from hs)
      | reply v r =>
        simpa [hp, IngestPc.most, IngestPc.crashed, IngestPc.committed, outcome] using (show r.newRecords ≤ _ from hs)
      | _ => simp [hp, IngestPc.most, IngestPc.crashed, IngestPc.committed, outcome]
    · simp [hp]
  | _ => exact le_rfl

/-- **The answers account for the store.** In every state of every run, the new records that the
answers to the requests of a pid state are all stored, and what else is stored for the pid are
lines of requests that are not answered yet, or crashed. -/
theorem accounted (P : Runtime) (es : List SysEvent) (pid : String) (n : ℕ) :
    (sAt P es n).acked pid ≤ (sAt P es n).srv.stored pid ∧
      (sAt P es n).srv.stored pid ≤ (sAt P es n).acked pid + (sAt P es n).unsettled pid := by
  have hinv := account_inv P es pid n
  have hleast : (sAt P es n).acked pid ≤ ((sAt P es n).threads.map (Thread.atLeast pid)).sum :=
    List.sum_le_sum fun th _ => th.acked_le
  have hmost : ((sAt P es n).threads.map (Thread.atMost pid)).sum ≤
      (sAt P es n).acked pid + (sAt P es n).unsettled pid := by
    unfold Sys.acked Sys.unsettled
    rw [← List.sum_map_add]
    exact List.sum_le_sum fun th hth => Thread.atMost_le (hinv.sized th hth)
  exact ⟨hleast.trans hinv.atLeast, hinv.atMost.trans hmost⟩

end

end Matterbeam
