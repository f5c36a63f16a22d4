import Matterbeam.Model.Section
import Matterbeam.Proof.Conflict

/-!
# The lock makes requests atomic

The handlers of `ingest` and `put_dlt_state` take a dozen steps each, and any other thread may
step in between. As all that they write of a pid they write while they hold its lock, every run
is serial for each pid: the data of the pid is what whole requests make of it, one after another
in the order in which they release the lock.

* `dataOf_*`: what each piece of the handlers does to the data of a pid.
* `IngestPc.Doing`: how far an ingest has got with what it makes of the data.
* `SectionStep`: what a step of a thread does to the data of a pid.
* `serial`: **every run is serial**, with the answers.
-/

namespace Matterbeam

open Function

/-! ## The data of a pid -/

section

variable (srv : Server) {pid q : String}

theorem IngestRequest.lkey_eq (rq : IngestRequest) : rq.lkey = rq.pid ++ "|" ++ rq.chunk := by
  unfold IngestRequest.lkey IngestRequest.chunk
  simp only [String.append_assoc]

/-- Keys of two pids of one length differ. -/
theorem key_ne (hlen : q.length = pid.length) (h : q ≠ pid) (k k' : String) : q ++ "|" ++ k ≠ pid ++ "|" ++ k' := by
  intro he
  have he := congrArg String.toList he
  simp only [String.toList_append, List.append_assoc] at he
  exact h (String.toList_inj.1 (List.append_inj he (by rwa [String.length_toList, String.length_toList])).1)

theorem key_inj {k k' : String} : pid ++ "|" ++ k = pid ++ "|" ++ k' ↔ k = k' := by
  rw [← String.toList_inj, String.toList_append, String.toList_append (s := pid ++ "|"), List.append_right_inj,
    String.toList_inj]

/-- What the lock is about is not among the data. -/
theorem dataOf_congr {srv srv' : Server}
    (hw : ((srv'.pids pid).map PidItem.writerSeq).getD 0 = ((srv.pids pid).map PidItem.writerSeq).getD 0)
    (hstate : srv'.processState pid = srv.processState pid) (hseen : srv'.dltIdsSeen = srv.dltIdsSeen)
    (hsegs : srv'.segments = srv.segments) (hledger : srv'.ledger = srv.ledger) : srv'.dataOf pid = srv.dataOf pid := by
  unfold Server.dataOf
  rw [hw, hstate, hseen, hsegs, hledger]

theorem dataOf_setPid {item item' : PidItem} (h : srv.pids pid = some item) (hw : item'.writerSeq = item.writerSeq) :
    (srv.setPid pid item').dataOf q = srv.dataOf q := by
  refine dataOf_congr ?_ rfl rfl rfl rfl
  unfold Server.setPid
  dsimp only
  by_cases hq : q = pid
  · subst hq
    rw [update_self, h, Option.map_some, Option.map_some, hw]
  · rw [update_of_ne hq]

theorem dataOf_release (v : ℕ) : (srv.release pid v).dataOf q = srv.dataOf q := by
  rcases srv.release_cases pid v with ⟨item, hi, -, he⟩ | ⟨-, he⟩
  · rw [he]
    exact dataOf_setPid srv hi rfl
  · rw [he]

theorem dataOf_pause : (srv.pause pid).dataOf q = srv.dataOf q := by
  unfold Server.pause
  cases h : srv.pids pid with
  | none => rfl
  | some item => exact dataOf_setPid srv h rfl

theorem dataOf_setRtState (r : String) (rt : RtState) : (srv.setRtState pid r rt).dataOf q =
    if q = pid then (srv.dataOf pid).setRt r rt else srv.dataOf q := by
  unfold Server.setRtState Server.dataOf PidData.setRt
  by_cases hq : q = pid
  · subst hq
    simp
  · simp [hq]

theorem dataOf_trackJobArrival (r jobId : String) : (srv.trackJobArrival pid r jobId).dataOf q =
    if q = pid then (srv.dataOf pid).setRt r (((srv.dataOf pid).state.recordtypes r).arrive jobId) else srv.dataOf q := by
  change _ = if q = pid then (srv.dataOf pid).setRt r ((srv.rtState pid r).arrive jobId) else _
  unfold Server.trackJobArrival RtState.arrive
  by_cases hlast : (srv.rtState pid r).jobOrder.getLast? = some jobId
  · -- the state stays as it was
    simp only [hlast, if_true]
    by_cases hq : q = pid
    · subst hq
      rw [if_pos rfl]
      unfold PidData.setRt Server.dataOf Server.rtState
      simp
    · rw [if_neg hq]
  · simp only [hlast, if_false]
    by_cases hm : jobId ∈ (srv.rtState pid r).jobOrder
    · simp only [hm, if_true]
      exact dataOf_setRtState srv r _
    · simp only [hm, if_false, Nat.add_zero]
      exact dataOf_setRtState srv r _

theorem nextWriter_dataOf {item : PidItem} (h : srv.pids pid = some item) :
    (srv.dataOf pid).nextWriter = srv.nextWriterId pid := by
  unfold PidData.nextWriter Server.dataOf Server.nextWriterId
  simp [h]

theorem dataOf_allocWriterId {item : PidItem} (h : srv.pids pid = some item) : (srv.allocWriterId pid).dataOf q =
    if q = pid then { srv.dataOf pid with writerSeq := (srv.dataOf pid).nextWriter } else srv.dataOf q := by
  unfold Server.allocWriterId Server.nextWriterId Server.dataOf PidData.nextWriter Server.setPid
  by_cases hq : q = pid
  · subst hq
    simp [h]
  · simp [h, hq]

theorem dataOf_addSegment {seg : Segment} (hseg : seg.request.pid = pid) : (srv.addSegment seg).dataOf q =
    if q = pid then (srv.dataOf pid).append seg else srv.dataOf q := by
  unfold Server.addSegment Server.dataOf PidData.append
  by_cases hq : q = pid
  · subst hq
    simp [List.filter_append, hseg]
  · simp [List.filter_append, hq, hseg, Ne.symm hq]

theorem dataOf_markSeen (loadId : String) (ids : List Json.HashKey) : (srv.markSeen pid loadId ids).dataOf q =
    if q = pid then (srv.dataOf pid).see loadId ids else srv.dataOf q := by
  unfold Server.markSeen Server.dataOf PidData.see
  by_cases hq : q = pid
  · subst hq
    simp only [if_true, PidData.mk.injEq, true_and, and_true]
    funext l
    by_cases hl : l = loadId <;> simp [hl]
  · simp [hq]

theorem dataOf_advance (r : String) (ms : ℕ) (seg : Option Segment) : (srv.advance pid r ms seg).dataOf q =
    if q = pid then (srv.dataOf pid).setRt r (((srv.dataOf pid).state.recordtypes r).commit ms seg) else srv.dataOf q :=
  dataOf_setRtState srv r _

theorem dataOf_addLedger (hlen : q.length = pid.length) (chunk : String) (res : IngestResult) :
    (srv.addLedger (pid ++ "|" ++ chunk) res).dataOf q = if q = pid then
      { srv.dataOf pid with ledger := update (srv.dataOf pid).ledger chunk (some res) } else srv.dataOf q := by
  unfold Server.addLedger Server.dataOf
  by_cases hq : q = pid
  · subst hq
    simp only [if_true, PidData.mk.injEq, true_and]
    funext k
    by_cases hk : k = chunk
    · subst hk
      simp
    · rw [update_of_ne hk, update_of_ne (fun h => hk (key_inj.1 h))]
  · simp only [if_neg hq, PidData.mk.injEq, true_and]
    funext k
    exact update_of_ne (key_ne hlen hq _ _) _ _

theorem dataOf_setDltState (doc : Row) : (srv.setDltState pid doc).dataOf q = if q = pid then
    { srv.dataOf pid with state := { (srv.dataOf pid).state with dltState := some doc } } else srv.dataOf q := by
  unfold Server.setDltState Server.dataOf
  by_cases hq : q = pid
  · subst hq
    simp
  · simp [hq]

end

/-! ## How far a request has got -/

section

variable (Late : Bool → Prop) (Read : Inputs → Prop)

/-- Where what an ingest reads comes from: `Late` says what was found of the load, and `Read` which
inputs were read. -/
structure Sourced (r : PidData.Readings) : Prop where
  closed : Late r.closed
  utc : ∃ inp, Read inp ∧ r.utc = inp.utc
  now : ∃ inp, Read inp ∧ r.now = inp.now
  noise : ∃ inp, Read inp ∧ r.noise = inp.noise

/-- An ingest that found the data `d₀` comes to this end, whatever it will still read. -/
def Reaches (rq : IngestRequest) (crash : Option CrashPoint) (d₀ : PidData) (x : PidData × Outcome) : Prop :=
  ∃ r, Sourced Late Read r ∧ d₀.ingest rq crash r = x

/-- How far an ingest that found the data `d₀` has got, if the data are `d` now: what is left of
it makes of `d` what the whole of it makes of `d₀`. -/
def IngestPc.Doing (rq : IngestRequest) (crash : Option CrashPoint) (d₀ d : PidData) : IngestPc → Prop
  | closed _ => d = d₀
  | prepare _ => Late false ∧ d = d₀
  | filter _ w => Late false ∧ ∀ utc now noise,
      d₀.ingest rq crash ⟨false, utc, now, noise⟩ = d.ingestFilter rq crash w utc now noise
  | «begin» _ b => Late false ∧ ∃ i, Read i ∧ ∀ now noise,
      d₀.ingest rq crash ⟨false, i.utc, now, noise⟩ = d.ingestBegin rq crash b now noise
  | commit _ b ms => Late false ∧ ∃ i j, Read i ∧ Read j ∧ ∀ noise,
      d₀.ingest rq crash ⟨false, i.utc, j.now, noise⟩ = d.ingestCommit rq crash b ms noise
  | mark _ b ms seg => Reaches Late Read rq crash d₀ (d.ingestMark rq crash b ms seg)
  | record _ b ms seg => Reaches Late Read rq crash d₀ (d.ingestRecord rq crash b ms seg)
  | reply _ res => Reaches Late Read rq crash d₀ (d.ingestReply crash res)
  | release _ out => Reaches Late Read rq crash d₀ (d, out)
  | _ => False

/-- How far a state write has got. -/
def PutPc.Doing (doc : Row) (d₀ d : PidData) : PutPc → Prop
  | check _ => d = d₀
  | write _ => d = d₀ ∧ Server.staleVersion d.state.dltState doc = .ok false
  | release _ out => d₀.putDltState doc = (d, out)
  | _ => False

end

section

variable {Late : Bool → Prop} {Read : Inputs → Prop} {rq : IngestRequest} {crash : Option CrashPoint} {inp : Inputs}
  {srv : Server}

/-- With its next step the ingest goes on: it still holds its pid, and it has got as far as it is then. -/
def IngestPc.GoesOn (Late : Bool → Prop) (Read : Inputs → Prop) (rq : IngestRequest) (crash : Option CrashPoint) (inp : Inputs)
    (srv : Server) (pc : IngestPc) : Prop :=
  (pc.step rq crash inp srv).2.version ≠ none ∧ ∀ d₀, pc.Doing Late Read rq crash d₀ (srv.dataOf rq.pid) →
    (pc.step rq crash inp srv).2.Doing Late Read rq crash d₀ ((pc.step rq crash inp srv).1.dataOf rq.pid)

/-- Where nothing more is read, any reading will do. -/
theorem sourced_of_read {b : Bool} (hlate : Late b) (hread : Read inp) : Sourced Late Read ⟨b, inp.utc, inp.now, inp.noise⟩ :=
  ⟨hlate, ⟨inp, hread, rfl⟩, ⟨inp, hread, rfl⟩, ⟨inp, hread, rfl⟩⟩

namespace IngestPc

theorem closed_goesOn (hread : Read inp) (hlate : Late (decide ((rq.pid, rq.loadId) ∈ srv.closedLoads))) (v : ℕ) :
    (closed v).GoesOn Late Read rq crash inp srv := by
  unfold GoesOn step
  by_cases h : (rq.pid, rq.loadId) ∈ srv.closedLoads
  · simp only [h, if_true]
    refine ⟨by simp [version], fun d₀ hd => ?_⟩
    rw [decide_eq_true h] at hlate
    refine ⟨_, sourced_of_read hlate hread, ?_⟩
    rw [show srv.dataOf rq.pid = d₀ from hd]
    rfl
  · simp only [h, if_false]
    rw [decide_eq_false h] at hlate
    exact ⟨by simp [version], fun d₀ hd => ⟨hlate, hd⟩⟩

theorem prepare_goesOn {item : PidItem} (hitem : srv.pids rq.pid = some item) (v : ℕ) :
    (prepare v).GoesOn Late Read rq crash inp srv := by
  refine ⟨by simp [step, version], fun d₀ hd => ?_⟩
  obtain ⟨hl, rfl⟩ := hd
  refine ⟨hl, fun utc now noise => ?_⟩
  have halloc := dataOf_allocWriterId srv (q := rq.pid) hitem
  rw [if_pos rfl] at halloc
  have htrack : ((srv.allocWriterId rq.pid).trackJobArrival rq.pid rq.recordtypeId rq.jobId).dataOf rq.pid = _ :=
    dataOf_trackJobArrival _ rq.recordtypeId rq.jobId
  rw [if_pos rfl, halloc] at htrack
  simp only [step]
  rw [htrack, ← nextWriter_dataOf srv hitem]
  rfl

theorem filter_goesOn (hread : Read inp) (v w : ℕ) : (filter v w).GoesOn Late Read rq crash inp srv := by
  have hkept := dedupLoop_eq (srv.dltIdsSeen (rq.pid, rq.loadId)) rq.lines
  unfold GoesOn step
  rcases hloop : dedupLoop (srv.dltIdsSeen (rq.pid, rq.loadId)) rq.lines with ⟨hits, kept⟩
  rw [hloop] at hkept
  have hcount : (srv.countDedup hits).dataOf rq.pid = srv.dataOf rq.pid := rfl
  cases ha : rq.lines.all Envelope.hashable with
  | false =>
    -- an id cannot be looked up, and the ingest crashes
    rw [ha] at hkept
    cases hkept
    refine ⟨by simp [version], fun d₀ hd => ⟨_, sourced_of_read hd.1 hread, ?_⟩⟩
    rw [hd.2, hcount]
    unfold PidData.ingestFilter
    rw [ha, if_neg Bool.false_ne_true]
  | true =>
    rw [ha] at hkept
    cases hkept
    refine ⟨by simp [version], fun d₀ hd => ⟨hd.1, inp, hread, fun now noise => ?_⟩⟩
    rw [hd.2, hcount]
    unfold PidData.ingestFilter
    rw [ha, if_pos rfl]
    rfl

theorem begin_goesOn (hread : Read inp) (v : ℕ) (b : Batch) : («begin» v b).GoesOn Late Read rq crash inp srv := by
  refine ⟨by simp [step, version], fun d₀ hd => ?_⟩
  obtain ⟨hl, i, hi, hd⟩ := hd
  exact ⟨hl, i, inp, hi, hread, fun noise => hd inp.now noise⟩

theorem commit_goesOn (hread : Read inp) (v : ℕ) (b : Batch) (ms : ℕ) :
    (commit v b ms).GoesOn Late Read rq crash inp srv := by
  unfold GoesOn step
  have hreach : ∀ d₀, (commit v b ms).Doing Late Read rq crash d₀ (srv.dataOf rq.pid) →
      Reaches Late Read rq crash d₀ ((srv.dataOf rq.pid).ingestCommit rq crash b ms inp.noise) := by
    rintro d₀ ⟨hl, i, j, hi, hj, hd⟩
    exact ⟨_, ⟨hl, ⟨i, hi, rfl⟩, ⟨j, hj, rfl⟩, ⟨inp, hread, rfl⟩⟩, hd inp.noise⟩
  unfold PidData.ingestCommit at hreach
  by_cases hb : b.kept = []
  · simp only [hb, if_true] at hreach ⊢
    exact ⟨by simp [version], hreach⟩
  · simp only [hb, if_false] at hreach ⊢
    refine ⟨by simp [version], fun d₀ hd => ?_⟩
    rw [dataOf_addSegment srv (show _ = rq.pid from rfl), if_pos rfl]
    exact hreach d₀ hd

theorem mark_goesOn (v : ℕ) (b : Batch) (ms : ℕ) (seg : Option Segment) :
    (mark v b ms seg).GoesOn Late Read rq crash inp srv := by
  unfold GoesOn step
  simp only [Doing]
  unfold PidData.ingestMark
  by_cases hc : crash = some .afterCommitBeforeMark
  · simp only [hc, if_true]
    exact ⟨by simp [version], fun d₀ hd => hd⟩
  · simp only [hc, if_false]
    refine ⟨by simp [version], fun d₀ hd => ?_⟩
    rw [dataOf_markSeen, if_pos rfl]
    exact hd

theorem record_goesOn (v : ℕ) (b : Batch) (ms : ℕ) (seg : Option Segment) :
    (record v b ms seg).GoesOn Late Read rq crash inp srv := by
  unfold GoesOn step
  simp only [Doing]
  unfold PidData.ingestRecord
  by_cases hc : crash = some .afterMarkBeforeLedger
  · simp only [hc, if_true]
    exact ⟨by simp [version], fun d₀ hd => hd⟩
  · simp only [hc, if_false]
    refine ⟨by simp [version], fun d₀ hd => ?_⟩
    rw [rq.lkey_eq, dataOf_addLedger _ rfl, if_pos rfl, dataOf_advance, if_pos rfl]
    exact hd

theorem reply_goesOn (v : ℕ) (res : IngestResult) : (reply v res).GoesOn Late Read rq crash inp srv := by
  unfold GoesOn step
  simp only [Doing]
  unfold PidData.ingestReply
  by_cases hc : crash = some .afterLedger
  · simp only [hc, if_true]
    exact ⟨by simp [version], fun d₀ hd => hd⟩
  · simp only [hc, if_false]
    exact ⟨by simp [version], fun d₀ hd => hd⟩

/-- **A step of an ingest that holds its pid** does its part, or is the release. -/
theorem step_doing (crash : Option CrashPoint) {item : PidItem} (hitem : srv.pids rq.pid = some item) (hread : Read inp)
    (hlate : Late (decide ((rq.pid, rq.loadId) ∈ srv.closedLoads))) {pc : IngestPc} (hpc : pc.version ≠ none) :
    pc.GoesOn Late Read rq crash inp srv ∨ ∃ v out, pc = .release v out := by
  cases pc with
  | check => exact absurd rfl hpc
  | claim => exact absurd rfl hpc
  | closed v => exact Or.inl (closed_goesOn hread hlate v)
  | prepare v => exact Or.inl (prepare_goesOn hitem v)
  | filter v w => exact Or.inl (filter_goesOn hread v w)
  | «begin» v b => exact Or.inl (begin_goesOn hread v b)
  | commit v b ms => exact Or.inl (commit_goesOn hread v b ms)
  | mark v b ms seg => exact Or.inl (mark_goesOn v b ms seg)
  | record v b ms seg => exact Or.inl (record_goesOn v b ms seg)
  | reply v res => exact Or.inl (reply_goesOn v res)
  | release v out => exact Or.inr ⟨v, out, rfl⟩
  | done out => exact absurd rfl hpc

end IngestPc

/-- A step of a state write that holds its pid does its part, or is the release. -/
theorem PutPc.step_doing (srv : Server) (pid : String) (doc : Row) {pc : PutPc} (hpc : pc.version ≠ none) :
    ((pc.step pid doc srv).2.version ≠ none ∧ ∀ d₀, pc.Doing doc d₀ (srv.dataOf pid) →
      (pc.step pid doc srv).2.Doing doc d₀ ((pc.step pid doc srv).1.dataOf pid)) ∨
    ∃ v out, pc = .release v out := by
  cases pc with
  | claim => exact absurd rfl hpc
  | done out => exact absurd rfl hpc
  | release v out => exact Or.inr ⟨v, out, rfl⟩
  | check v =>
    left
    unfold PutPc.step
    have hstate : (srv.processState pid).dltState = (srv.dataOf pid).state.dltState := rfl
    rw [hstate]
    cases h : Server.staleVersion (srv.dataOf pid).state.dltState doc with
    | error e =>
      refine ⟨by simp [PutPc.version], fun d₀ hd => ?_⟩
      obtain rfl : srv.dataOf pid = d₀ := hd
      unfold PutPc.Doing PidData.putDltState
      rw [h]
    | ok stale => cases stale with
      | true =>
        refine ⟨by simp [PutPc.version], fun d₀ hd => ?_⟩
        obtain rfl : srv.dataOf pid = d₀ := hd
        unfold PutPc.Doing PidData.putDltState
        rw [h]
      | false => exact ⟨by simp [PutPc.version], fun d₀ hd => ⟨hd, h⟩⟩
  | write v =>
    left
    refine ⟨by simp [PutPc.step, PutPc.version], fun d₀ hd => ?_⟩
    obtain ⟨rfl, h⟩ := hd
    unfold PutPc.Doing PutPc.step PidData.putDltState
    dsimp only
    rw [dataOf_setDltState, if_pos rfl, h]

end

/-! ## What a step does to a pid -/

/-- The pid whose lock a request takes. -/
def Thread.lockPid : Thread → Option String
  | ingest rq _ _ => some rq.pid
  | put pid _ _ => some pid
  | once _ _ => none

/-- The pid a thread holds. -/
def Thread.pidHeld (th : Thread) : Option String := th.held.map Prod.fst

section

variable (Late : String → Bool → Prop) (Read : Inputs → Prop)

/-- How far a request has got. `Late` is for each load. -/
def Thread.Doing (d₀ d : PidData) : Thread → Prop
  | ingest rq crash pc => pc.Doing (Late rq.loadId) Read rq crash d₀ d
  | put _ doc pc => pc.Doing doc d₀ d
  | once _ _ => False

/-- Where what a request has read comes from. -/
def Tenure.Sourced : Tenure → Prop
  | ingest rq _ r => Matterbeam.Sourced (Late rq.loadId) Read r
  | put _ _ => True

/-- The request that a thread has ended, from the data that it found, with what it made of them. -/
def Ended (pid : String) (d₀ d : PidData) (th : Thread) : Prop :=
  ∃ τ : Tenure, τ.pid = pid ∧ τ.Sourced Late Read ∧ ∃ out, τ.serve d₀ = (d, out) ∧ th = τ.finished out

/-- What a step of a thread, which takes it from `th` to `th'`, does to the data of a pid. -/
inductive SectionStep (pid : String) (srv srv' : Server) (th th' : Thread) : Prop
  | away (hb : th.pidHeld ≠ some pid) (ha : th'.pidHeld ≠ some pid) (h : srv'.dataOf pid = srv.dataOf pid)
  | claim (hb : th.pidHeld ≠ some pid) (ha : th'.pidHeld = some pid) (h : srv'.dataOf pid = srv.dataOf pid)
      (hd : ∀ d, th'.Doing Late Read d d)
  | work (hb : th.pidHeld = some pid) (ha : th'.pidHeld = some pid)
      (hd : ∀ d₀, th.Doing Late Read d₀ (srv.dataOf pid) → th'.Doing Late Read d₀ (srv'.dataOf pid))
  | release (hb : th.pidHeld = some pid) (ha : th'.pidHeld ≠ some pid) (h : srv'.dataOf pid = srv.dataOf pid)
      (hd : ∀ d₀, th.Doing Late Read d₀ (srv.dataOf pid) → Ended Late Read pid d₀ (srv.dataOf pid) th')

end

section

variable {srv srv' : Server} {pid : String}

theorem pidHeld_ingest {rq : IngestRequest} {crash : Option CrashPoint} {pc : IngestPc} :
    (Thread.ingest rq crash pc).pidHeld = some pid ↔ pc.version ≠ none ∧ rq.pid = pid := by
  change (pc.version.map fun v => (rq.pid, v)).map Prod.fst = some pid ↔ _
  cases pc.version <;> simp

theorem pidHeld_put {p : String} {doc : Row} {pc : PutPc} :
    (Thread.put p doc pc).pidHeld = some pid ↔ pc.version ≠ none ∧ p = pid := by
  change (pc.version.map fun v => (p, v)).map Prod.fst = some pid ↔ _
  cases pc.version <;> simp

/-- A chunk of another pid. -/
theorem IngestStep.dataOf {rq : IngestRequest} {crash : Option CrashPoint} {inp : Inputs} {pc pc' : IngestPc}
    (h : IngestStep rq crash inp srv pc srv' pc') (hne : pid ≠ rq.pid)
    (hlen : pc.version ≠ none → pid.length = rq.pid.length) : srv'.dataOf pid = srv.dataOf pid := by
  cases h with
  | claimed hi hf hs => exact dataOf_setPid srv hi rfl
  | prepared =>
    rw [dataOf_trackJobArrival, if_neg hne]
    unfold Server.allocWriterId
    cases hi : srv.pids rq.pid with
    | none => rfl
    | some item =>
      refine dataOf_congr ?_ rfl rfl rfl rfl
      unfold Server.setPid
      dsimp only
      rw [update_of_ne hne]
  | committed hb => rw [dataOf_addSegment srv (show _ = rq.pid from rfl), if_neg hne]
  | marked => rw [dataOf_markSeen, if_neg hne]
  | recorded => rw [rq.lkey_eq, dataOf_addLedger _ (hlen (by simp [IngestPc.version])), if_neg hne, dataOf_advance,
      if_neg hne]
  | released => exact dataOf_release srv _
  | _ => rfl

/-- A state write of another pid. -/
theorem PutStep.dataOf {p : String} {doc : Row} {pc pc' : PutPc} (h : PutStep p doc srv pc srv' pc') (hne : pid ≠ p) :
    srv'.dataOf pid = srv.dataOf pid := by
  cases h with
  | claimed hi hf hs => exact dataOf_setPid srv hi rfl
  | written => rw [dataOf_setDltState, if_neg hne]
  | released => exact dataOf_release srv _
  | _ => rfl

/-- A request that is one step does nothing to the data: a new pid has none. -/
theorem OnceStep.dataOf {P : Runtime} {inp : Inputs} {rq : Request} {a : Option Answer} (h : OnceStep P inp srv rq srv' a) :
    srv'.dataOf pid = srv.dataOf pid := by
  cases h with
  | created hkey hd =>
    refine dataOf_congr ?_ rfl rfl rfl rfl
    unfold Server.freshDraw at hd
    simp only [Bool.and_eq_true, Option.isNone_iff_eq_none] at hd
    unfold Server.created
    dsimp only
    by_cases hp : pid = inp.draw
    · rw [hp, update_self, hd.2]
      rfl
    · rw [update_of_ne hp]
  | _ => rfl

variable {P : Runtime} {Late : String → Bool → Prop} {Read : Inputs → Prop} {inp : Inputs}

/-- What a step of an ingest does to the data of a pid. -/
theorem IngestPc.step_section {rq : IngestRequest} {crash : Option CrashPoint} {pc : IngestPc}
    (hpids : ∀ p, (srv.pids p).isSome → p.length = 27) (hlen : pid.length = 27)
    (hlock : Holds srv (.ingest rq crash pc)) (hread : (Thread.ingest rq crash pc).pidHeld = some pid → Read inp)
    (hlate : (Thread.ingest rq crash pc).pidHeld = some pid →
      ∀ loadId, Late loadId (decide ((pid, loadId) ∈ srv.closedLoads))) :
    SectionStep Late Read pid srv (pc.step rq crash inp srv).1 (.ingest rq crash pc)
      (.ingest rq crash (pc.step rq crash inp srv).2) := by
  have hstep := pc.step_spec rq crash inp srv
  -- a pid that is held is registered
  have hitem : pc.version ≠ none → ∃ item, srv.pids rq.pid = some item := by
    intro hv
    obtain ⟨v, hv⟩ := Option.ne_none_iff_exists'.1 hv
    have hheld : (Thread.ingest rq crash pc).held = some (rq.pid, v) := by
      change (pc.version.map fun v => (rq.pid, v)) = some (rq.pid, v)
      rw [hv]
      rfl
    obtain ⟨item, hi, -⟩ := Option.map_eq_some_iff.1 (hlock rq.pid v hheld)
    exact ⟨item, hi⟩
  by_cases hp : rq.pid = pid
  · subst hp
    by_cases hv : pc.version = none
    · -- it may claim its pid
      have hb : (Thread.ingest rq crash pc).pidHeld ≠ some rq.pid := fun h => (pidHeld_ingest.1 h).1 hv
      generalize (pc.step rq crash inp srv).1 = srv' at *
      generalize (pc.step rq crash inp srv).2 = pc' at *
      cases hstep with
      | hit h c => exact .away hb (fun h => (pidHeld_ingest.1 h).1 rfl) rfl
      | miss h => exact .away hb (fun h => (pidHeld_ingest.1 h).1 rfl) rfl
      | claimed hi hf hs =>
        exact .claim hb (pidHeld_ingest.2 ⟨by simp [IngestPc.version], rfl⟩) (dataOf_setPid srv hi rfl) fun d => rfl
      | refused c h => exact .away hb (fun h => (pidHeld_ingest.1 h).1 rfl) rfl
      | ended => exact .away hb hb rfl
      | _ => cases hv
    · have hb : (Thread.ingest rq crash pc).pidHeld = some rq.pid := pidHeld_ingest.2 ⟨hv, rfl⟩
      obtain ⟨item, hi⟩ := hitem hv
      rcases IngestPc.step_doing crash hi (hread hb) (hlate hb rq.loadId) hv with ⟨hv', hd⟩ | ⟨v, out, rfl⟩
      · exact .work hb (pidHeld_ingest.2 ⟨hv', rfl⟩) hd
      · refine .release hb (fun h => (pidHeld_ingest.1 h).1 rfl) (dataOf_release srv v) ?_
        rintro d₀ ⟨r, hr, hd⟩
        exact ⟨.ingest rq crash r, rfl, hr, out, hd, rfl⟩
  · refine .away (fun h => hp (pidHeld_ingest.1 h).2) (fun h => hp (pidHeld_ingest.1 h).2) ?_
    refine hstep.dataOf (Ne.symm hp) fun hv => ?_
    obtain ⟨item, hi⟩ := hitem hv
    rw [hlen, hpids rq.pid (by rw [hi]; rfl)]

/-- What a step of a state write does to the data of a pid. -/
theorem PutPc.step_section {p : String} {doc : Row} {pc : PutPc} :
    SectionStep Late Read pid srv (pc.step p doc srv).1 (.put p doc pc) (.put p doc (pc.step p doc srv).2) := by
  have hstep := pc.step_spec p doc srv
  by_cases hp : p = pid
  · subst hp
    by_cases hv : pc.version = none
    · have hb : (Thread.put p doc pc).pidHeld ≠ some p := fun h => (pidHeld_put.1 h).1 hv
      generalize (pc.step p doc srv).1 = srv' at *
      generalize (pc.step p doc srv).2 = pc' at *
      cases hstep with
      | claimed hi hf hs =>
        exact .claim hb (pidHeld_put.2 ⟨by simp [PutPc.version], rfl⟩) (dataOf_setPid srv hi rfl) fun d => rfl
      | refused c h => exact .away hb (fun h => (pidHeld_put.1 h).1 rfl) rfl
      | ended => exact .away hb hb rfl
      | _ => cases hv
    · have hb : (Thread.put p doc pc).pidHeld = some p := pidHeld_put.2 ⟨hv, rfl⟩
      rcases PutPc.step_doing srv p doc hv with ⟨hv', hd⟩ | ⟨v, out, rfl⟩
      · exact .work hb (pidHeld_put.2 ⟨hv', rfl⟩) hd
      · exact .release hb (fun h => (pidHeld_put.1 h).1 rfl) (dataOf_release srv v)
          fun d₀ hd => ⟨.put p doc, rfl, trivial, out, hd, rfl⟩
  · exact .away (fun h => hp (pidHeld_put.1 h).2) (fun h => hp (pidHeld_put.1 h).2) (hstep.dataOf (Ne.symm hp))

/-- **What a step of a thread does to the data of a pid.** -/
theorem Thread.step_section {th : Thread} (hpids : ∀ p, (srv.pids p).isSome → p.length = 27) (hlen : pid.length = 27)
    (hlock : Holds srv th) (hread : th.pidHeld = some pid → Read inp)
    (hlate : th.pidHeld = some pid → ∀ loadId, Late loadId (decide ((pid, loadId) ∈ srv.closedLoads))) :
    SectionStep Late Read pid srv (th.step P inp srv).1 th (th.step P inp srv).2 := by
  cases th with
  | ingest rq crash pc => exact IngestPc.step_section hpids hlen hlock hread hlate
  | put p doc pc => exact PutPc.step_section
  | once rq answer => cases answer with
    | none => exact .away (by simp [pidHeld, held]) (by simp [step, pidHeld, held]) (onceStep_spec P inp srv rq).dataOf
    | some a => exact .away (by simp [pidHeld, held]) (by simp [step, pidHeld, held]) rfl

end

/-! ## Who holds a pid -/

/-- The thread that holds a pid, and its place. -/
def Sys.holder (s : Sys) (pid : String) : Option (Thread × ℕ) :=
  s.threads.zipIdx.find? fun x => x.1.pidHeld = some pid

theorem Thread.pidHeld_eq {th : Thread} {pid : String} : th.pidHeld = some pid ↔ ∃ v, th.held = some (pid, v) := by
  unfold pidHeld
  rw [Option.map_eq_some_iff]
  constructor
  · rintro ⟨⟨p, v⟩, h, rfl⟩
    exact ⟨v, h⟩
  · rintro ⟨v, h⟩
    exact ⟨_, h, rfl⟩

section

variable {s : Sys} {pid : String}

theorem Sys.holder_eq_none : s.holder pid = none ↔ ∀ (t : ℕ) (th : Thread), s.threads[t]? = some th → th.pidHeld ≠ some pid := by
  unfold holder
  simp only [List.find?_eq_none, decide_eq_true_eq, Prod.forall, List.mem_zipIdx_iff_getElem?]
  exact ⟨fun h t th ht => h th t ht, fun h th t ht => h t th ht⟩

theorem Sys.pidHeld_holder {x : Thread × ℕ} (h : s.holder pid = some x) : x.1.pidHeld = some pid := by
  unfold holder at h
  have hx := List.find?_some h
  exact of_decide_eq_true hx

/-- Two threads do not hold one pid. -/
theorem LockInv.holder_unique (h : LockInv s) {t t' : ℕ} {th th' : Thread} (ht : s.threads[t]? = some th)
    (ht' : s.threads[t']? = some th') (hh : th.pidHeld = some pid) (hh' : th'.pidHeld = some pid) : t = t' := by
  obtain ⟨v, hv⟩ := Thread.pidHeld_eq.1 hh
  obtain ⟨v', hv'⟩ := Thread.pidHeld_eq.1 hh'
  exact h.unique ht ht' hv hv'

theorem LockInv.holder_eq_some (h : LockInv s) {t : ℕ} {th : Thread} :
    s.holder pid = some (th, t) ↔ s.threads[t]? = some th ∧ th.pidHeld = some pid := by
  constructor
  · intro hs
    have hm := List.mem_of_find?_eq_some hs
    exact ⟨List.mem_zipIdx_iff_getElem?.1 hm, Sys.pidHeld_holder hs⟩
  · rintro ⟨ht, hh⟩
    cases hs : s.holder pid with
    | none => exact absurd hh (Sys.holder_eq_none.1 hs t th ht)
    | some x =>
      obtain ⟨th', t'⟩ := x
      have hm := List.mem_zipIdx_iff_getElem?.1 (List.mem_of_find?_eq_some hs)
      have hh' := Sys.pidHeld_holder hs
      obtain rfl := h.holder_unique hm ht hh' hh
      rw [ht] at hm
      cases hm
      rfl

/-- Where thread `t` holds a pid, no other thread does; so nobody does once `t` does not. -/
theorem LockInv.holder_none {s' : Sys} (h : LockInv s) {t : ℕ} {th th' : Thread} (ht : s.threads[t]? = some th)
    (hh : th.pidHeld = some pid) (ht' : s'.threads[t]? = some th') (hh' : th'.pidHeld ≠ some pid)
    (hother : ∀ t' th₁, t' ≠ t → s'.threads[t']? = some th₁ → s.threads[t']? = some th₁) : s'.holder pid = none := by
  rw [Sys.holder_eq_none]
  intro t' th₁ ht₁ hh₁
  by_cases htt : t' = t
  · subst htt
    rw [ht'] at ht₁
    cases ht₁
    exact hh' hh₁
  · exact htt (h.holder_unique (hother t' th₁ htt ht₁) ht hh₁ hh)

/-- A step that neither takes nor leaves the lock of a pid. -/
theorem LockInv.holder_same {s' : Sys} (h : LockInv s) (h' : LockInv s') (pid : String)
    (hiff : ∀ (t : ℕ) (th : Thread), th.pidHeld = some pid → (s'.threads[t]? = some th ↔ s.threads[t]? = some th)) :
    s'.holder pid = s.holder pid := by
  cases hs : s.holder pid with
  | none =>
    rw [Sys.holder_eq_none] at hs ⊢
    exact fun t th ht hh => hs t th ((hiff t th hh).1 ht) hh
  | some x =>
    obtain ⟨th, t⟩ := x
    obtain ⟨ht, hh⟩ := h.holder_eq_some.1 hs
    exact h'.holder_eq_some.2 ⟨(hiff t th hh).2 ht, hh⟩

end

/-! ## Runs -/

section

variable (P : Runtime) (es : List SysEvent) (pid : String)

/-- At its tick `k`, which reads `inp`, the thread held the pid. -/
def During (t k : ℕ) (inp : Inputs) : Prop :=
  es[k]? = some (.tick t inp) ∧ ∃ th, (sAt P es k).threads[t]? = some th ∧ th.pidHeld = some pid

/-- What a thread that held the pid found of a load: whether it was closed at one of its ticks. -/
def FoundClosed (t : ℕ) (loadId : String) (b : Bool) : Prop :=
  ∃ k inp, During P es pid t k inp ∧ (b = true ↔ (pid, loadId) ∈ (sAt P es k).srv.closedLoads)

/-- What a thread read while it held the pid. -/
def ReadIn (t : ℕ) (inp : Inputs) : Prop := ∃ k, During P es pid t k inp

/-- The request refused without having held the pid: the lock was taken, the pid was paused or
not registered, or the chunk was in the ledger. -/
def Outcome.Declined (out : Outcome) : Prop :=
  out = .contention ∨ out = .terminal "paused" ∨ (∃ r, out = .ingested r ∧ r.duplicate = true) ∨
    (∃ r, out = .crashed r) ∧ ∃ m, (sAt P es m).srv.pids pid = none

/-- A serial history of a pid: the requests that held it, with the time at which and the thread
that released it. -/
structure SerialHistory (h : List (ℕ × ℕ × Tenure)) : Prop where
  order : h.Pairwise fun x y => x.1 < y.1
  /-- Each of them released the pid then, had read what it read while it held it, and was answered
  as it is when the requests before it were served whole. -/
  served : ∀ m t τ, (m, t, τ) ∈ h → (∃ inp, During P es pid t m inp) ∧ τ.pid = pid ∧
    τ.Sourced (FoundClosed P es pid t) (ReadIn P es pid t) ∧ (sAt P es (m + 1)).threads[t]? =
      some (τ.finished (τ.serve (Serial.run (fun j => Tenure.serve j.2) (Serial.before h m) {})).2)
  /-- No thread is there twice. -/
  once : (h.map fun x => x.2.1).Nodup
  /-- Every other request of the pid that ended was declined. -/
  others : ∀ t th out, (sAt P es es.length).threads[t]? = some th → th.outcome = some out →
    th.lockPid = some pid → (∃ m τ, (m, t, τ) ∈ h) ∨ out.Declined P es pid
  /-- Whenever nobody holds the pid, its data are what whole requests have made of it. -/
  data : ∀ n ≤ es.length, (∀ th ∈ (sAt P es n).threads, th.pidHeld ≠ some pid) →
    (sAt P es n).srv.dataOf pid = Serial.run (fun j => Tenure.serve j.2) (Serial.before h n) {}

variable {P : Runtime} {es : List SysEvent} {pid : String}

/-- Every pid has 27 characters. -/
theorem length_of_registered (n : ℕ) (p : String) (hp : ((sAt P es n).srv.pids p).isSome) : p.length = 27 := by
  revert p
  refine Sys.invariant (I := fun s => ∀ p, (s.srv.pids p).isSome → p.length = 27) (by simp) (fun n hn ih p hp => ?_) n
  rcases Sys.step_cases P (sAt P es n) es[n] with ⟨rq, crash, -, he⟩ | ⟨t, inp, th, -, ht, he⟩ |
    ⟨q, -, he⟩ | ⟨-, he⟩
  · rw [he] at hp
    exact ih p hp
  · rw [he] at hp
    rcases Thread.step_isSome P inp (sAt P es n).srv th p with h | ⟨h, -⟩
    · exact ih p (h ▸ hp)
    · exact h
  · rw [he] at hp
    exact ih p (by rwa [← Server.isSome_pause p q])
  · rw [he] at hp
    exact ih p hp

/-- How far the holder of the pid has got. -/
def HolderDoing (P : Runtime) (es : List SysEvent) (pid : String) (d₀ d : PidData) (x : Thread × ℕ) : Prop :=
  x.1.Doing (FoundClosed P es pid x.2) (ReadIn P es pid x.2) d₀ d

/-- What is known of a request that has released the pid. -/
def Released (P : Runtime) (es : List SysEvent) (pid : String) (m : ℕ) (j : ℕ × Tenure) (out : Outcome) : Prop :=
  (∃ inp, During P es pid j.1 m inp) ∧ j.2.pid = pid ∧
    j.2.Sourced (FoundClosed P es pid j.1) (ReadIn P es pid j.1) ∧
    (sAt P es (m + 1)).threads[j.1]? = some (j.2.finished out)

/-- What a step of a thread does to a pid. -/
theorem turn_tick (hlen : pid.length = 27) {n t : ℕ} {inp : Inputs} {th : Thread} (hev : es[n]? = some (.tick t inp))
    (ht : (sAt P es n).threads[t]? = some th)
    (he : sAt P es (n + 1) = ⟨(th.step P inp (sAt P es n).srv).1,
      (sAt P es n).threads.set t (th.step P inp (sAt P es n).srv).2⟩) :
    Serial.Turn (fun j => Tenure.serve j.2) (HolderDoing P es pid) (Released P es pid n)
      ((sAt P es n).srv.dataOf pid) ((sAt P es n).holder pid)
      ((sAt P es (n + 1)).srv.dataOf pid) ((sAt P es (n + 1)).holder pid) := by
  have hlock := lock_inv P es n
  have hlock' := lock_inv P es (n + 1)
  have hread : th.pidHeld = some pid → ReadIn P es pid t inp := fun hh => ⟨n, hev, th, ht, hh⟩
  have hstep : SectionStep (FoundClosed P es pid t) (ReadIn P es pid t) pid (sAt P es n).srv
      (th.step P inp (sAt P es n).srv).1 th (th.step P inp (sAt P es n).srv).2 := Thread.step_section
    (length_of_registered n) hlen (fun p v hh => hlock.holder ht hh) hread
    fun hh loadId => ⟨n, inp, ⟨hev, th, ht, hh⟩, decide_eq_true_iff⟩
  have hth' : (sAt P es (n + 1)).threads[t]? = some (th.step P inp (sAt P es n).srv).2 := by
    rw [he]
    exact List.getElem?_set_self (List.getElem?_eq_some_iff.1 ht).1
  have hother : ∀ t' th', t' ≠ t → ((sAt P es (n + 1)).threads[t']? = some th' ↔ (sAt P es n).threads[t']? = some th') := by
    intro t' th' htt
    rw [he, List.getElem?_set_ne (Ne.symm htt)]
  have hsrv : (sAt P es (n + 1)).srv = (th.step P inp (sAt P es n).srv).1 := by rw [he]
  rw [← hsrv] at hstep
  generalize (th.step P inp (sAt P es n).srv).2 = th' at *
  cases hstep with
  | away hb ha h =>
    have hholder := hlock.holder_same hlock' pid fun t' th₁ hh => ?_
    · rw [hholder, h]
      exact .idle
    · by_cases htt : t' = t
      · subst htt
        rw [hth', ht]
        exact ⟨fun h => absurd (Option.some.inj h ▸ hh) ha, fun h => absurd (Option.some.inj h ▸ hh) hb⟩
      · exact hother t' th₁ htt
  | claim hb ha h hd =>
    -- as it holds the pid now, nobody did before
    have hnone := hlock'.holder_none hth' ha ht hb fun t' th₁ htt => (hother t' th₁ htt).2
    rw [hnone, hlock'.holder_eq_some.2 ⟨hth', ha⟩, h]
    exact .take (hd _)
  | work hb ha hd =>
    rw [hlock.holder_eq_some.2 ⟨ht, hb⟩, hlock'.holder_eq_some.2 ⟨hth', ha⟩]
    exact .work hd
  | release hb ha h hd =>
    have hnone := hlock.holder_none ht hb hth' ha fun t' th₁ htt => (hother t' th₁ htt).1
    rw [hlock.holder_eq_some.2 ⟨ht, hb⟩, hnone, h]
    refine .leave fun d₀ hdo => ?_
    obtain ⟨τ, hpid, hsrc, out, hserve, hfin⟩ := hd d₀ hdo
    refine ⟨(t, τ), congrArg Prod.fst hserve, ⟨inp, hev, th, ht, hb⟩, hpid, hsrc, ?_⟩
    change (sAt P es (n + 1)).threads[t]? = some (τ.finished (τ.serve d₀).2)
    rw [hth', hfin, hserve]

/-- **What an event does to a pid**, seen from its lock. -/
theorem turn (hlen : pid.length = 27) {n : ℕ} (hn : n < es.length) :
    Serial.Turn (fun j => Tenure.serve j.2) (HolderDoing P es pid) (Released P es pid n)
      ((sAt P es n).srv.dataOf pid) ((sAt P es n).holder pid)
      ((sAt P es (n + 1)).srv.dataOf pid) ((sAt P es (n + 1)).holder pid) := by
  rcases Sys.step_cases P (sAt P es n) es[n] with ⟨rq, crash, -, he⟩ | ⟨t, inp, th, hev, ht, he⟩ |
    ⟨q, -, he⟩ | ⟨-, he⟩
  · rw [← sAt_succ hn] at he
    have hholder := (lock_inv P es n).holder_same (lock_inv P es (n + 1)) pid fun t th hh => ?_
    · rw [hholder, he]
      exact .idle
    · rw [he]
      constructor
      · intro ht
        rcases concat_cases ht with ht | ⟨-, rfl⟩
        · exact ht
        · rw [Thread.pidHeld, Thread.start_held] at hh
          cases hh
      · exact fun ht => (List.getElem?_append_left (List.getElem?_eq_some_iff.1 ht).1).trans ht
  · rw [← sAt_succ hn] at he
    exact turn_tick hlen (by rw [List.getElem?_eq_getElem hn, hev]) ht he
  · rw [← sAt_succ hn] at he
    have hholder : (sAt P es (n + 1)).holder pid = (sAt P es n).holder pid := by rw [he]; rfl
    have hdata : (sAt P es (n + 1)).srv.dataOf pid = (sAt P es n).srv.dataOf pid := by rw [he]; exact dataOf_pause _
    rw [hholder, hdata]
    exact .idle
  · rw [← sAt_succ hn] at he
    rw [he]
    exact .idle

/-- A request that has ended holds nothing, then and later. -/
theorem finished_released {m k t : ℕ} (hmk : m ≤ k) {th th' : Thread} {out : Outcome} (h : (sAt P es m).threads[t]? = some th)
    (ho : th.outcome = some out) (h' : (sAt P es k).threads[t]? = some th') : th'.pidHeld ≠ some pid := by
  obtain ⟨a, ha⟩ := Thread.answer_of_outcome (P := P) ho
  obtain ⟨th₁, h₁, -, hsame⟩ := thread_mono hmk h
  rw [h'] at h₁
  cases h₁
  rw [hsame a ha, Thread.pidHeld, Thread.held_of_answer ha]
  simp

@[simp] theorem Tenure.outcome_finished (τ : Tenure) (out : Outcome) : (τ.finished out).outcome = some out := by
  cases τ <;> rfl

/-- How a request of a pid ended that did not hold it: it was declined. -/
theorem declined {m t : ℕ} {inp : Inputs} {th : Thread} {out : Outcome} (ht : (sAt P es m).threads[t]? = some th)
    (hpid : th.lockPid = some pid) (hb : th.pidHeld ≠ some pid) (hnot : th.outcome ≠ some out)
    (ho : (th.step P inp (sAt P es m).srv).2.outcome = some out) : out.Declined P es pid := by
  cases th with
  | ingest rq crash pc =>
    cases hpid
    have hstep := pc.step_spec rq crash inp (sAt P es m).srv
    have hv : pc.version = none := by
      by_contra hv
      exact hb (pidHeld_ingest.2 ⟨hv, rfl⟩)
    change (Thread.ingest rq crash (pc.step rq crash inp (sAt P es m).srv).2).outcome = some out at ho
    generalize (pc.step rq crash inp (sAt P es m).srv).1 = srv' at *
    generalize (pc.step rq crash inp (sAt P es m).srv).2 = pc' at *
    cases hstep with
    | hit h c =>
      cases ho
      exact Or.inr (Or.inr (Or.inl ⟨_, rfl, rfl⟩))
    | refused c h =>
      cases ho
      rcases h with rfl | ⟨rfl, -⟩ | ⟨hp, r, rfl⟩
      · exact Or.inl rfl
      · exact Or.inr (Or.inl rfl)
      · exact Or.inr (Or.inr (Or.inr ⟨⟨r, rfl⟩, m, hp⟩))
    | ended => exact absurd ho hnot
    | released => cases hv
    | _ => cases ho
  | put p doc pc =>
    cases hpid
    have hstep := pc.step_spec pid doc (sAt P es m).srv
    have hv : pc.version = none := by
      by_contra hv
      exact hb (pidHeld_put.2 ⟨hv, rfl⟩)
    change (Thread.put pid doc (pc.step pid doc (sAt P es m).srv).2).outcome = some out at ho
    generalize (pc.step pid doc (sAt P es m).srv).1 = srv' at *
    generalize (pc.step pid doc (sAt P es m).srv).2 = pc' at *
    cases hstep with
    | refused c h =>
      cases ho
      rcases h with rfl | ⟨rfl, -⟩ | ⟨hp, r, rfl⟩
      · exact Or.inl rfl
      · exact Or.inr (Or.inl rfl)
      · exact Or.inr (Or.inr (Or.inr ⟨⟨r, rfl⟩, m, hp⟩))
    | ended => exact absurd ho hnot
    | released => cases hv
    | _ => cases ho
  | once rq answer => cases hpid

/-- The pid whose lock a request takes is the request's. -/
theorem Thread.step_lockPid (inp : Inputs) (srv : Server) (th : Thread) : (th.step P inp srv).2.lockPid = th.lockPid := by
  cases th with
  | ingest => rfl
  | put => rfl
  | once rq answer => cases answer <;> rfl

/-- A pid has a serial history. -/
theorem exists_serialHistory (P : Runtime) (es : List SysEvent) {pid : String} (hlen : pid.length = 27) :
    ∃ h, SerialHistory P es pid h := by
  obtain ⟨h, H⟩ : ∃ h, Serial.History (fun j : ℕ × Tenure => Tenure.serve j.2) (Released P es pid)
      (fun n => (sAt P es n).srv.dataOf pid) (fun n => (sAt P es n).holder pid) es.length h :=
    Serial.exists_history rfl fun n hn => turn hlen hn
  refine ⟨h, ⟨H.order, fun m t τ hm => H.ended _ hm, ?once, ?others, fun n hn hfree => ?data⟩⟩
  case once =>
    refine List.pairwise_map.2 (H.order.imp_of_mem fun {x y} hx hy hlt he => ?_)
    -- the thread has ended when it is there the second time
    obtain ⟨-, -, -, hfin⟩ := H.ended x hx
    obtain ⟨⟨inp, -, th, hth, hheld⟩, -⟩ := H.ended y hy
    rw [← he] at hth
    exact finished_released hlt hfin (Tenure.outcome_finished _ _) hth hheld
  case others =>
    intro t th out ht ho hpid
    obtain ⟨m, inp, th₀, hm, hev, ht₀, hnot, hC⟩ := exists_tick (C := fun th' => th'.outcome = some out)
      (fun crash rq => by cases rq <;> simp [Thread.start, Thread.outcome]) ht ho
    have hlt : m < es.length := (List.getElem?_eq_some_iff.1 hev).1
    have hstep : (sAt P es (m + 1)).threads[t]? = some (th₀.step P inp (sAt P es m).srv).2 := by
      rw [sAt_succ hlt, (List.getElem?_eq_some_iff.1 hev).2]
      simp only [Sys.step, ht₀]
      exact List.getElem?_set_self (List.getElem?_eq_some_iff.1 ht₀).1
    have hlast : (th₀.step P inp (sAt P es m).srv).2 = th := by
      obtain ⟨a, ha⟩ := Thread.answer_of_outcome (P := P) hC
      obtain ⟨th₁, h₁, -, hsame⟩ := thread_mono hlt hstep
      rw [ht] at h₁
      cases h₁
      exact (hsame a ha).symm
    have hpid₀ : th₀.lockPid = some pid := by
      rw [← Thread.step_lockPid (P := P) inp (sAt P es m).srv, hlast, hpid]
    by_cases hheld : th₀.pidHeld = some pid
    · -- it has just released the pid
      have hlock := (lock_inv P es m).holder_eq_some.2 ⟨ht₀, hheld⟩
      have hfree : (sAt P es (m + 1)).holder pid = none := by
        rw [Sys.holder_eq_none]
        intro t' th' ht' hh
        by_cases htt : t' = t
        · subst htt
          exact finished_released le_rfl hstep hC ht' hh
        · rw [sAt_succ hlt, (List.getElem?_eq_some_iff.1 hev).2] at ht'
          simp only [Sys.step, ht₀] at ht'
          rw [List.getElem?_set_ne (Ne.symm htt)] at ht'
          exact htt ((lock_inv P es m).holder_unique ht' ht₀ hh hheld)
      obtain ⟨⟨t', τ⟩, hin⟩ := H.whole m hlt (by rw [hlock]; simp) hfree
      obtain ⟨⟨inp', hev', -⟩, -⟩ := H.ended _ hin
      rw [hev] at hev'
      cases hev'
      exact Or.inl ⟨m, τ, hin⟩
    · exact Or.inr (declined ht₀ hpid₀ hheld hnot hC)
  case data => exact H.data n hn (Sys.holder_eq_none.2 fun t th ht => hfree th (List.mem_of_getElem? ht))

/-- **Every run is serial**, for each pid: its data are what whole requests have made of them, in
the order in which they released it, and each of them was answered as it is in that order. -/
theorem serial (P : Runtime) (es : List SysEvent) {pid : String} (hlen : pid.length = 27) :
    ∃ h, SerialHistory P es pid h :=
  exists_serialHistory P es hlen

end

/-! ### A contended pid -/

/-- Two chunks of one load. -/
def serialChunk (seq : String) (i : ℤ) : IngestRequest where
  pid := "0123456789abcdefghijklmnopq"
  table := "orders"
  loadId := "1.0"
  jobId := "orders.a.jsonl"
  seq := seq
  lines := [⟨Dict.ofEntries [("id", .int i)], none, some (.str i.repr)⟩]

def serialInputs : Inputs := ⟨1700000000000, "2023-11-14T22:13:20Z", 7, "0123456789abcdefghijklmnopq"⟩

/-- A pid is registered, and two chunks are sent; the second finds the lock taken, and is sent
again once the first is done. -/
def contendedRun : List SysEvent :=
  [.spawn (.register "shop" "shop") none, .tick 0 serialInputs,
    .spawn (.ingest (serialChunk "0" 1)) none, .spawn (.ingest (serialChunk "1" 2)) none,
    .tick 1 serialInputs, .tick 1 serialInputs, .tick 2 serialInputs, .tick 2 serialInputs] ++
    List.replicate 9 (.tick 1 serialInputs) ++
    [.spawn (.ingest (serialChunk "1" 2)) none] ++ List.replicate 11 (.tick 3 serialInputs)

theorem serial_contended : ∃ h, SerialHistory .plain contendedRun "0123456789abcdefghijklmnopq" h :=
  serial .plain contendedRun (by decide)

end Matterbeam
