import Matterbeam.Base.Sift
import Matterbeam.Proof.Commit

/-!
# Requests one at a time

A request that runs to its end before the next one arrives. Nothing is in its way then:
a chunk is taken when it is new, its ids can be looked up and its pid and load are
open, and it is turned away otherwise.

* `deliver_ingest`: the eleven steps of an ingest, as a run of the system.
* `ingest_taken`, `ingest_untaken`: **what an ingest does**: it takes the chunk, or it leaves the
  facts alone.
-/

namespace Matterbeam

open Function

/-! ## Runs without interference -/

/-- A request arrives, and its thread makes its steps with no other in between. -/
def Sys.deliver (P : Runtime) (s : Sys) (rq : Request) (inp : Inputs) : Sys :=
  Sys.run P (.spawn rq none :: List.replicate 11 (.tick s.threads.length inp)) s

namespace Server

/-- `n` steps of `ingest`. -/
def ingestFor (rq : IngestRequest) (inp : Inputs) (n : ℕ) (s : Server × IngestPc) : Server × IngestPc :=
  (fun s : Server × IngestPc => s.2.step rq none inp s.1)^[n] s

/-- `ingest`, from its first step to its last. -/
def ingest (srv : Server) (rq : IngestRequest) (inp : Inputs) : Server × IngestPc :=
  ingestFor rq inp 11 (srv, .check)

variable {rq : IngestRequest} {inp : Inputs}

theorem ingestFor_succ (n : ℕ) (srv : Server) (pc : IngestPc) :
    ingestFor rq inp (n + 1) (srv, pc) = ingestFor rq inp n (pc.step rq none inp srv) := rfl

theorem ingestFor_done (n : ℕ) (srv : Server) (out : Outcome) :
    ingestFor rq inp n (srv, .done out) = (srv, .done out) := by
  induction n with
  | zero => rfl
  | succ n ih => exact ih

end Server

/-- Ticks of a thread that no other comes between. -/
theorem Sys.run_ticks (P : Runtime) (rq : IngestRequest) (inp : Inputs) (threads : List Thread) (n : ℕ)
    (srv : Server) (pc : IngestPc) :
    Sys.run P (List.replicate n (.tick threads.length inp)) ⟨srv, threads ++ [.ingest rq none pc]⟩ =
      ⟨(Server.ingestFor rq inp n (srv, pc)).1,
        threads ++ [.ingest rq none (Server.ingestFor rq inp n (srv, pc)).2]⟩ := by
  induction n generalizing srv pc with
  | zero => rfl
  | succ n ih =>
    have hstep : Sys.step P ⟨srv, threads ++ [.ingest rq none pc]⟩ (.tick threads.length inp) =
        ⟨(pc.step rq none inp srv).1, threads ++ [.ingest rq none (pc.step rq none inp srv).2]⟩ := by
      unfold Sys.step
      simp [Thread.step]
    rw [List.replicate_succ, Server.ingestFor_succ]
    unfold Sys.run at ih ⊢
    rw [List.foldl_cons, hstep]
    exact ih _ _

/-- **A chunk delivered on its own** is one whole run of `ingest`. -/
theorem deliver_ingest (P : Runtime) (s : Sys) (rq : IngestRequest) (inp : Inputs) :
    s.deliver P (.ingest rq) inp =
      ⟨(s.srv.ingest rq inp).1, s.threads ++ [.ingest rq none (s.srv.ingest rq inp).2]⟩ := by
  have hspawn : ∀ es, Sys.run P (.spawn (.ingest rq) none :: es) s =
      Sys.run P es ⟨s.srv, s.threads ++ [.ingest rq none .check]⟩ := fun _ => rfl
  unfold Sys.deliver
  rw [hspawn, Sys.run_ticks]
  rfl

/-! ## What is left alone -/

namespace Server

/-- The pid is registered, not paused, and its entry lock is free. -/
def Free (srv : Server) (pid : String) : Prop :=
  ∃ item, srv.pids pid = some item ∧ item.fsmState ≠ .paused ∧ item.invokeSemaphore = 1

/-- Chunks of the load are let in. -/
def Open (srv : Server) (pid loadId : String) : Prop := srv.Free pid ∧ (pid, loadId) ∉ srv.closedLoads

/-- The high-water mark of a recordtype. -/
def highWater (srv : Server) (pid recordtypeId : String) : ℕ := (srv.rtState pid recordtypeId).highWaterMs

variable {srv srv' : Server}

theorem rtState_setRtState (srv : Server) (pid recordtypeId : String) (rt : RtState) (p r : String) :
    (srv.setRtState pid recordtypeId rt).rtState p r =
      if p = pid ∧ r = recordtypeId then rt else srv.rtState p r := by
  unfold setRtState rtState
  by_cases hp : p = pid
  · subst hp
    by_cases hr : r = recordtypeId
    · subst hr; simp
    · simp [hr]
  · simp [hp]

theorem highWater_trackJobArrival (srv : Server) (pid recordtypeId jobId p r : String) :
    (srv.trackJobArrival pid recordtypeId jobId).highWater p r = srv.highWater p r := by
  have hset : ∀ rt : RtState, rt.highWaterMs = srv.highWater pid recordtypeId →
      (srv.setRtState pid recordtypeId rt).highWater p r = srv.highWater p r := by
    intro rt hrt
    unfold highWater
    rw [rtState_setRtState]
    split
    · rename_i h; rw [hrt, h.1, h.2]; rfl
    · rfl
  unfold trackJobArrival
  dsimp only
  split
  · rfl
  · split
    · exact hset _ rfl
    · exact hset _ rfl

theorem highWater_congr (h : srv'.processState = srv.processState) (p r : String) :
    srv'.highWater p r = srv.highWater p r := by
  unfold highWater rtState
  rw [h]

theorem release_processState (srv : Server) (pid : String) (v : ℕ) :
    (srv.release pid v).processState = srv.processState := by
  rcases srv.release_cases pid v with ⟨item, -, -, he⟩ | ⟨-, he⟩ <;> rw [he]
  rfl

theorem highWater_advance (srv : Server) (pid recordtypeId : String) (beginMs : ℕ) (seg : Option Segment)
    (p r : String) : (srv.advance pid recordtypeId beginMs seg).highWater p r =
      if p = pid ∧ r = recordtypeId then max (srv.highWater pid recordtypeId) beginMs else srv.highWater p r := by
  unfold advance highWater
  rw [rtState_setRtState]
  split <;> rfl

theorem beginMs_eq (srv : Server) (pid recordtypeId : String) (now : ℕ) :
    srv.beginMs pid recordtypeId now = max now (srv.highWater pid recordtypeId + 1) := rfl

/-- The pids are the same but for one, which is free in both. -/
theorem open_of_setPid {pid : String} {item : PidItem} (hfree : srv.Free pid) (hf : item.fsmState ≠ .paused)
    (hs : item.invokeSemaphore = 1) (hp : srv'.pids = update srv.pids pid (some item))
    (hc : srv'.closedLoads = srv.closedLoads) (p loadId : String) : srv'.Open p loadId ↔ srv.Open p loadId := by
  unfold Open
  rw [hc]
  refine and_congr_left fun _ => ?_
  by_cases h : p = pid
  · subst h
    exact iff_of_true ⟨item, by rw [hp, update_self], hf, hs⟩ hfree
  · unfold Free
    rw [hp, update_of_ne h]

theorem open_congr (hp : srv'.pids = srv.pids) (hc : srv'.closedLoads = srv.closedLoads) (p loadId : String) :
    srv'.Open p loadId ↔ srv.Open p loadId := by
  unfold Open Free
  rw [hp, hc]

end Server

/-! ## What an ingest does -/

namespace Server

variable (srv : Server) (rq : IngestRequest) (inp : Inputs)

/-- The chunk is new, its ids can be looked up, and its pid and load are open. -/
structure Takes : Prop where
  new : srv.ledger rq.lkey = none
  hashable : rq.lines.all Envelope.hashable = true
  «open» : srv.Open rq.pid rq.loadId

/-- The batch of a chunk that is taken. -/
def batchOf : Batch where
  writerId := srv.nextWriterId rq.pid
  kept := rq.lines.filter (Envelope.fresh (srv.dltIdsSeen (rq.pid, rq.loadId)))
  utc := inp.utc

/-- The segment of a chunk that is taken, unless all of its lines are dropped. -/
def segmentOf : Option Segment :=
  if (srv.batchOf rq inp).kept = [] then none
  else some (writeSegment rq.recordtypeId ((srv.batchOf rq inp).records rq)
    (srv.beginMs rq.pid rq.recordtypeId inp.now) (srv.nextWriterId rq.pid) inp.noise rq)

end Server

/-- Commit a segment, if there is one. -/
def Server.addSegment? (srv : Server) : Option Segment → Server
  | some seg => srv.addSegment seg
  | none => srv

theorem Server.addSegment?_spec (srv : Server) (seg : Option Segment) :
    srv.addSegment? seg = { srv with
      segments := srv.segments ++ seg.toList
      visibility := (srv.addSegment? seg).visibility
      counters := (srv.addSegment? seg).counters } := by
  cases seg with
  | none => simp [addSegment?]
  | some seg => rfl

/-- The server after a chunk that was taken. -/
structure Taken (srv : Server) (rq : IngestRequest) (inp : Inputs) (srv' : Server) : Prop where
  segments : srv'.segments = srv.segments ++ (srv.segmentOf rq inp).toList
  seen : srv'.dltIdsSeen = update srv.dltIdsSeen (rq.pid, rq.loadId)
    ((srv.batchOf rq inp).ids ++ srv.dltIdsSeen (rq.pid, rq.loadId))
  ledger : srv'.ledger = update srv.ledger rq.lkey
    (some ((srv.batchOf rq inp).result (srv.segmentOf rq inp)))
  highWater : ∀ p r, srv'.highWater p r =
    if p = rq.pid ∧ r = rq.recordtypeId then srv.beginMs rq.pid rq.recordtypeId inp.now else srv.highWater p r
  gate : ∀ p loadId, srv'.Open p loadId ↔ srv.Open p loadId

/-- The server after a chunk that was turned away. -/
structure Untaken (srv srv' : Server) : Prop where
  facts : SameFacts srv srv'
  highWater : ∀ p r, srv'.highWater p r = srv.highWater p r
  gate : ∀ p loadId, srv'.Open p loadId ↔ srv.Open p loadId

/-- The server once a chunk is past its allocations: its pid is claimed, and nothing else that
matters here is touched. -/
structure Prepared (srv : Server) (pid : String) (item : PidItem) (srv' : Server) : Prop where
  facts : SameFacts srv srv'
  pids : srv'.pids = update srv.pids pid (some item)
  closed : srv'.closedLoads = srv.closedLoads
  highWater : ∀ p r, srv'.highWater p r = srv.highWater p r

section

variable {srv : Server} {rq : IngestRequest}

/-- **The first steps of an ingest** that is new and let in. -/
theorem ingest_prepared (hl : srv.ledger rq.lkey = none) (ho : srv.Open rq.pid rq.loadId) (inp : Inputs) :
    ∃ item srv₁, Prepared srv rq.pid item srv₁ ∧ srv.ingest rq inp =
      Server.ingestFor rq inp 7 (srv₁, .filter item.updateVersion (srv.nextWriterId rq.pid)) := by
  obtain ⟨⟨item, hi, hf, hs⟩, hc⟩ := ho
  -- the chunk is not in the ledger, the pid is free, and the load is open
  have h₁ : IngestPc.step rq none inp srv .check = (srv, .claim) := by
    unfold IngestPc.step
    rw [hl]
  have h₂ : IngestPc.step rq none inp srv .claim =
      (srv.setPid rq.pid item.claimed, .closed (item.updateVersion + 1)) := by
    simp [IngestPc.step, Server.claim, hi, hf, hs, PidItem.claimed]
  have h₃ : IngestPc.step rq none inp (srv.setPid rq.pid item.claimed) (.closed (item.updateVersion + 1)) =
      (srv.setPid rq.pid item.claimed, .prepare (item.updateVersion + 1)) := by
    unfold IngestPc.step
    exact if_neg hc
  have hw : (srv.setPid rq.pid item.claimed).nextWriterId rq.pid = srv.nextWriterId rq.pid := by
    simp [Server.nextWriterId, Server.setPid, hi, PidItem.claimed]
  have halloc : (srv.setPid rq.pid item.claimed).allocWriterId rq.pid =
      srv.setPid rq.pid { item.claimed with writerSeq := srv.nextWriterId rq.pid } := by
    unfold Server.allocWriterId
    rw [hw]
    simp [Server.setPid]
  -- so it takes the writer id, and the arrival of its job is noted
  refine ⟨{ item.claimed with writerSeq := srv.nextWriterId rq.pid },
    ((srv.setPid rq.pid item.claimed).allocWriterId rq.pid).trackJobArrival rq.pid rq.recordtypeId rq.jobId,
    ⟨?_, ?_, ?_, fun p r => ?_⟩, ?_⟩
  · rw [halloc]
    have hset : SameFacts srv (srv.setPid rq.pid { item.claimed with writerSeq := srv.nextWriterId rq.pid }) :=
      ⟨rfl, rfl, rfl⟩
    exact hset.trans (SameFacts.trackJobArrival _ _ _ _)
  · rw [Server.trackJobArrival_pids, halloc]
    rfl
  · rw [(SameRolls.trackJobArrival _ _ _ _).closedLoads, halloc]
    rfl
  · rw [Server.highWater_trackJobArrival, halloc]
    rfl
  · unfold Server.ingest
    rw [Server.ingestFor_succ, h₁, Server.ingestFor_succ, h₂, Server.ingestFor_succ, h₃, Server.ingestFor_succ]
    rw [← hw]
    rfl

/-- The release of a claimed pid opens it again. -/
theorem Prepared.release {item : PidItem} {srv₁ srv₂ : Server} (h : Prepared srv rq.pid item srv₁)
    (hfree : srv.Free rq.pid) (hp : srv₂.pids = srv₁.pids) (hc : srv₂.closedLoads = srv₁.closedLoads)
    (p loadId : String) : (srv₂.release rq.pid item.updateVersion).Open p loadId ↔ srv.Open p loadId := by
  have hi : srv₂.pids rq.pid = some item := by rw [hp, h.pids, update_self]
  have he : srv₂.release rq.pid item.updateVersion = srv₂.setPid rq.pid item.released := by
    simp [Server.release, hi, PidItem.released]
  have hpids : (srv₂.setPid rq.pid item.released).pids = update srv.pids rq.pid (some item.released) := by
    unfold Server.setPid
    rw [hp, h.pids, update_idem]
  rw [he]
  exact Server.open_of_setPid hfree (by simp [PidItem.released]) rfl hpids (hc.trans h.closed) p loadId

end

section

variable {srv : Server} {rq : IngestRequest}

/-- **A chunk that is taken**: its lines that were not seen are committed in one segment, the
ids are marked, the chunk is entered in the ledger, and the lock is free again. -/
theorem ingest_taken (h : srv.Takes rq) (inp : Inputs) : ∃ srv',
    srv.ingest rq inp = (srv', .done (.ingested ((srv.batchOf rq inp).result (srv.segmentOf rq inp)))) ∧
      Taken srv rq inp srv' := by
  obtain ⟨item, srv₁, hp, he⟩ := ingest_prepared h.new h.open inp
  -- the claim has changed nothing that the filter and the clock look at
  obtain ⟨hits, hd⟩ : ∃ hits, dedupLoop (srv₁.dltIdsSeen (rq.pid, rq.loadId)) rq.lines =
      (hits, some (srv.batchOf rq inp).kept) := by
    have := dedupLoop_eq (srv.dltIdsSeen (rq.pid, rq.loadId)) rq.lines
    rw [if_pos h.hashable] at this
    exact ⟨_, Prod.ext rfl (by rw [hp.facts.seen]; exact this)⟩
  have hms : srv₁.beginMs rq.pid rq.recordtypeId inp.now = srv.beginMs rq.pid rq.recordtypeId inp.now := by
    rw [Server.beginMs_eq, Server.beginMs_eq, hp.highWater]
  set b := srv.batchOf rq inp with hb
  set ms := srv.beginMs rq.pid rq.recordtypeId inp.now with hmsdef
  -- the lines are filtered, the clock is read, and the segment is written
  have h₁ : IngestPc.step rq none inp srv₁ (.filter item.updateVersion (srv.nextWriterId rq.pid)) =
      (srv₁.countDedup hits, .begin item.updateVersion b) := by
    unfold IngestPc.step
    rw [hd]
    rfl
  have h₂ : IngestPc.step rq none inp (srv₁.countDedup hits) (.begin item.updateVersion b) =
      (srv₁.countDedup hits, .commit item.updateVersion b ms) := by
    unfold IngestPc.step
    rw [← hms]
    rfl
  have h₃ : IngestPc.step rq none inp (srv₁.countDedup hits) (.commit item.updateVersion b ms) =
      ((srv₁.countDedup hits).addSegment? (srv.segmentOf rq inp),
        .mark item.updateVersion b ms (srv.segmentOf rq inp)) := by
    unfold Server.segmentOf
    by_cases hk : b.kept = []
    · rw [if_pos hk]
      exact if_pos hk
    · rw [if_neg hk]
      exact if_neg hk
  set seg := srv.segmentOf rq inp with hseg
  set srv₂ := (srv₁.countDedup hits).addSegment? seg with hsrv₂
  have hf := hp.facts
  refine ⟨(((srv₂.markSeen rq.pid rq.loadId b.ids).advance rq.pid rq.recordtypeId ms seg).addLedger rq.lkey
    (b.result seg)).release rq.pid item.updateVersion, ?_, ?_⟩
  · rw [he, Server.ingestFor_succ, h₁, Server.ingestFor_succ, h₂, Server.ingestFor_succ, h₃]
    rfl
  -- what all the steps together have made of the server
  obtain ⟨hs, hl, hi⟩ := SameFacts.release (((srv₂.markSeen rq.pid rq.loadId b.ids).advance rq.pid
    rq.recordtypeId ms seg).addLedger rq.lkey (b.result seg)) rq.pid item.updateVersion
  have hsrv := (srv₁.countDedup hits).addSegment?_spec seg
  refine ⟨hs.trans ?_, hi.trans ?_, hl.trans ?_, fun p r => ?_, ?_⟩
  · rw [← hf.segments, hsrv₂, hsrv]
    rfl
  · rw [← hf.seen, hsrv₂, hsrv]
    rfl
  · rw [← hf.ledger, hsrv₂, hsrv]
    rfl
  · have hw : ∀ p r, (srv₂.markSeen rq.pid rq.loadId b.ids).highWater p r = srv.highWater p r := by
      intro p r
      rw [← hp.highWater, hsrv₂, hsrv]
      rfl
    rw [Server.highWater_congr (Server.release_processState _ _ _)]
    refine (Server.highWater_advance _ _ _ _ _ _ _).trans ?_
    rw [hw, hw, hmsdef, Server.beginMs_eq]
    congr 1
    omega
  · refine hp.release h.open.1 ?_ ?_
    · rw [hsrv₂, hsrv]; rfl
    · rw [hsrv₂, hsrv]; rfl

/-- Turned away at the claim, or after it by a closed load. -/
theorem ingest_shut (hl : srv.ledger rq.lkey = none) (ho : ¬ srv.Open rq.pid rq.loadId) (inp : Inputs) :
    ∃ srv' out, srv.ingest rq inp = (srv', .done out) ∧ Untaken srv srv' := by
  have h₁ : IngestPc.step rq none inp srv .check = (srv, .claim) := by
    unfold IngestPc.step
    rw [hl]
  unfold Server.ingest
  rw [Server.ingestFor_succ, h₁, Server.ingestFor_succ]
  rcases srv.claim_cases rq.pid with ⟨item, hi, hf, hs, he⟩ | ⟨out, c, he, -⟩
  · -- the claim is let in, so it is the load that is closed
    have hc : (rq.pid, rq.loadId) ∈ srv.closedLoads := by
      by_contra hc
      exact ho ⟨⟨item, hi, hf, hs⟩, hc⟩
    have h₂ : IngestPc.step rq none inp srv .claim =
        (srv.setPid rq.pid item.claimed, .closed (item.updateVersion + 1)) := by
      unfold IngestPc.step
      rw [he]
    have h₃ : IngestPc.step rq none inp (srv.setPid rq.pid item.claimed) (.closed (item.updateVersion + 1)) =
        (srv.setPid rq.pid item.claimed, .release (item.updateVersion + 1) (.terminal "load_closed")) := by
      unfold IngestPc.step
      exact if_pos hc
    have hp : Prepared srv rq.pid item.claimed (srv.setPid rq.pid item.claimed) :=
      ⟨⟨rfl, rfl, rfl⟩, rfl, rfl, fun _ _ => rfl⟩
    rw [h₂, Server.ingestFor_succ, h₃, Server.ingestFor_succ]
    exact ⟨_, _, Server.ingestFor_done _ _ _, hp.facts.trans (SameFacts.release _ _ _),
      Server.highWater_congr (Server.release_processState _ _ _), hp.release ⟨item, hi, hf, hs⟩ rfl rfl⟩
  · have h₂ : IngestPc.step rq none inp srv .claim = ({ srv with counters := c }, .done out) := by
      unfold IngestPc.step
      rw [he]
    rw [h₂]
    exact ⟨_, _, Server.ingestFor_done _ _ _, ⟨rfl, rfl, rfl⟩, fun _ _ => rfl, Server.open_congr rfl rfl⟩

/-- **A chunk that is not taken** leaves the facts and the doors as they were. -/
theorem ingest_untaken (h : ¬ srv.Takes rq) (inp : Inputs) :
    ∃ srv' out, srv.ingest rq inp = (srv', .done out) ∧ Untaken srv srv' := by
  cases hl : srv.ledger rq.lkey with
  | some r =>
    have h₁ : IngestPc.step rq none inp srv .check =
        ({ srv with counters.duplicates := srv.counters.duplicates + 1 },
          .done (.ingested { r with duplicate := true })) := by
      unfold IngestPc.step
      rw [hl]
    unfold Server.ingest
    rw [Server.ingestFor_succ, h₁]
    exact ⟨_, _, Server.ingestFor_done _ _ _, ⟨rfl, rfl, rfl⟩, fun _ _ => rfl, Server.open_congr rfl rfl⟩
  | none =>
    by_cases ho : srv.Open rq.pid rq.loadId
    · -- the chunk is new and let in, so one of its lines cannot be hashed
      have ha : ¬ rq.lines.all Envelope.hashable = true := fun ha => h ⟨hl, ha, ho⟩
      obtain ⟨item, srv₁, hp, he⟩ := ingest_prepared hl ho inp
      obtain ⟨hits, hd⟩ : ∃ hits, dedupLoop (srv₁.dltIdsSeen (rq.pid, rq.loadId)) rq.lines = (hits, none) := by
        have := dedupLoop_eq (srv₁.dltIdsSeen (rq.pid, rq.loadId)) rq.lines
        rw [if_neg ha] at this
        exact ⟨_, Prod.ext rfl this⟩
      have h₁ : IngestPc.step rq none inp srv₁ (.filter item.updateVersion (srv.nextWriterId rq.pid)) =
          (srv₁.countDedup hits, .release item.updateVersion (.crashed "TypeError('unhashable type')")) := by
        unfold IngestPc.step
        rw [hd]
      rw [he, Server.ingestFor_succ, h₁, Server.ingestFor_succ]
      have hcount : SameFacts srv (srv₁.countDedup hits) := hp.facts.trans ⟨rfl, rfl, rfl⟩
      refine ⟨_, _, Server.ingestFor_done _ _ _, hcount.trans (SameFacts.release _ _ _), fun p r => ?_,
        hp.release ho.1 rfl rfl⟩
      rw [Server.highWater_congr (Server.release_processState _ _ _), ← hp.highWater]
      rfl
    · exact ingest_shut hl ho inp

end

end Matterbeam
