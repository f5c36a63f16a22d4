import Matterbeam.Proof.Reader

/-!
# A reader that tails a recordtype

A polling reader misses nothing as long as ids only go up in commit order, which the clamp is
there for: a batch begins above the high-water mark of its recordtype. The mark is moved after
the commit, by the step that enters the chunk in the ledger, so a request that crashes in
between leaves its segment above the mark.

* `IngestStep.timed`, `TailInv.step`: what each step does to the marks and to the segments that
  they cover.
* `tail_inv`: segments are in order, as long as no clock reading falls back to a segment that a
  crash left above the mark.
* `tailing_reader`: **a tailing reader reads every record once, in commit order.**
-/

namespace Matterbeam

open Function

/-! ## What is above the mark -/

/-- The chunk is sent with a crash between its commit and its ledger write. -/
def CrashesEarly (es : List SysEvent) (rq : IngestRequest) : Prop :=
  ∃ c ∈ [CrashPoint.afterCommitBeforeMark, .afterMarkBeforeLedger], SysEvent.spawn (.ingest rq) (some c) ∈ es

/-- The segments of a pid are below the high-water marks, but for those of crashed chunks. -/
def Covered (es : List SysEvent) (srv : Server) (pid : String) : Prop :=
  ∀ seg ∈ srv.segments, seg.request.pid = pid →
    seg.ms ≤ srv.highWater pid seg.recordtypeId ∨ CrashesEarly es seg.request

/-- The same, but for the segment that the chunk has just committed. -/
def CoveredBut (es : List SysEvent) (srv : Server) (rq : IngestRequest) (ms : ℕ) : Prop :=
  ∀ seg ∈ srv.segments, seg.request.pid = rq.pid →
    (seg.ms ≤ srv.highWater rq.pid seg.recordtypeId ∨ CrashesEarly es seg.request) ∨
      seg.request = rq ∧ seg.recordtypeId = rq.recordtypeId ∧ seg.ms = ms

/-- What is known of a chunk at each point of `ingest`, once it holds its pid. -/
def IngestPc.Timed (es : List SysEvent) (srv : Server) (rq : IngestRequest) : IngestPc → Prop
  | closed _ => Covered es srv rq.pid
  | prepare _ => Covered es srv rq.pid
  | filter _ writerId => Covered es srv rq.pid ∧ writerId < 10 ^ 5
  | «begin» _ b => Covered es srv rq.pid ∧ b.writerId < 10 ^ 5 ∧ b.kept.length ≤ rq.lines.length
  | commit _ b ms => Covered es srv rq.pid ∧ b.writerId < 10 ^ 5 ∧ b.kept.length ≤ rq.lines.length ∧
      (10 ^ 12 ≤ ms ∧ ms < 10 ^ 13) ∧ ∀ seg ∈ segmentsOf srv.segments rq.recordtypeId, seg.ms < ms
  | mark _ _ ms _ => CoveredBut es srv rq ms
  | record _ _ ms _ => CoveredBut es srv rq ms
  | reply _ _ => Covered es srv rq.pid
  | release _ _ => Covered es srv rq.pid
  | _ => True

/-- What is known of a thread. -/
def Thread.Timed (es : List SysEvent) (srv : Server) : Thread → Prop
  | ingest rq crash pc => SysEvent.spawn (.ingest rq) crash ∈ es ∧ pc.Timed es srv rq
  | put pid _ pc => pc.version ≠ none → Covered es srv pid
  | once _ _ => True

/-- What is known of the server: pids are of one length, so that a recordtype has one pid;
segments fit, and are in order in each recordtype; and a pid that is not held is covered. -/
structure TailInv (es : List SysEvent) (srv : Server) : Prop where
  pids : ∀ p, (srv.pids p).isSome → p.length = 27
  segs : ∀ seg ∈ srv.segments, seg.Fits ∧ seg.recordtypeId = seg.request.recordtypeId ∧
    (srv.pids seg.request.pid).isSome
  order : srv.segments.Pairwise fun a b => a.recordtypeId = b.recordtypeId → a.ms < b.ms
  free : ∀ p v, srv.lockOf p = some (v, 1) → Covered es srv p

/-- The reading of the clock is past what crashes have left above the mark of the recordtype, and
the mark is not at the last millisecond of 13 digits. -/
def Clear (es : List SysEvent) (srv : Server) (rq : IngestRequest) (now : ℕ) : Prop :=
  srv.highWater rq.pid rq.recordtypeId + 1 < 10 ^ 13 ∧
    ∀ seg ∈ segmentsOf srv.segments rq.recordtypeId, CrashesEarly es seg.request →
      seg.ms < now ∨ seg.ms ≤ srv.highWater rq.pid rq.recordtypeId

/-- What a step reads: the clock is clear, and the noise and the chunk fit their widths. -/
def Thread.ClockOk (es : List SysEvent) (srv : Server) (inp : Inputs) : Thread → Prop
  | ingest rq _ (.begin _ _) => (10 ^ 12 ≤ inp.now ∧ inp.now < 10 ^ 13) ∧ Clear es srv rq inp.now
  | ingest rq _ (.commit _ _ _) => inp.noise < 10 ^ 10 ∧ rq.lines.length < 10 ^ 10
  | _ => True

section

variable {es : List SysEvent} {srv srv' : Server} {rq : IngestRequest} {crash : Option CrashPoint} {inp : Inputs}
  {pc pc' : IngestPc}

/-- The table of a recordtype of a pid of the usual length is what follows the pid. -/
theorem recordtypeId_inj {rq rq' : IngestRequest} (hlen : rq.pid.length = rq'.pid.length)
    (h : rq.recordtypeId = rq'.recordtypeId) : rq.pid = rq'.pid := by
  have h := congrArg String.toList h
  unfold IngestRequest.recordtypeId at h
  rw [String.toList_append, String.toList_append, String.toList_append, String.toList_append, List.append_assoc,
    List.append_assoc] at h
  exact String.toList_inj.1 (List.append_inj h (by rwa [String.length_toList, String.length_toList])).1

/-- Nothing happened to the pid: no segment of it is new, and its marks are the same. -/
structure Elsewhere (pid : String) (srv srv' : Server) : Prop where
  segments : ∀ seg ∈ srv'.segments, seg.request.pid = pid → seg ∈ srv.segments
  recordtypes : ∀ rq : IngestRequest, rq.pid = pid → ∀ seg ∈ srv'.segments,
    seg.recordtypeId = rq.recordtypeId → seg ∈ srv.segments
  marks : ∀ r, srv'.highWater pid r = srv.highWater pid r

theorem Elsewhere.of_eq {pid : String} (hs : srv'.segments = srv.segments)
    (hw : ∀ r, srv'.highWater pid r = srv.highWater pid r) : Elsewhere pid srv srv' :=
  ⟨fun _ hseg _ => hs ▸ hseg, fun _ _ _ hseg _ => hs ▸ hseg, hw⟩

theorem Covered.frame {pid : String} (h : Covered es srv pid) (he : Elsewhere pid srv srv') : Covered es srv' pid := by
  intro seg hseg hp
  rw [he.marks]
  exact h seg (he.segments seg hseg hp) hp

theorem CoveredBut.frame {ms : ℕ} (h : CoveredBut es srv rq ms) (he : Elsewhere rq.pid srv srv') :
    CoveredBut es srv' rq ms := by
  intro seg hseg hp
  rw [he.marks]
  exact h seg (he.segments seg hseg hp) hp

/-- What is known of a chunk stays so while nothing happens to its pid. -/
theorem IngestPc.Timed.frame (h : pc.Timed es srv rq) (he : Elsewhere rq.pid srv srv') : pc.Timed es srv' rq := by
  cases pc with
  | check => trivial
  | claim => trivial
  | closed v => exact Covered.frame h he
  | prepare v => exact Covered.frame h he
  | filter v w => exact ⟨h.1.frame he, h.2⟩
  | «begin» v b => exact ⟨h.1.frame he, h.2⟩
  | commit v b ms =>
    obtain ⟨hcov, hw, hkept, hclock, hlast⟩ := h
    refine ⟨hcov.frame he, hw, hkept, hclock, fun seg hseg => ?_⟩
    obtain ⟨hm, hr⟩ := List.mem_filter.1 hseg
    exact hlast seg (List.mem_filter.2 ⟨he.recordtypes rq rfl seg hm (of_decide_eq_true hr), hr⟩)
  | mark v b ms seg => exact CoveredBut.frame h he
  | record v b ms seg => exact CoveredBut.frame h he
  | reply v r => exact Covered.frame h he
  | release v out => exact Covered.frame h he
  | done out => trivial

/-- A step of `ingest` leaves the marks of other pids, and but for the commit all segments. -/
inductive MarkStep (rq : IngestRequest) (srv srv' : Server) : IngestPc → Prop
  | quiet {pc : IngestPc} (hs : srv'.segments = srv.segments) (hw : ∀ p r, srv'.highWater p r = srv.highWater p r) :
      MarkStep rq srv srv' pc
  | commit {v ms noise : ℕ} {b : Batch} (hb : b.kept ≠ [])
      (h : srv' = srv.addSegment (writeSegment rq.recordtypeId (b.records rq) ms b.writerId noise rq)) :
      MarkStep rq srv srv' (.commit v b ms)
  | record {v ms : ℕ} {b : Batch} {seg : Option Segment}
      (h : srv' = (srv.advance rq.pid rq.recordtypeId ms seg).addLedger rq.lkey (b.result seg)) :
      MarkStep rq srv srv' (.record v b ms seg)

theorem IngestStep.marks (h : IngestStep rq crash inp srv pc srv' pc') : MarkStep rq srv srv' pc := by
  cases h with
  | committed hb => exact .commit hb rfl
  | recorded => exact .record rfl
  | prepared =>
    refine .quiet ?_ fun p r => ?_
    · exact ((SameFacts.allocWriterId srv rq.pid).trans (SameFacts.trackJobArrival _ _ _ _)).segments
    · rw [Server.highWater_trackJobArrival]
      unfold Server.allocWriterId
      split <;> rfl
  | released =>
    exact .quiet (SameFacts.release srv _ _).segments (Server.highWater_congr (Server.release_processState srv _ _))
  | _ => exact .quiet rfl fun _ _ => rfl

/-- A state write leaves all marks. -/
theorem PutStep.highWater {pid : String} {doc : Row} {pc pc' : PutPc} (h : PutStep pid doc srv pc srv' pc')
    (p r : String) : srv'.highWater p r = srv.highWater p r := by
  cases h with
  | written =>
    unfold Server.highWater Server.rtState Server.setDltState
    by_cases hp : p = pid
    · subst hp; simp
    · simp [hp]
  | released => exact Server.highWater_congr (Server.release_processState _ _ _) _ _
  | _ => rfl

/-- A chunk that crashes may leave its segment above the mark. -/
theorem CoveredBut.crashed {ms : ℕ} (h : CoveredBut es srv rq ms) (hc : CrashesEarly es rq) :
    Covered es srv rq.pid := by
  intro seg hseg hp
  rcases h seg hseg hp with h | ⟨he, -, -⟩
  · exact h
  · rw [he]
    exact Or.inr hc

/-- A chunk that is entered moves the mark above its segment. -/
theorem CoveredBut.advanced {ms : ℕ} (h : CoveredBut es srv rq ms) (hs : srv'.segments = srv.segments)
    (hw : ∀ r, srv'.highWater rq.pid r =
      if r = rq.recordtypeId then max (srv.highWater rq.pid rq.recordtypeId) ms else srv.highWater rq.pid r) :
    Covered es srv' rq.pid := by
  intro seg hseg hp
  rw [hs] at hseg
  rw [hw]
  rcases h seg hseg hp with (hle | hc) | ⟨-, hr, hm⟩
  · left
    split
    · rename_i hr
      rw [hr] at hle
      omega
    · exact hle
  · exact Or.inr hc
  · left
    rw [if_pos hr]
    omega

/-- The segments of the recordtype are those of the pid. -/
theorem TailInv.request_pid (hG : TailInv es srv) (hp : (srv.pids rq.pid).isSome) {seg : Segment}
    (hseg : seg ∈ segmentsOf srv.segments rq.recordtypeId) :
    seg ∈ srv.segments ∧ seg.request.pid = rq.pid ∧ seg.recordtypeId = rq.recordtypeId := by
  obtain ⟨hm, hr⟩ := List.mem_filter.1 hseg
  have hr : seg.recordtypeId = rq.recordtypeId := of_decide_eq_true hr
  obtain ⟨-, hrt, hsome⟩ := hG.segs seg hm
  refine ⟨hm, recordtypeId_inj ?_ (hrt.symm.trans hr), hr⟩
  rw [hG.pids _ hsome, hG.pids _ hp]

/-- A pid that is held is registered. -/
theorem Holds.isSome {th : Thread} {p : String} {v : ℕ} (h : Holds srv th) (hv : th.held = some (p, v)) :
    (srv.pids p).isSome := by
  obtain ⟨item, hi, -⟩ := Option.map_eq_some_iff.1 (h p v hv)
  rw [hi]
  rfl

/-- **What a step of a chunk makes of what is known of it.** -/
theorem IngestStep.timed (h : IngestStep rq crash inp srv pc srv' pc') (hspawn : SysEvent.spawn (.ingest rq) crash ∈ es)
    (hlock : Holds srv (.ingest rq crash pc)) (hG : TailInv es srv) (ht : pc.Timed es srv rq)
    (hE : (Thread.ingest rq crash pc).ClockOk es srv inp) : pc'.Timed es srv' rq := by
  cases h with
  | hit => trivial
  | miss => trivial
  | refused => trivial
  | @claimed item hi hf hs =>
    -- the semaphore was up, so nobody held the pid and it was covered
    have hfree : srv.lockOf rq.pid = some (item.updateVersion, 1) := by
      unfold Server.lockOf
      rw [hi, Option.map_some, hs]
    exact (hG.free _ _ hfree).frame (.of_eq rfl fun _ => rfl)
  | late => exact ht
  | opened => exact ht
  | @prepared v =>
    have hstep : IngestStep rq crash inp srv (.prepare v) _ _ := .prepared
    have hm := hstep.marks
    refine ⟨?_, ?_⟩
    · cases hm with
      | quiet hs hw => exact Covered.frame ht (.of_eq hs fun r => hw _ r)
    · unfold Server.nextWriterId
      split <;> omega
  | unhashable => exact ht.1.frame (.of_eq rfl fun _ => rfl)
  | filtered => exact ⟨ht.1.frame (.of_eq rfl fun _ => rfl), ht.2, List.length_filter_le _ _⟩
  | begun =>
    obtain ⟨hcov, hw, hkept⟩ := ht
    obtain ⟨⟨hge, hlt⟩, hhigh, hclear⟩ := hE
    -- above the mark by the clamp, and above what is not under the mark because the reading is clear
    have hms := Server.beginMs_eq srv rq.pid rq.recordtypeId inp.now
    refine ⟨hcov, hw, hkept, ⟨by omega, by omega⟩, fun seg hseg => ?_⟩
    obtain ⟨hm, hp, hr⟩ := hG.request_pid (hlock.isSome rfl) hseg
    rcases hcov seg hm hp with hle | hc
    · rw [hr] at hle
      omega
    · rcases hclear seg hseg hc with hnow | hle <;> omega
  | empty => exact fun seg hseg hp => Or.inl (ht.1 seg hseg hp)
  | committed hb =>
    obtain ⟨hcov, hw, hkept, hclock, -⟩ := ht
    intro seg hseg hp
    rcases List.mem_append.1 hseg with hseg | hseg
    · exact Or.inl (hcov seg hseg hp)
    · -- the new segment is the exception that `CoveredBut` allows
      obtain rfl := List.mem_singleton.1 hseg
      have hsize := hE.2
      exact Or.inr ⟨rfl, rfl, (Batch.segment_fits _ hb (by omega) hclock hw hE.1).2⟩
  | crashMark hc => exact CoveredBut.crashed ht ⟨.afterCommitBeforeMark, by simp, hc ▸ hspawn⟩
  | marked => exact ht
  | crashRecord hc => exact CoveredBut.crashed ht ⟨.afterMarkBeforeLedger, by simp, hc ▸ hspawn⟩
  | recorded =>
    refine CoveredBut.advanced ht rfl fun r => (Server.highWater_advance srv _ _ _ _ _ _).trans ?_
    simp
  | crashReply => exact ht
  | replied => exact ht
  | released => trivial
  | ended => trivial

/-- **A step of a thread does nothing to the pids it does not hold.** -/
theorem Thread.step_elsewhere (P : Runtime) {th : Thread} (hlock : Holds srv th) (hG : TailInv es srv) {pid : String}
    (hp : (srv.pids pid).isSome) (hne : ∀ v, th.held ≠ some (pid, v)) : Elsewhere pid srv (th.step P inp srv).1 := by
  cases th with
  | ingest rq crash pc =>
    have hm := (IngestPc.step_spec rq crash inp srv pc).marks
    change Elsewhere pid srv (pc.step rq crash inp srv).1
    generalize (pc.step rq crash inp srv).1 = srv' at *
    cases hm with
    | quiet hs hw => exact .of_eq hs (hw pid)
    | @commit v ms noise b hb he =>
      have hrq : rq.pid ≠ pid := fun h => hne v (by rw [← h]; rfl)
      have hsome : (srv.pids rq.pid).isSome := hlock.isSome rfl
      subst he
      refine ⟨fun seg hseg hsp => ?_, fun rq' hp' seg hseg hr => ?_, fun _ => rfl⟩
      · rcases List.mem_append.1 hseg with hseg | hseg
        · exact hseg
        · obtain rfl := List.mem_singleton.1 hseg
          exact absurd hsp hrq
      · rcases List.mem_append.1 hseg with hseg | hseg
        · exact hseg
        · obtain rfl := List.mem_singleton.1 hseg
          -- two pids of one length have no recordtype in common
          refine absurd ((recordtypeId_inj ?_ hr).trans hp') hrq
          rw [hp', hG.pids _ hsome, hG.pids _ hp]
    | @record v ms b seg he =>
      -- only the mark of the pid that is held moves
      have hrq : pid ≠ rq.pid := fun h => hne v (by rw [h]; rfl)
      subst he
      refine .of_eq rfl fun r => (Server.highWater_advance srv _ _ _ _ _ _).trans ?_
      rw [if_neg fun h => hrq h.1]
  | put p doc pc =>
    have hstep := PutPc.step_spec p doc srv pc
    exact .of_eq hstep.facts.segments fun r => hstep.highWater pid r
  | once rq answer => cases answer with
    | none =>
      have hstep := onceStep_spec P inp srv rq
      refine .of_eq hstep.facts.segments fun r => ?_
      change (onceStep P inp srv rq).1.highWater pid r = _
      generalize (onceStep P inp srv rq).1 = srv' at *
      generalize (onceStep P inp srv rq).2 = answer at *
      cases hstep <;> rfl
    | some a => exact .of_eq rfl fun _ => rfl

/-- A thread that gives its pid back leaves it covered. -/
theorem Thread.Timed.released (P : Runtime) {th : Thread} (ht : th.Timed es srv) {p : String} {v : ℕ}
    (hv : th.held = some (p, v)) (hv' : (th.step P inp srv).2.held = none) :
    Covered es (th.step P inp srv).1 p := by
  cases th with
  | ingest rq crash pc =>
    have hstep := IngestPc.step_spec rq crash inp srv pc
    have hcov := ht.2
    change Covered es (pc.step rq crash inp srv).1 p
    change ((pc.step rq crash inp srv).2.version.map fun v => (rq.pid, v)) = none at hv'
    generalize (pc.step rq crash inp srv).1 = srv' at *
    generalize (pc.step rq crash inp srv).2 = pc' at *
    obtain ⟨w, hw, he⟩ := Option.map_eq_some_iff.1 hv
    obtain rfl : rq.pid = p := congrArg Prod.fst he
    cases hstep with
    -- no other step lowers the version that is held
    | released => exact Covered.frame hcov (.of_eq (SameFacts.release srv _ _).segments
        (Server.highWater_congr (Server.release_processState srv _ _) _))
    | _ => simp [IngestPc.version] at hw hv'
  | put pid doc pc =>
    have hstep := PutPc.step_spec pid doc srv pc
    change Covered es (pc.step pid doc srv).1 p
    change ((pc.step pid doc srv).2.version.map fun v => (pid, v)) = none at hv'
    generalize (pc.step pid doc srv).1 = srv' at *
    generalize (pc.step pid doc srv).2 = pc' at *
    obtain ⟨w, hw, he⟩ := Option.map_eq_some_iff.1 hv
    obtain rfl : pid = p := congrArg Prod.fst he
    have hcov := ht (by rw [hw]; simp)
    cases hstep with
    | released => exact Covered.frame hcov (.of_eq (SameFacts.release srv _ _).segments
        (Server.highWater_congr (Server.release_processState srv _ _) _))
    | _ => simp [PutPc.version] at hw hv'
  | once rq answer => cases hv

/-- A pid that is free after a step of a thread that did not hold it was free before. -/
theorem LockStep.free {held held' : Option (String × ℕ)} (h : LockStep srv srv' held held')
    (hb : ∀ q v, held = some (q, v) → srv.lockOf q = some (v, 0)) {p : String} (hne : ∀ v, held ≠ some (p, v))
    (hp : (srv.pids p).isSome) {v : ℕ} (hfree : srv'.lockOf p = some (v, 1)) : srv.lockOf p = some (v, 1) := by
  cases h with
  | keep hkeep =>
    rcases hkeep p with he | ⟨hn, -⟩
    · rw [← he]; exact hfree
    · unfold Server.lockOf at hn
      rw [Option.map_eq_none_iff] at hn
      rw [hn] at hp
      cases hp
  | @claim q w h₀ h₁ =>
    rw [h₁] at hfree
    split at hfree
    · cases hfree
    · exact hfree
  | @release q w h₁ =>
    have hq : p ≠ q := fun h => hne w (by rw [h])
    rw [h₁ 0 (hb q w rfl), if_neg hq] at hfree
    exact hfree

/-- **The server's invariant is kept by every step.** -/
theorem TailInv.step (P : Runtime) {th : Thread} (hG : TailInv es srv) (hlock : Holds srv th) (ht : th.Timed es srv)
    (hE : th.ClockOk es srv inp) : TailInv es (th.step P inp srv).1 := by
  have hkept : ∀ p, (srv.pids p).isSome → ((th.step P inp srv).1.pids p).isSome := fun p hp => by
    rcases Thread.step_isSome P inp srv th p with he | ⟨-, he⟩
    · rw [he]; exact hp
    · exact he
  have hsegs := Thread.step_commit P inp srv th
  -- a new segment is of a pid that the thread holds
  have hnew : ∀ seg ∈ (th.step P inp srv).1.segments, seg ∈ srv.segments ∨ ∃ v, th.held = some (seg.request.pid, v) := by
    intro seg hseg
    rcases hsegs with he | ⟨rq, crash, v, b, ms, noise, rfl, -, -, he⟩
    · rw [he] at hseg
      exact Or.inl hseg
    · rw [he] at hseg
      rcases List.mem_append.1 hseg with hseg | hseg
      · exact Or.inl hseg
      · obtain rfl := List.mem_singleton.1 hseg
        exact Or.inr ⟨v, rfl⟩
  refine ⟨fun p hp => ?_, fun seg hseg => ?_, ?_, fun p v hfree => ?_⟩
  · rcases Thread.step_isSome P inp srv th p with he | ⟨hlen, -⟩
    · exact hG.pids p (he ▸ hp)
    · exact hlen
  · rcases hsegs with he | ⟨rq, crash, v, b, ms, noise, rfl, hb, rfl, he⟩
    · rw [he] at hseg
      obtain ⟨hfits, hr, hsome⟩ := hG.segs seg hseg
      exact ⟨hfits, hr, hkept _ hsome⟩
    · rw [he] at hseg
      rcases List.mem_append.1 hseg with hseg | hseg
      · obtain ⟨hfits, hr, hsome⟩ := hG.segs seg hseg
        exact ⟨hfits, hr, hkept _ hsome⟩
      · obtain rfl := List.mem_singleton.1 hseg
        obtain ⟨-, -, hw, hle, hclock, -⟩ := ht
        have hsize := hE.2
        exact ⟨(b.segment_fits hb (by omega) hclock hw hE.1).1, rfl, hkept _ (hlock.isSome rfl)⟩
  · rcases hsegs with he | ⟨rq, crash, v, b, ms, noise, rfl, hb, rfl, he⟩
    · rw [he]
      exact hG.order
    · rw [he]
      refine List.pairwise_append.2 ⟨hG.order, List.pairwise_singleton _ _, fun x hx y hy hxy => ?_⟩
      obtain rfl := List.mem_singleton.1 hy
      obtain ⟨-, -, hw, hle, hclock, hlast⟩ := ht
      have hsize := hE.2
      -- the batch began above all segments of its recordtype
      rw [(b.segment_fits hb (by omega) hclock hw hE.1).2]
      exact hlast x (List.mem_filter.2 ⟨hx, decide_eq_true hxy⟩)
  · have hstep := Thread.step_lock P inp srv th
    by_cases hheld : ∃ v', th.held = some (p, v')
    · obtain ⟨v', hv'⟩ := hheld
      cases hafter : (th.step P inp srv).2.held with
      | none => exact ht.released P hv' hafter
      | some q =>
        -- the pid is still held, so its semaphore is not up
        rw [hv', hafter] at hstep
        cases hstep with
        | keep hkeep =>
          rcases hkeep p with he | ⟨hn, -⟩
          · rw [he, hlock p v' hv'] at hfree
            cases hfree
          · rw [hlock p v' hv'] at hn
            cases hn
    · by_cases hp : (srv.pids p).isSome
      · have hne : ∀ v', th.held ≠ some (p, v') := fun v' hv' => hheld ⟨v', hv'⟩
        exact (hG.free p v (hstep.free hlock hne hp hfree)).frame (Thread.step_elsewhere P hlock hG hp hne)
      · -- a pid that is not registered has no segments at all
        intro seg hseg hsp
        rcases hnew seg hseg with hold | ⟨v', hv'⟩
        · exact absurd (hsp ▸ (hG.segs seg hold).2.2) hp
        · exact absurd ⟨v', hsp ▸ hv'⟩ hheld

end

/-! ## The reader of a run -/

section

variable {P : Runtime} {es : List SysEvent}

theorem Elsewhere.pause (srv : Server) (pid p : String) : Elsewhere p srv (srv.pause pid) :=
  .of_eq (SameFacts.pause srv pid).segments fun _ => by
    unfold Server.pause
    split <;> rfl

theorem TailInv.pause {srv : Server} (hG : TailInv es srv) (pid : String) : TailInv es (srv.pause pid) := by
  have hs := (SameFacts.pause srv pid).segments
  refine ⟨fun p hp => hG.pids p (by rwa [Server.isSome_pause] at hp), fun seg hseg => ?_, by rw [hs]; exact hG.order,
    fun p v hv => ?_⟩
  · rw [hs] at hseg
    rw [Server.isSome_pause]
    exact hG.segs seg hseg
  · rw [Server.lockOf_pause] at hv
    exact (hG.free p v hv).frame (.pause srv pid p)

theorem Thread.Timed.frame {srv srv' : Server} {th : Thread} (h : th.Timed es srv)
    (he : ∀ p v, th.held = some (p, v) → Elsewhere p srv srv') : th.Timed es srv' := by
  cases th with
  | ingest rq crash pc =>
    refine ⟨h.1, ?_⟩
    cases hv : pc.version with
    | none => cases pc <;> trivial
    | some v => exact h.2.frame (he rq.pid v (by simp [held, hv]))
  | put pid doc pc =>
    intro hne
    obtain ⟨v, hv⟩ := Option.ne_none_iff_exists'.1 hne
    exact (h hne).frame (he pid v (by simp [held, hv]))
  | once rq answer => trivial

/-- What is known of a thread after its own step. -/
theorem Thread.Timed.step {srv : Server} {th : Thread} {inp : Inputs} (h : th.Timed es srv) (hlock : Holds srv th)
    (hG : TailInv es srv) (hE : th.ClockOk es srv inp) : (th.step P inp srv).2.Timed es (th.step P inp srv).1 := by
  cases th with
  | ingest rq crash pc => exact ⟨h.1, (IngestPc.step_spec rq crash inp srv pc).timed h.1 hlock hG h.2 hE⟩
  | put pid doc pc =>
    have hstep := PutPc.step_spec pid doc srv pc
    change (pc.step pid doc srv).2.version ≠ none → Covered es (pc.step pid doc srv).1 pid
    intro hne
    have hcov : Covered es srv pid := by
      generalize (pc.step pid doc srv).1 = srv' at *
      generalize (pc.step pid doc srv).2 = pc' at *
      cases hstep with
      | @claimed item hi hf hs => exact hG.free pid item.updateVersion (by simp [Server.lockOf, hi, hs])
      | stale => exact h (by simp [PutPc.version])
      | newer => exact h (by simp [PutPc.version])
      | raised => exact h (by simp [PutPc.version])
      | written => exact h (by simp [PutPc.version])
      | refused => simp [PutPc.version] at hne
      | released => simp [PutPc.version] at hne
      | ended => simp [PutPc.version] at hne
    exact hcov.frame (.of_eq hstep.facts.segments fun r => hstep.highWater pid r)
  | once rq answer => cases answer <;> trivial

/-- The readings of the clock have 13 digits, and the noise has at most 10. -/
def ReadingsFit (es : List SysEvent) : Prop :=
  ∀ t inp, SysEvent.tick t inp ∈ es → (10 ^ 12 ≤ inp.now ∧ inp.now < 10 ^ 13) ∧ inp.noise < 10 ^ 10

/-- The chunks that arrive have fewer than `10 ^ 10` lines. -/
def ChunksFit (es : List SysEvent) : Prop := ∀ rq, Arrives es (.ingest rq) → rq.lines.length < 10 ^ 10

/-- The chunk that reads the clock for its batch in its next step. -/
def Thread.beginning : Thread → Option IngestRequest
  | ingest rq _ (.begin _ _) => some rq
  | _ => none

/-- If the event is a chunk reading the clock for its batch, the reading is clear. -/
def ClearAt (es : List SysEvent) (s : Sys) : SysEvent → Prop
  | .tick t inp => ∀ rq ∈ s.threads[t]?.bind Thread.beginning, Clear es s.srv rq inp.now
  | _ => True

instance (es : List SysEvent) (srv : Server) (rq : IngestRequest) (now : ℕ) : Decidable (Clear es srv rq now) :=
  inferInstanceAs (Decidable (_ ∧ ∀ seg ∈ _, (∃ c ∈ _, _ ∈ es) → _ ∨ _))

instance (es : List SysEvent) (s : Sys) : (e : SysEvent) → Decidable (ClearAt es s e)
  | .tick t inp => inferInstanceAs (Decidable (∀ rq ∈ s.threads[t]?.bind Thread.beginning, Clear es s.srv rq inp.now))
  | .spawn _ _ => .isTrue trivial
  | .pause _ => .isTrue trivial

/-- **The invariant of a run** whose readings are all clear. -/
theorem tail_inv (hread : ReadingsFit es) (hchunks : ChunksFit es)
    (hclear : ∀ n (hn : n < es.length), ClearAt es (sAt P es n) es[n]) (n : ℕ) : TailInv es (sAt P es n).srv := by
  -- a thread of the run reads what the events give it
  have hE : ∀ n t inp th, es[n]? = some (.tick t inp) → (sAt P es n).threads[t]? = some th →
      th.ClockOk es (sAt P es n).srv inp := by
    intro n t inp th he ht
    obtain ⟨hn, hev⟩ := List.getElem?_eq_some_iff.1 he
    obtain ⟨hnow, hnoise⟩ := hread t inp (List.mem_of_getElem? he)
    have hc := hclear n hn
    have harr := arrives_of_thread ht
    rw [hev] at hc
    simp only [ClearAt, ht, Option.bind_some] at hc
    cases th with
    | ingest rq crash pc =>
      cases pc with
      | «begin» v b => exact ⟨hnow, hc rq rfl⟩
      | commit v b ms => exact ⟨hnoise, hchunks rq harr⟩
      | _ => trivial
    | _ => trivial
  refine (thread_rule_when (G := TailInv es) (I := Thread.Timed es)
    (E := fun srv th inp => th.ClockOk es srv inp) hE ?_ ?_ ?_ ?_ n).1
  · exact ⟨by simp, by simp, List.Pairwise.nil, fun p v h => by simp [Server.lockOf] at h⟩
  · exact fun srv pid hG => ⟨hG.pause pid, fun th hth => hth.frame fun p v _ => .pause srv pid p⟩
  · intro srv rq crash hspawn hG
    cases rq with
    | ingest rq => exact ⟨hspawn, trivial⟩
    | putState pid doc => exact fun h => absurd rfl h
    | _ => trivial
  · intro srv th inp hE hlock hG ht
    refine ⟨hG.step P hlock ht hE, ht.step hlock hG hE, fun th' hap hlock' ht' => ht'.frame fun p v hv => ?_⟩
    exact Thread.step_elsewhere P hlock hG (hlock'.isSome hv) fun v' hv' => hap p v' v hv' hv

theorem TailInv.inOrder {srv : Server} (hG : TailInv es srv) (recordtypeId : String) :
    InOrder (segmentsOf srv.segments recordtypeId) := by
  refine ⟨fun s hs => (hG.segs s (List.mem_filter.1 hs).1).1, ?_⟩
  have horder : (segmentsOf srv.segments recordtypeId).Pairwise fun a b =>
      a.recordtypeId = b.recordtypeId → a.ms < b.ms := hG.order.sublist List.filter_sublist
  refine horder.imp_of_mem fun {a b} ha hb hab => hab ?_
  have hra : a.recordtypeId = recordtypeId := of_decide_eq_true (List.mem_filter.1 ha).2
  have hrb : b.recordtypeId = recordtypeId := of_decide_eq_true (List.mem_filter.1 hb).2
  rw [hra, hrb]

/-- **A tailing reader reads every record once, in commit order**, as long as no reading of the
clock falls back to what a crash left above the mark: the last ids go up, as numbers and as
strings, and polling the store of a run, at whatever moments, reads the records there are. -/
theorem tailing_reader (P : Runtime) (es : List SysEvent) (hread : ReadingsFit es) (hchunks : ChunksFit es)
    (hclear : ∀ n (hn : n < es.length), ClearAt es (sAt P es n) es[n]) (recordtypeId : String) :
    (∀ n, (segmentsOf (sAt P es n).srv.segments recordtypeId).Pairwise fun a b =>
      a.lastId < b.lastId ∧ a.lastId.repr < b.lastId.repr) ∧
    ∀ moments n, (moments ++ [n]).Pairwise (· ≤ ·) →
      (tail recordtypeId ((moments ++ [n]).map fun m => (sAt P es m).srv.segments)).facts.map Prod.snd =
        recordsIn (sAt P es n).srv.segments recordtypeId := by
  have hinv := fun n => (tail_inv (P := P) hread hchunks hclear n).inOrder recordtypeId
  refine ⟨fun n => (hinv n).order.imp_of_mem fun ha hb hab => ?_, fun moments n hsorted => ?_⟩
  · have hfa := (hinv n).fits _ ha
    have hfb := (hinv n).fits _ hb
    exact ⟨hfa.lt hfb hab, (hfa.below hfb hab).lt.1⟩
  · rw [List.map_append, List.map_singleton]
    -- what the reader is shown grows, since segments are only added
    have hgrow : ((moments.map fun m => (sAt P es m).srv.segments) ++ [(sAt P es n).srv.segments]).Pairwise
        fun a b => segmentsOf a recordtypeId <+: segmentsOf b recordtypeId := by
      rw [← List.map_singleton (f := fun m => (sAt P es m).srv.segments), ← List.map_append, List.pairwise_map]
      exact hsorted.imp fun hle => (segments_grow hle).filter _
    have hall : ∀ s ∈ (moments.map fun m => (sAt P es m).srv.segments) ++ [(sAt P es n).srv.segments],
        InOrder (segmentsOf s recordtypeId) := by
      intro s hs
      rcases List.mem_append.1 hs with hs | hs
      · obtain ⟨m, -, rfl⟩ := List.mem_map.1 hs
        exact hinv m
      · rw [List.mem_singleton.1 hs]
        exact hinv n
    rw [(tail_eq hgrow hall).2, List.map_flatMap]
    unfold recordsIn
    exact List.flatMap_congr fun seg hs => List.map_snd_zip ((hinv n).fits seg hs).length_ids.ge

end

/-! ### Readings that fall back -/

/-- A chunk of one line. -/
def tailChunk (seq : String) (i : ℤ) : IngestRequest where
  pid := "0123456789abcdefghijklmnopq"
  table := "orders"
  loadId := "1.0"
  jobId := "orders.a.jsonl"
  seq := seq
  lines := [⟨Dict.ofEntries [("id", .int i)], none, some (.str i.repr)⟩]

/-- A reading of the clock. -/
def clockAt (now : ℕ) : Inputs := ⟨now, "2023-11-14T22:13:20+00:00", 7, "0123456789abcdefghijklmnopq"⟩

/-- A pid is registered; a chunk crashes right after its commit; then another chunk is sent, and
reads the clock at `now`. -/
def crashedRun (now : ℕ) : List SysEvent :=
  [.spawn (.register "shop" "shop") none, .tick 0 (clockAt 1700000000000),
    .spawn (.ingest (tailChunk "0" 1)) (some .afterCommitBeforeMark)] ++
    List.replicate 9 (.tick 1 (clockAt 1700000000000)) ++
    [.spawn (.ingest (tailChunk "1" 2)) none] ++ List.replicate 11 (.tick 2 (clockAt now))

theorem readingsFit_crashedRun {now : ℕ} (h : 10 ^ 12 ≤ now ∧ now < 10 ^ 13) : ReadingsFit (crashedRun now) := by
  intro t inp he
  unfold crashedRun at he
  simp only [List.mem_append, List.mem_cons, List.mem_replicate, reduceCtorEq, SysEvent.tick.injEq, List.not_mem_nil,
    false_or, or_false] at he
  rcases he with (⟨-, rfl⟩ | ⟨-, -, rfl⟩) | ⟨-, -, rfl⟩
  · exact ⟨by decide, by decide⟩
  · exact ⟨by decide, by decide⟩
  · exact ⟨h, show 7 < 10 ^ 10 by decide⟩

theorem chunksFit_crashedRun (now : ℕ) : ChunksFit (crashedRun now) := by
  have hin : ingests (crashedRun now) = [tailChunk "0" 1, tailChunk "1" 2] := rfl
  intro rq ha
  rw [arrives_ingest, hin] at ha
  revert rq
  decide

/-- The clock has moved on: the second chunk is committed above the first, and read. -/
theorem tailing_reader_crashed :
    (segmentsOf (sAt .plain (crashedRun 1700000000001) 24).srv.segments (tailChunk "0" 1).recordtypeId).Pairwise
      (fun a b => a.lastId < b.lastId ∧ a.lastId.repr < b.lastId.repr) ∧
    (tail (tailChunk "0" 1).recordtypeId (([12] ++ [24]).map fun m =>
        (sAt .plain (crashedRun 1700000000001) m).srv.segments)).facts.map Prod.snd =
      recordsIn (sAt .plain (crashedRun 1700000000001) 24).srv.segments (tailChunk "0" 1).recordtypeId := by
  obtain ⟨horder, htail⟩ := tailing_reader .plain (crashedRun 1700000000001) (readingsFit_crashedRun (by decide))
    (chunksFit_crashedRun _) (by decide) (tailChunk "0" 1).recordtypeId
  exact ⟨horder 24, htail [12] 24 (by decide)⟩

/-- **The clock goes back after a crash**: the second chunk is committed below the first, and a
reader that has polled in between never reads it. -/
theorem skipped_segment : ReadingsFit (crashedRun 1600000000000) ∧ ChunksFit (crashedRun 1600000000000) ∧
    ¬ ((segmentsOf (sAt .plain (crashedRun 1600000000000) 24).srv.segments
        (tailChunk "0" 1).recordtypeId).Pairwise fun a b => a.lastId < b.lastId) ∧
    (tail (tailChunk "0" 1).recordtypeId ([12, 24].map fun m =>
        (sAt .plain (crashedRun 1600000000000) m).srv.segments)).facts.length = 1 ∧
    (recordsIn (sAt .plain (crashedRun 1600000000000) 24).srv.segments (tailChunk "0" 1).recordtypeId).length = 2 := by
  refine ⟨readingsFit_crashedRun (by decide), chunksFit_crashedRun _, by decide, by decide, by decide⟩

end Matterbeam
