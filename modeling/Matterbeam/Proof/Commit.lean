import Matterbeam.Proof.Lock

/-!
# Acknowledged means committed

Three records of progress are kept for a chunk: its segment, the marks of its ids and
its ledger entry, in that order. An id is marked and a chunk is entered in the ledger
only when the rows are already in segments, whatever interleaves and wherever a request
crashes, so an acknowledgement speaks for rows that have landed.

* `lkey_inj`: ledger keys tell chunks apart, if ids have no bar in them.
* `commit_inv`: marked ids and entered chunks are committed, and a thread past its commit
  has all its rows committed.
* `committed_of_acked`: **a chunk that was answered with a success is committed.**
-/

namespace Matterbeam

/-! ## What steps do to the records of progress -/

/-- The segments, the ledger and the marked ids are the same. -/
structure SameFacts (srv srv' : Server) : Prop where
  segments : srv'.segments = srv.segments
  ledger : srv'.ledger = srv.ledger
  seen : srv'.dltIdsSeen = srv.dltIdsSeen

namespace SameFacts

variable (srv : Server)

theorem trackJobArrival (pid recordtypeId jobId : String) :
    SameFacts srv (srv.trackJobArrival pid recordtypeId jobId) := by
  unfold Server.trackJobArrival
  dsimp only
  split
  · exact ⟨rfl, rfl, rfl⟩
  · split <;> exact ⟨rfl, rfl, rfl⟩

theorem allocWriterId (pid : String) : SameFacts srv (srv.allocWriterId pid) := by
  unfold Server.allocWriterId
  split <;> exact ⟨rfl, rfl, rfl⟩

theorem release (pid : String) (v : ℕ) : SameFacts srv (srv.release pid v) := by
  rcases srv.release_cases pid v with ⟨item, -, -, he⟩ | ⟨-, he⟩ <;> rw [he] <;> exact ⟨rfl, rfl, rfl⟩

theorem pause (pid : String) : SameFacts srv (srv.pause pid) := by
  unfold Server.pause
  split <;> exact ⟨rfl, rfl, rfl⟩

theorem trans {srv srv' srv'' : Server} (h : SameFacts srv srv') (h' : SameFacts srv' srv'') :
    SameFacts srv srv'' :=
  ⟨h'.segments.trans h.segments, h'.ledger.trans h.ledger, h'.seen.trans h.seen⟩

theorem grow {srv srv' : Server} (h : SameFacts srv srv') : srv.segments <+: srv'.segments := by
  exact h.segments ▸ List.prefix_rfl

end SameFacts

/-- The steps of `ingest` that write facts: the commit, the mark and the ledger write. -/
inductive FactStep (rq : IngestRequest) (srv : Server) : IngestPc → Server → IngestPc → Prop
  | same {pc pc' : IngestPc} {srv' : Server} (h : SameFacts srv srv') : FactStep rq srv pc srv' pc'
  | commit {v beginMs noise : ℕ} {b : Batch} (h : b.kept ≠ []) :
      FactStep rq srv (.commit v b beginMs)
        (srv.addSegment (writeSegment rq.recordtypeId (b.records rq) beginMs b.writerId noise rq))
        (.mark v b beginMs (some (writeSegment rq.recordtypeId (b.records rq) beginMs b.writerId noise rq)))
  | mark {v beginMs : ℕ} {b : Batch} {seg : Option Segment} :
      FactStep rq srv (.mark v b beginMs seg) (srv.markSeen rq.pid rq.loadId b.ids) (.record v b beginMs seg)
  | record {v beginMs : ℕ} {b : Batch} {seg : Option Segment} :
      FactStep rq srv (.record v b beginMs seg)
        ((srv.advance rq.pid rq.recordtypeId beginMs seg).addLedger rq.lkey (b.result seg))
        (.reply v (b.result seg))

theorem IngestStep.facts {rq : IngestRequest} {crash : Option CrashPoint} {inp : Inputs} {srv srv' : Server}
    {pc pc' : IngestPc} (h : IngestStep rq crash inp srv pc srv' pc') : FactStep rq srv pc srv' pc' := by
  cases h with
  | prepared => exact .same ((SameFacts.allocWriterId srv _).trans (SameFacts.trackJobArrival _ _ _ _))
  | committed h => exact .commit h
  | marked => exact .mark
  | recorded => exact .record
  | released => exact .same (SameFacts.release srv _ _)
  | _ => exact .same ⟨rfl, rfl, rfl⟩

theorem PutStep.facts {pid : String} {doc : Row} {srv srv' : Server} {pc pc' : PutPc}
    (h : PutStep pid doc srv pc srv' pc') : SameFacts srv srv' := by
  cases h with
  | released => exact SameFacts.release srv _ _
  | _ => exact ⟨rfl, rfl, rfl⟩

theorem OnceStep.facts {P : Runtime} {inp : Inputs} {srv srv' : Server} {rq : Request} {a : Option Answer}
    (h : OnceStep P inp srv rq srv' a) : SameFacts srv srv' := by
  cases h <;> exact ⟨rfl, rfl, rfl⟩

/-! ## Committed lines -/

/-- The line is in a committed segment of the table, written for the load and stamped for it. -/
def Committed (srv : Server) (pid table loadId : String) (e : Envelope) : Prop :=
  ∃ seg ∈ srv.segments, (seg.recordtypeId = pid ++ "." ++ table ∧ seg.request.pid = pid ∧
    seg.request.loadId = loadId) ∧ ∃ utc, e.stamp (pid ++ "." ++ table) loadId utc ∈ seg.records

theorem Committed.mono {srv srv' : Server} (h : ∀ seg ∈ srv.segments, seg ∈ srv'.segments)
    {pid table loadId : String} {e : Envelope} (hc : Committed srv pid table loadId e) :
    Committed srv' pid table loadId e := by
  obtain ⟨seg, hseg, hrest⟩ := hc
  exact ⟨seg, h seg hseg, hrest⟩

/-- Segments are only ever added. -/
theorem Thread.step_segments (P : Runtime) (inp : Inputs) (srv : Server) (th : Thread) :
    srv.segments <+: (th.step P inp srv).1.segments := by
  cases th with
  | ingest rq crash pc =>
    have h := (IngestPc.step_spec rq crash inp srv pc).facts
    change srv.segments <+: (pc.step rq crash inp srv).1.segments
    generalize (pc.step rq crash inp srv).1 = srv' at *
    generalize (pc.step rq crash inp srv).2 = pc' at *
    cases h with
    | same h => exact h.grow
    | commit => exact List.prefix_append _ _
    | mark => exact List.prefix_rfl
    | record => exact List.prefix_rfl
  | put pid doc pc => exact (PutPc.step_spec pid doc srv pc).facts.grow
  | once rq answer => cases answer with
    | none => exact (onceStep_spec P inp srv rq).facts.grow
    | some a => exact List.prefix_rfl

/-- What a step adds to the segments: nothing, or the segment of a chunk at its commit. -/
theorem Thread.step_commit (P : Runtime) (inp : Inputs) (srv : Server) (th : Thread) :
    (th.step P inp srv).1.segments = srv.segments ∨
    ∃ rq crash v b ms noise, th = .ingest rq crash (.commit v b ms) ∧ b.kept ≠ [] ∧ noise = inp.noise ∧
      (th.step P inp srv).1.segments =
        srv.segments ++ [writeSegment rq.recordtypeId (b.records rq) ms b.writerId noise rq] := by
  cases th with
  | ingest rq crash pc =>
    have hstep := IngestPc.step_spec rq crash inp srv pc
    change (pc.step rq crash inp srv).1.segments = _ ∨ ∃ rq' crash' v b ms noise, _ ∧ _ ∧ _ ∧
      (pc.step rq crash inp srv).1.segments = _
    generalize (pc.step rq crash inp srv).1 = srv' at *
    generalize (pc.step rq crash inp srv).2 = pc' at *
    cases hstep with
    | committed hb => exact Or.inr ⟨rq, crash, _, _, _, _, rfl, hb, rfl, rfl⟩
    | prepared =>
      exact Or.inl ((SameFacts.allocWriterId srv rq.pid).trans (SameFacts.trackJobArrival _ _ _ _)).segments
    | released => exact Or.inl (SameFacts.release srv _ _).segments
    | _ => exact Or.inl rfl
  | put pid doc pc => exact Or.inl (PutPc.step_spec pid doc srv pc).facts.segments
  | once rq answer => cases answer with
    | none => exact Or.inl (onceStep_spec P inp srv rq).facts.segments
    | some a => exact Or.inl rfl

/-- The store of a run only grows. -/
theorem segments_grow {P : Runtime} {es : List SysEvent} {n m : ℕ} (hnm : n ≤ m) :
    (sAt P es n).srv.segments <+: (sAt P es m).srv.segments := by
  induction m with
  | zero =>
    obtain rfl : n = 0 := by omega
    exact List.prefix_rfl
  | succ m ih =>
    rcases Nat.eq_or_lt_of_le hnm with rfl | hlt
    · exact List.prefix_rfl
    refine (ih (by omega)).trans ?_
    by_cases hm : m < es.length
    · rw [sAt_succ hm]
      rcases Sys.step_cases P (sAt P es m) es[m] with ⟨rq, crash, -, he⟩ | ⟨t, inp, th, -, -, he⟩ |
        ⟨pid, -, he⟩ | ⟨-, he⟩
      · rewrite [he]; exact List.prefix_rfl
      · rw [he]; exact Thread.step_segments P inp _ th
      · rw [he]; exact (SameFacts.pause _ pid).grow
      · rewrite [he]; exact List.prefix_rfl
    · have he : sAt P es (m + 1) = sAt P es m :=
        (sAt_of_length_le (by omega)).trans (sAt_of_length_le (by omega)).symm
      exact he ▸ List.prefix_rfl

/-! ## Ledger keys -/

/-- A list is cut in one way at the first occurrence of a separator. -/
theorem append_sep_inj {α : Type*} {sep : α} {a b c d : List α} (ha : sep ∉ a) (hb : sep ∉ b)
    (h : a ++ sep :: c = b ++ sep :: d) : a = b ∧ c = d := by
  induction a generalizing b with
  | nil => cases b with
    | nil => exact ⟨rfl, (List.cons.inj h).2⟩
    | cons y b => exact absurd (List.cons.inj h).1 (fun he => hb (he ▸ List.mem_cons_self))
  | cons x a ih => cases b with
    | nil => exact absurd (List.cons.inj h).1 (fun he => ha (he ▸ List.mem_cons_self))
    | cons y b =>
      obtain ⟨rfl, ht⟩ := List.cons.inj h
      obtain ⟨rfl, rfl⟩ := ih (fun hm => ha (List.mem_cons_of_mem _ hm))
        (fun hm => hb (List.mem_cons_of_mem _ hm)) ht
      exact ⟨rfl, rfl⟩

/-- And at the last one. -/
theorem append_sep_inj' {α : Type*} {sep : α} {a b c d : List α} (hc : sep ∉ c) (hd : sep ∉ d)
    (h : a ++ sep :: c = b ++ sep :: d) : a = b ∧ c = d := by
  have hr := congrArg List.reverse h
  simp only [List.reverse_append, List.reverse_cons, List.append_assoc, List.singleton_append] at hr
  obtain ⟨h₁, h₂⟩ := append_sep_inj (by simpa using hc) (by simpa using hd) hr
  exact ⟨List.reverse_inj.1 h₂, List.reverse_inj.1 h₁⟩

/-- The ids that a ledger key is cut at have no bar in them. -/
structure IngestRequest.Plain (rq : IngestRequest) : Prop where
  pid : '|' ∉ rq.pid.toList
  loadId : '|' ∉ rq.loadId.toList
  seq : '|' ∉ rq.seq.toList

/-- **Ledger keys tell chunks apart.** -/
theorem lkey_inj {rq rq' : IngestRequest} (h : rq.Plain) (h' : rq'.Plain) (he : rq.lkey = rq'.lkey) :
    rq.pid = rq'.pid ∧ rq.loadId = rq'.loadId ∧ rq.jobId = rq'.jobId ∧ rq.seq = rq'.seq := by
  have hl := congrArg String.toList he
  have hbar : "|".toList = ['|'] := rfl
  simp only [IngestRequest.lkey, String.toList_append, hbar, List.append_assoc, List.singleton_append] at hl
  obtain ⟨h₁, hl⟩ := append_sep_inj h.pid h'.pid hl
  obtain ⟨h₂, hl⟩ := append_sep_inj h.loadId h'.loadId hl
  obtain ⟨h₃, h₄⟩ := append_sep_inj' h.seq h'.seq hl
  exact ⟨String.toList_inj.1 h₁, String.toList_inj.1 h₂, String.toList_inj.1 h₃, String.toList_inj.1 h₄⟩

/-! ## The invariant -/

/-- Every row that arrives carries an id, and distinct rows of a load carry distinct ids. -/
structure RowsOk (es : List SysEvent) : Prop where
  ids : ∀ {rq : IngestRequest}, Arrives es (.ingest rq) → ∀ e ∈ rq.lines, e.dltId.truthy = true
  distinct : ∀ {rq rq' : IngestRequest}, Arrives es (.ingest rq) → Arrives es (.ingest rq') →
    rq.pid = rq'.pid → rq.loadId = rq'.loadId → ∀ e ∈ rq.lines, ∀ e' ∈ rq'.lines,
      e.key ≠ none → e.key = e'.key → rq.table = rq'.table ∧ e = e'

/-- What has to be checked of a run, once its chunks are known. -/
theorem RowsOk.of_ingests {es : List SysEvent} {l : List IngestRequest} (hl : ingests es = l)
    (hids : ∀ rq ∈ l, ∀ e ∈ rq.lines, e.dltId.truthy = true)
    (hd : ∀ rq ∈ l, ∀ rq' ∈ l, rq.pid = rq'.pid → rq.loadId = rq'.loadId → ∀ e ∈ rq.lines, ∀ e' ∈ rq'.lines,
      e.key ≠ none → e.key = e'.key → rq.table = rq'.table ∧ e = e') : RowsOk es := by
  subst hl
  exact ⟨fun ha => hids _ (arrives_ingest.1 ha), fun ha ha' => hd _ (arrives_ingest.1 ha) _ (arrives_ingest.1 ha')⟩

/-- Chunks of one number carry the same rows. -/
def Resent (es : List SysEvent) : Prop :=
  ∀ rq rq' : IngestRequest, Arrives es (.ingest rq) → Arrives es (.ingest rq') → rq.pid = rq'.pid →
    rq.loadId = rq'.loadId → rq.jobId = rq'.jobId → rq.seq = rq'.seq → rq.table = rq'.table ∧ rq.lines = rq'.lines

theorem Resent.of_ingests {es : List SysEvent} {l : List IngestRequest} (hl : ingests es = l)
    (hd : ∀ rq ∈ l, ∀ rq' ∈ l, rq.pid = rq'.pid → rq.loadId = rq'.loadId → rq.jobId = rq'.jobId →
      rq.seq = rq'.seq → rq.table = rq'.table ∧ rq.lines = rq'.lines) : Resent es := by
  subst hl
  exact fun rq rq' ha ha' => hd rq (arrives_ingest.1 ha) rq' (arrives_ingest.1 ha')

/-- Chunks of one ledger key are for one load of one table, and carry the same rows. -/
def KeyResent (es : List SysEvent) : Prop :=
  ∀ rq rq' : IngestRequest, Arrives es (.ingest rq) → Arrives es (.ingest rq') → rq.lkey = rq'.lkey →
    rq.pid = rq'.pid ∧ rq.loadId = rq'.loadId ∧ rq.table = rq'.table ∧ rq.lines = rq'.lines

theorem KeyResent.of_ingests {es : List SysEvent} {l : List IngestRequest} (hl : ingests es = l)
    (hd : ∀ rq ∈ l, ∀ rq' ∈ l, rq.lkey = rq'.lkey →
      rq.pid = rq'.pid ∧ rq.loadId = rq'.loadId ∧ rq.table = rq'.table ∧ rq.lines = rq'.lines) : KeyResent es := by
  subst hl
  exact fun rq rq' ha ha' => hd rq (arrives_ingest.1 ha) rq' (arrives_ingest.1 ha')

/-- Without bars in the ids, chunks of one ledger key are chunks of one number. -/
theorem KeyResent.of_plain {es : List SysEvent} (h : Resent es)
    (hplain : ∀ {rq : IngestRequest}, Arrives es (.ingest rq) → rq.Plain) : KeyResent es := by
  intro rq rq' ha ha' hk
  obtain ⟨hp, hl, hj, hs⟩ := lkey_inj (hplain ha) (hplain ha') hk
  exact ⟨hp, hl, h rq rq' ha ha' hp hl hj hs⟩

/-- Nothing of the loads in `L` is taken for something else: chunks of one ledger key are the same
chunk, and rows of one id in different chunks are the same row. -/
structure Unmixed (L : String → Prop) (es : List SysEvent) : Prop where
  keys : ∀ {rq rq' : IngestRequest}, Arrives es (.ingest rq) → Arrives es (.ingest rq') → L rq.loadId →
    rq.lkey = rq'.lkey →
      rq.pid = rq'.pid ∧ rq.loadId = rq'.loadId ∧ rq.table = rq'.table ∧ rq.lines = rq'.lines
  ids : ∀ {rq rq' : IngestRequest}, Arrives es (.ingest rq) → Arrives es (.ingest rq') → L rq.loadId →
    rq.lkey ≠ rq'.lkey → rq.pid = rq'.pid → rq.loadId = rq'.loadId → ∀ e ∈ rq.lines, ∀ e' ∈ rq'.lines,
      e.key ≠ none → e.key = e'.key → rq.table = rq'.table ∧ e = e'

theorem RowsOk.unmixed {es : List SysEvent} (hes : RowsOk es) (hkeys : KeyResent es) (L : String → Prop) :
    Unmixed L es :=
  ⟨fun ha ha' _ hk => hkeys _ _ ha ha' hk, fun ha ha' _ _ hp hl => hes.distinct ha ha' hp hl⟩

/-- The whole chunk is committed. -/
def AllCommitted (srv : Server) (rq : IngestRequest) : Prop :=
  ∀ e ∈ rq.lines, Committed srv rq.pid rq.table rq.loadId e

/-- Marked ids and entered chunks of the loads in `L` are committed. -/
structure FactInv (L : String → Prop) (es : List SysEvent) (srv : Server) : Prop where
  seen : ∀ {pid loadId : String} {k : Json.HashKey}, L loadId → k ∈ srv.dltIdsSeen (pid, loadId) →
    ∃ rq, Arrives es (.ingest rq) ∧ rq.pid = pid ∧ rq.loadId = loadId ∧
      (∃ e ∈ rq.lines, e.key = some k) ∧ AllCommitted srv rq
  ledger : ∀ {lkey : String} {r : IngestResult}, srv.ledger lkey = some r →
    ∃ rq, Arrives es (.ingest rq) ∧ rq.lkey = lkey ∧ (L rq.loadId → AllCommitted srv rq)

/-- What is known of a chunk at each point of `ingest`. -/
def IngestPc.Settled (srv : Server) (rq : IngestRequest) : IngestPc → Prop
  | «begin» _ b => (∀ e ∈ b.kept, e ∈ rq.lines) ∧ ∀ e ∈ rq.lines, e ∈ b.kept ∨ Committed srv rq.pid rq.table rq.loadId e
  | commit _ b _ => (∀ e ∈ b.kept, e ∈ rq.lines) ∧ ∀ e ∈ rq.lines, e ∈ b.kept ∨ Committed srv rq.pid rq.table rq.loadId e
  | mark _ b _ _ => (∀ e ∈ b.kept, e ∈ rq.lines) ∧ AllCommitted srv rq
  | record _ _ _ _ => AllCommitted srv rq
  | reply _ _ => AllCommitted srv rq
  | release _ (.ingested _) => AllCommitted srv rq
  | done (.ingested _) => AllCommitted srv rq
  | release _ .accepted => False
  | done .accepted => False
  | _ => True

/-- What is known of a thread. -/
def Thread.Settled (L : String → Prop) (es : List SysEvent) (srv : Server) : Thread → Prop
  | ingest rq _ pc => Arrives es (.ingest rq) ∧ (L rq.loadId → pc.Settled srv rq)
  | _ => True

section

variable {L : String → Prop} {es : List SysEvent} {srv srv' : Server} {rq : IngestRequest}

theorem IngestPc.Settled.mono (h : ∀ seg ∈ srv.segments, seg ∈ srv'.segments) {pc : IngestPc}
    (hs : pc.Settled srv rq) : pc.Settled srv' rq := by
  have hall : AllCommitted srv rq → AllCommitted srv' rq := fun ha e he => (ha e he).mono h
  cases pc with
  | «begin» v b => exact ⟨hs.1, fun e he => (hs.2 e he).imp id (Committed.mono h)⟩
  | commit v b m => exact ⟨hs.1, fun e he => (hs.2 e he).imp id (Committed.mono h)⟩
  | mark v b m seg => exact ⟨hs.1, hall hs.2⟩
  | record v b m seg => exact hall hs
  | reply v r => exact hall hs
  | release v out => cases out <;> first | exact hall hs | exact hs
  | done out => cases out <;> first | exact hall hs | exact hs
  | _ => trivial

theorem Thread.Settled.mono (h : ∀ seg ∈ srv.segments, seg ∈ srv'.segments) {th : Thread}
    (hs : th.Settled L es srv) : th.Settled L es srv' := by
  cases th with
  | ingest rq crash pc => exact ⟨hs.1, fun hL => (hs.2 hL).mono h⟩
  | _ => trivial

theorem FactInv.mono (hG : FactInv L es srv) (h : ∀ seg ∈ srv.segments, seg ∈ srv'.segments)
    (hl : srv'.ledger = srv.ledger) (hs : srv'.dltIdsSeen = srv.dltIdsSeen) : FactInv L es srv' := by
  refine ⟨fun hL hk => ?_, fun hr => ?_⟩
  · obtain ⟨rq, ha, hp, hl, he, hc⟩ := hG.seen hL (by rwa [hs] at hk)
    exact ⟨rq, ha, hp, hl, he, fun e he => (hc e he).mono h⟩
  · obtain ⟨rq, ha, hk, hc⟩ := hG.ledger (by rwa [hl] at hr)
    exact ⟨rq, ha, hk, fun hL e he => (hc hL e he).mono h⟩

theorem FactInv.same (hG : FactInv L es srv) (h : SameFacts srv srv') : FactInv L es srv' :=
  hG.mono (fun _ hs => h.segments ▸ hs) h.ledger h.seen

/-- Two requests for one chunk have the same committed lines. -/
theorem AllCommitted.resent (hes : Unmixed L es) {rq' : IngestRequest} (ha : Arrives es (.ingest rq))
    (ha' : Arrives es (.ingest rq')) (hL : L rq.loadId) (hk : rq.lkey = rq'.lkey)
    (hc : L rq'.loadId → AllCommitted srv rq') : AllCommitted srv rq := by
  obtain ⟨hp, hl, ht, hlines⟩ := hes.keys ha ha' hL hk
  intro e he
  rw [hp, hl, ht]
  exact hc (hl ▸ hL) e (hlines ▸ he)

/-- A row whose id is marked is committed. -/
theorem committed_of_seen (hes : Unmixed L es) (hG : FactInv L es srv) (ha : Arrives es (.ingest rq))
    (hL : L rq.loadId) {e : Envelope} (he : e ∈ rq.lines) {k : Json.HashKey} (hk : e.key = some k)
    (hseen : k ∈ srv.dltIdsSeen (rq.pid, rq.loadId)) : Committed srv rq.pid rq.table rq.loadId e := by
  obtain ⟨rq', ha', hp, hl, ⟨e', he', hk'⟩, hc⟩ := hG.seen hL hseen
  -- the id was marked by this chunk as it was sent before, or by another with the same line
  by_cases hkey : rq.lkey = rq'.lkey
  · exact AllCommitted.resent hes ha ha' hL hkey (fun _ => hc) e he
  · obtain ⟨ht, rfl⟩ := hes.ids ha ha' hL hkey hp.symm hl.symm e he e' he' (by simp [hk]) (hk.trans hk'.symm)
    rw [← hp, ← hl, ht]
    exact hc e he'

/-- A line that is dropped is committed; the others are kept. -/
theorem filtered_settled (hes : Unmixed L es) (hG : FactInv L es srv) (ha : Arrives es (.ingest rq))
    (hL : L rq.loadId) :
    ∀ e ∈ rq.lines, e ∈ rq.lines.filter (Envelope.fresh (srv.dltIdsSeen (rq.pid, rq.loadId))) ∨
      Committed srv rq.pid rq.table rq.loadId e := by
  intro e he
  by_cases hf : e.fresh (srv.dltIdsSeen (rq.pid, rq.loadId)) = true
  · exact Or.inl (List.mem_filter.2 ⟨he, hf⟩)
  · unfold Envelope.fresh at hf
    cases hk : e.key with
    | none => rw [hk] at hf; exact absurd rfl hf
    | some k =>
      rw [hk] at hf
      exact Or.inr (committed_of_seen hes hG ha hL he hk (by simpa using hf))

/-- The commit puts the lines kept into a segment. -/
theorem committed_segment {b : Batch} {beginMs noise : ℕ} {e : Envelope} (he : e ∈ b.kept) :
    Committed (srv.addSegment (writeSegment rq.recordtypeId (b.records rq) beginMs b.writerId noise rq))
      rq.pid rq.table rq.loadId e :=
  ⟨_, List.mem_append_right _ (List.mem_singleton.2 rfl), ⟨rfl, rfl, rfl⟩, b.utc, List.mem_map_of_mem he⟩

/-- **A step of `ingest` keeps the invariant.** -/
theorem ingest_settled (hes : Unmixed L es) {crash : Option CrashPoint} {inp : Inputs} {pc pc' : IngestPc}
    (h : IngestStep rq crash inp srv pc srv' pc') (hG : FactInv L es srv) (ha : Arrives es (.ingest rq))
    (hI : L rq.loadId → pc.Settled srv rq) : FactInv L es srv' ∧ (L rq.loadId → pc'.Settled srv' rq) := by
  cases h with
  -- the chunk was entered by a request for the same chunk
  | hit h c =>
    obtain ⟨rq', ha', hk, hc⟩ := hG.ledger h
    exact ⟨hG.same ⟨rfl, rfl, rfl⟩, fun hL => AllCommitted.resent hes ha ha' hL hk.symm hc⟩
  | miss h => exact ⟨hG, fun _ => trivial⟩
  | claimed h hf hs => exact ⟨hG.same ⟨rfl, rfl, rfl⟩, fun _ => trivial⟩
  | refused c h =>
    refine ⟨hG.same ⟨rfl, rfl, rfl⟩, fun _ => ?_⟩
    rcases h with rfl | ⟨rfl, -⟩ | ⟨-, r, rfl⟩ <;> trivial
  | late h => exact ⟨hG, fun _ => trivial⟩
  | opened h => exact ⟨hG, fun _ => trivial⟩
  | prepared =>
    exact ⟨hG.same ((SameFacts.allocWriterId srv _).trans (SameFacts.trackJobArrival _ _ _ _)), fun _ => trivial⟩
  | unhashable c h => exact ⟨hG.same ⟨rfl, rfl, rfl⟩, fun _ => trivial⟩
  | filtered c h =>
    exact ⟨hG.same ⟨rfl, rfl, rfl⟩, fun hL => ⟨fun e he => List.mem_of_mem_filter he, filtered_settled hes hG ha hL⟩⟩
  | begun => exact ⟨hG, hI⟩
  | @empty v b beginMs h =>
    refine ⟨hG, fun hL => ⟨(hI hL).1, fun e he => ((hI hL).2 e he).resolve_left ?_⟩⟩
    rw [h]
    exact List.not_mem_nil
  | committed h =>
    -- a commit only adds a segment
    have hadd : ∀ seg₀, ∀ seg ∈ srv.segments, seg ∈ (srv.addSegment seg₀).segments :=
      fun _ _ hs => List.mem_append_left _ hs
    refine ⟨hG.mono (hadd _) rfl rfl, fun hL => ⟨(hI hL).1, fun e he => ?_⟩⟩
    rcases (hI hL).2 e he with hk | hc
    · exact committed_segment hk
    · exact hc.mono (hadd _)
  | crashMark h r => exact ⟨hG, fun _ => trivial⟩
  | @marked v b beginMs seg =>
    refine ⟨⟨fun {pid loadId k} hL hk => ?_, hG.ledger⟩, fun hL => (hI hL).2⟩
    simp only [Server.markSeen] at hk
    by_cases hpl : (pid, loadId) = (rq.pid, rq.loadId)
    · rw [hpl, Function.update_self, List.mem_append] at hk
      cases hpl
      rcases hk with hk | hk
      · -- a mark of this chunk: its lines were committed first
        obtain ⟨e, he, hkey⟩ := List.mem_filterMap.1 hk
        exact ⟨rq, ha, rfl, rfl, ⟨e, (hI hL).1 e he, hkey⟩, (hI hL).2⟩
      · exact hG.seen hL hk
    · rw [Function.update_of_ne hpl] at hk
      exact hG.seen hL hk
  | crashRecord h r => exact ⟨hG, fun _ => trivial⟩
  | @recorded v b beginMs seg =>
    refine ⟨⟨hG.seen, fun {lkey r} hr => ?_⟩, hI⟩
    simp only [Server.addLedger] at hr
    -- the chunk is entered after its commit
    by_cases hk : lkey = rq.lkey
    · exact ⟨rq, ha, hk.symm, hI⟩
    · rw [Function.update_of_ne hk] at hr
      exact hG.ledger hr
  | crashReply h r => exact ⟨hG, fun _ => trivial⟩
  | replied => exact ⟨hG, hI⟩
  | @released v out =>
    have hs := SameFacts.release srv rq.pid v
    refine ⟨hG.same hs, fun hL => IngestPc.Settled.mono (fun _ (h : _ ∈ srv.segments) => hs.segments ▸ h) ?_⟩
    have hI := hI hL
    cases out <;> exact hI
  | ended => exact ⟨hG, hI⟩

variable {P : Runtime}

/-- **Marked ids and entered chunks are committed**, in every state of every run, and so are
the rows of every chunk past its commit. -/
theorem commit_inv (hes : Unmixed L es) (n : ℕ) : FactInv L es (sAt P es n).srv ∧
    ∀ {t : ℕ} {th : Thread}, (sAt P es n).threads[t]? = some th → th.Settled L es (sAt P es n).srv := by
  refine thread_rule (P := P) (G := FactInv L es) (I := Thread.Settled L es)
    ⟨fun _ hk => by simp at hk, fun hr => by simp at hr⟩ ?_ ?_ ?_ n
  · intro srv pid hG
    have hs := SameFacts.pause srv pid
    exact ⟨hG.same hs, fun _ hI => hI.mono fun _ h => hs.segments ▸ h⟩
  · intro srv rq crash hmem hG
    cases rq with
    | ingest rq => exact ⟨⟨crash, hmem⟩, fun _ => trivial⟩
    | _ => trivial
  · intro srv th inp _ hG hI
    have hseg := (Thread.step_segments P inp srv th).subset
    refine ⟨?_, ?_, fun th' _ _ hI' => hI'.mono fun _ h => hseg h⟩
    all_goals
      cases th with
      | ingest rq crash pc =>
        obtain ⟨hG', hI'⟩ := ingest_settled hes (IngestPc.step_spec rq crash inp srv pc) hG hI.1 hI.2
        first | exact hG' | exact ⟨hI.1, hI'⟩
      | put pid doc pc => first | exact hG.same (PutPc.step_spec pid doc srv pc).facts | trivial
      | once rq answer => cases answer with
        | none => first | exact hG.same (onceStep_spec P inp srv rq).facts | trivial
        | some a => first | exact hG | trivial

/-! ## Acknowledgements -/

/-- The request was answered 200. -/
def Thread.Acked (P : Runtime) (th : Thread) : Prop := ∃ r, th.answer P = some (.reply r) ∧ r.status = 200

/-- The only successes are acknowledgements. -/
theorem postAnswer_success {out : Outcome} {r : Response} (h : postAnswer P out = .reply r) (hr : r.status < 400) :
    r.status = 200 ∧ ((∃ res, out = .ingested res) ∨ out = .accepted) := by
  cases out <;> cases h
  · exact ⟨rfl, Or.inl ⟨_, rfl⟩⟩
  · exact ⟨rfl, Or.inr rfl⟩
  all_goals simp at hr

/-- **A chunk that was answered with a success is committed.** -/
theorem committed_of_acked (hes : Unmixed L es) (hL : L rq.loadId) {n t : ℕ} {crash : Option CrashPoint}
    {pc : IngestPc} (ht : (sAt P es n).threads[t]? = some (.ingest rq crash pc)) {r : Response}
    (ha : Thread.answer P (.ingest rq crash pc) = some (.reply r)) (hr : r.status < 400) :
    AllCommitted (sAt P es n).srv rq := by
  have hI := ((commit_inv hes n).2 ht).2 hL
  cases pc with
  | done out =>
    rcases (postAnswer_success (Option.some.inj ha) hr).2 with ⟨res, rfl⟩ | rfl
    · exact hI
    · exact absurd hI id
  | _ => cases ha

end

end Matterbeam
