import Matterbeam.Proof.Commit

/-!
# At most once

A row is committed by a thread that holds the entry lock of its pid, after the thread has
looked for the row's id among the marked ones, still holding the lock. While the lock is
free every committed id is marked, unless a request crashed between its commit and its
mark; so no id is committed twice in a load.

* `once_inv`: committed ids are marked, except those of a thread that is about to mark them.
* `commit_not_landed`: a chunk whose rows have all landed commits nothing.
* `inTurn_order`: **chunks that are delivered one after another are committed in order.**
-/

namespace Matterbeam

open Function

/-! ## Ids in the store -/

/-- The `source_record_id` of a record, as an element of a set. -/
def recordKey (record : Row) : Option Json.HashKey :=
  match record.get? "mb.metadata" with
  | some (.obj md) => (md.lookup "source_record_id").bind Json.hash?
  | _ => none

/-- A stamped line keeps its id. -/
theorem recordKey_stamp (e : Envelope) (recordtypeId loadId utc : String) :
    recordKey (e.stamp recordtypeId loadId utc) = e.key := by
  unfold recordKey Envelope.stamp Envelope.key
  rw [Dict.get?_set, if_pos rfl]
  split_ifs <;> rfl

/-- The records of a load in the store, in commit order. -/
def Server.recordsOf (srv : Server) (pid loadId : String) : List Row :=
  (srv.segments.filter fun s => s.request.pid = pid ∧ s.request.loadId = loadId).flatMap Segment.records

/-- The ids of a load in the store. -/
def Server.landed (srv : Server) (pid loadId : String) : List Json.HashKey :=
  (srv.recordsOf pid loadId).filterMap recordKey

theorem recordsOf_addSegment (srv : Server) (seg : Segment) (pid loadId : String) :
    (srv.addSegment seg).recordsOf pid loadId = srv.recordsOf pid loadId ++
      if seg.request.pid = pid ∧ seg.request.loadId = loadId then seg.records else [] := by
  unfold Server.recordsOf Server.addSegment
  rw [List.filter_append, List.flatMap_append]
  by_cases h : seg.request.pid = pid ∧ seg.request.loadId = loadId <;> simp [h]

/-- The ids of a batch's records are the ids of its lines. -/
theorem filterMap_records (b : Batch) (rq : IngestRequest) : (b.records rq).filterMap recordKey = b.ids := by
  unfold Batch.records Batch.ids
  rw [List.filterMap_map]
  exact List.filterMap_congr fun e _ => recordKey_stamp e _ _ _

theorem landed_addSegment (srv : Server) (b : Batch) (rq : IngestRequest) (beginMs noise : ℕ) (pid loadId : String) :
    (srv.addSegment (writeSegment rq.recordtypeId (b.records rq) beginMs b.writerId noise rq)).landed pid loadId =
      srv.landed pid loadId ++ if rq.pid = pid ∧ rq.loadId = loadId then b.ids else [] := by
  unfold Server.landed
  rw [recordsOf_addSegment, List.filterMap_append, ← filterMap_records b rq]
  congr 1
  change List.filterMap recordKey (if rq.pid = pid ∧ rq.loadId = loadId then b.records rq else []) = _
  split <;> rfl

theorem SameFacts.landed {srv srv' : Server} (h : SameFacts srv srv') : srv'.landed = srv.landed := by
  funext pid loadId
  unfold Server.landed Server.recordsOf
  rw [h.segments]

/-- Ids stay in the store. -/
theorem landed_mono {srv srv' : Server} (h : srv.segments <+: srv'.segments) {pid loadId : String}
    {k : Json.HashKey} (hk : k ∈ srv.landed pid loadId) : k ∈ srv'.landed pid loadId := by
  obtain ⟨rest, hr⟩ := h
  unfold Server.landed Server.recordsOf at *
  rw [← hr, List.filter_append, List.flatMap_append, List.filterMap_append]
  exact List.mem_append_left _ hk

/-! ## The invariant -/

/-- Every row that arrives carries an id, and the rows of a chunk carry distinct ids. -/
structure IdsOk (es : List SysEvent) : Prop where
  ids : ∀ {rq : IngestRequest}, Arrives es (.ingest rq) → ∀ e ∈ rq.lines, e.dltId.truthy = true
  nodup : ∀ {rq : IngestRequest}, Arrives es (.ingest rq) → (rq.lines.filterMap Envelope.key).Nodup

/-- No request crashes between its commit and its mark. -/
def MarksOk (es : List SysEvent) : Prop :=
  ∀ rq crash, SysEvent.spawn rq crash ∈ es → crash ≠ some .afterCommitBeforeMark

/-- The committed ids of a pid are marked, but for some of one load. -/
def Marked (srv : Server) (pid loadId : String) (pending : List Json.HashKey) : Prop :=
  ∀ l, ∀ k ∈ srv.landed pid l, k ∈ srv.dltIdsSeen (pid, l) ∨ l = loadId ∧ k ∈ pending

/-- No id is committed twice in a load, every record has an id, and the ids of a pid whose
lock is free are marked. -/
structure OnceInv (srv : Server) : Prop where
  nodup : ∀ pid loadId, (srv.landed pid loadId).Nodup
  keyed : ∀ seg ∈ srv.segments, ∀ r ∈ seg.records, recordKey r ≠ none
  marked : ∀ pid, (∀ v, srv.lockOf pid ≠ some (v, 0)) → ∀ loadId, Marked srv pid loadId []

/-- The ids that a thread has committed and not yet marked. -/
def IngestPc.pending : IngestPc → List Json.HashKey
  | mark _ b _ _ => b.ids
  | _ => []

/-- What the filter has kept is fresh. -/
def IngestPc.Fresh (srv : Server) (rq : IngestRequest) : IngestPc → Prop
  | «begin» _ b => b.kept.Sublist rq.lines ∧ ∀ e ∈ b.kept, ∃ k, e.key = some k ∧ k ∉ srv.dltIdsSeen (rq.pid, rq.loadId)
  | commit _ b _ => b.kept.Sublist rq.lines ∧ ∀ e ∈ b.kept, ∃ k, e.key = some k ∧ k ∉ srv.dltIdsSeen (rq.pid, rq.loadId)
  | _ => True

/-- What is known of a thread while it holds a pid. -/
def Thread.Once (es : List SysEvent) (srv : Server) : Thread → Prop
  | ingest rq crash pc => (Arrives es (.ingest rq) ∧ crash ≠ some .afterCommitBeforeMark) ∧
      (∀ v, pc.version = some v → Marked srv rq.pid rq.loadId pc.pending) ∧ pc.Fresh srv rq
  | put pid _ pc => ∀ v, pc.version = some v → Marked srv pid "" []
  | once _ _ => True

section

variable {es : List SysEvent} {srv srv' : Server} {rq : IngestRequest}

theorem Marked.any {pid l l' : String} (h : Marked srv pid l []) : Marked srv pid l' [] := by
  intro m k hk
  rcases h m k hk with h | ⟨-, h⟩
  · exact Or.inl h
  · cases h

theorem Marked.same (h : SameFacts srv srv') {pid l : String} {ids : List Json.HashKey}
    (hm : Marked srv pid l ids) : Marked srv' pid l ids := by
  intro m k hk
  rw [h.landed] at hk
  rw [h.seen]
  exact hm m k hk

/-- A thread that holds a pid knows that the pid's lock is taken. -/
theorem OnceInv.same (hG : OnceInv srv) (h : SameFacts srv srv') {held held' : Option (String × ℕ)}
    (hl : LockStep srv srv' held held') (hh : ∀ p v, held = some (p, v) → srv.lockOf p = some (v, 0))
    (hclean : ∀ p v, held = some (p, v) → held' = none → Marked srv p "" []) : OnceInv srv' := by
  refine ⟨fun p l => by rw [h.landed]; exact hG.nodup p l, fun seg hs => hG.keyed seg (h.segments ▸ hs),
    fun p hp l => Marked.same h (Marked.any (l := "") ?_)⟩
  cases hl with
  | keep hk =>
    refine hG.marked p (fun v hv => ?_) _
    rcases hk p with he | ⟨hn, -⟩
    · exact hp v (he.trans hv)
    · rw [hn] at hv
      cases hv
  | @claim q v hfree hset =>
    by_cases hq : p = q
    · exact absurd (by rw [hset, if_pos hq]) (hp (v + 1))
    · refine hG.marked p (fun v' hv => hp v' ?_) _
      rw [hset, if_neg hq]
      exact hv
  | @release q v hset =>
    by_cases hq : p = q
    · subst hq
      exact hclean p v rfl rfl
    · refine hG.marked p (fun v' hv => hp v' ?_) _
      rw [hset 0 (hh q v rfl), if_neg hq]
      exact hv

/-- The lines kept have distinct ids, none of which is in the store. -/
theorem fresh_ids (hes : IdsOk es) (ha : Arrives es (.ingest rq)) {b : Batch} (hsub : b.kept.Sublist rq.lines)
    (hfresh : ∀ e ∈ b.kept, ∃ k, e.key = some k ∧ k ∉ srv.dltIdsSeen (rq.pid, rq.loadId))
    (hm : Marked srv rq.pid rq.loadId []) : b.ids.Nodup ∧ ∀ k ∈ b.ids, k ∉ srv.landed rq.pid rq.loadId := by
  refine ⟨(hes.nodup ha).sublist (hsub.filterMap _), fun k hk hl => ?_⟩
  obtain ⟨e, he, hkey⟩ := List.mem_filterMap.1 hk
  obtain ⟨k', hk', hns⟩ := hfresh e he
  rw [hkey] at hk'
  cases hk'
  rcases hm _ k hl with hs | ⟨-, hs⟩
  · exact hns hs
  · cases hs

/-- The filter keeps fresh lines. -/
theorem filter_fresh (hes : IdsOk es) (ha : Arrives es (.ingest rq)) (hh : rq.lines.all Envelope.hashable = true) :
    ∀ e ∈ rq.lines.filter (Envelope.fresh (srv.dltIdsSeen (rq.pid, rq.loadId))),
      ∃ k, e.key = some k ∧ k ∉ srv.dltIdsSeen (rq.pid, rq.loadId) := by
  intro e he
  obtain ⟨hm, hf⟩ := List.mem_filter.1 he
  have ht := hes.ids ha e hm
  have hhash := List.all_eq_true.1 hh e hm
  unfold Envelope.hashable at hhash
  rw [ht, Bool.not_true, Bool.false_or] at hhash
  obtain ⟨k, hk⟩ := Option.isSome_iff_exists.1 hhash
  have hkey : e.key = some k := by unfold Envelope.key; rw [if_pos ht, hk]
  refine ⟨k, hkey, ?_⟩
  unfold Envelope.fresh at hf
  rw [hkey] at hf
  simpa using hf

/-- The commit of fresh lines. -/
theorem OnceInv.commit (hes : IdsOk es) (ha : Arrives es (.ingest rq)) (hG : OnceInv srv) {b : Batch} {v : ℕ}
    (hh : srv.lockOf rq.pid = some (v, 0)) (hsub : b.kept.Sublist rq.lines)
    (hfresh : ∀ e ∈ b.kept, ∃ k, e.key = some k ∧ k ∉ srv.dltIdsSeen (rq.pid, rq.loadId))
    (hm : Marked srv rq.pid rq.loadId []) (beginMs noise : ℕ) :
    OnceInv (srv.addSegment (writeSegment rq.recordtypeId (b.records rq) beginMs b.writerId noise rq)) ∧
    Marked (srv.addSegment (writeSegment rq.recordtypeId (b.records rq) beginMs b.writerId noise rq))
      rq.pid rq.loadId b.ids := by
  obtain ⟨hnd, hnl⟩ := fresh_ids hes ha hsub hfresh hm
  refine ⟨⟨fun p l => ?_, fun seg hs r hr => ?_, fun p hp l m k hk => ?_⟩, fun l k hk => ?_⟩
  · rw [landed_addSegment]
    split
    · rename_i h
      obtain ⟨rfl, rfl⟩ := h
      exact List.nodup_append.2 ⟨hG.nodup _ _, hnd, fun a ha' b' hb hab => hnl b' hb (hab ▸ ha')⟩
    · rw [List.append_nil]
      exact hG.nodup p l
  · rcases List.mem_append.1 hs with hs | hs
    · exact hG.keyed seg hs r hr
    · rw [List.mem_singleton.1 hs] at hr
      obtain ⟨e, he, rfl⟩ := List.mem_map.1 hr
      obtain ⟨k, hk, -⟩ := hfresh e he
      rw [recordKey_stamp, hk]
      simp
  · -- a pid whose lock is free is another one
    have hne : ¬ (rq.pid = p ∧ rq.loadId = m) := fun h => hp v (h.1 ▸ hh)
    rw [landed_addSegment, if_neg hne, List.append_nil] at hk
    exact hG.marked p hp l m k hk
  · rw [landed_addSegment, List.mem_append] at hk
    rcases hk with hk | hk
    · rcases hm l k hk with hs | ⟨-, hs⟩
      · exact Or.inl hs
      · cases hs
    · split at hk
      · rename_i h
        exact Or.inr ⟨h.2.symm, hk⟩
      · cases hk

theorem mem_markSeen {pid loadId p l : String} {ids : List Json.HashKey} {k : Json.HashKey} :
    k ∈ (srv.markSeen pid loadId ids).dltIdsSeen (p, l) ↔
      k ∈ srv.dltIdsSeen (p, l) ∨ (p = pid ∧ l = loadId) ∧ k ∈ ids := by
  unfold Server.markSeen
  by_cases h : (p, l) = (pid, loadId)
  · obtain ⟨rfl, rfl⟩ := Prod.mk.inj h
    simp [or_comm]
  · have h' : ¬ (p = pid ∧ l = loadId) := fun he => h (by rw [he.1, he.2])
    simp [h']

/-- **A step of `ingest` keeps the invariant.** -/
theorem ingest_once (hes : IdsOk es) {crash : Option CrashPoint} {inp : Inputs} {pc pc' : IngestPc}
    (h : IngestStep rq crash inp srv pc srv' pc') (hh : ∀ v, pc.version = some v → srv.lockOf rq.pid = some (v, 0))
    (hG : OnceInv srv) (hI : Thread.Once es srv (.ingest rq crash pc)) :
    OnceInv srv' ∧ Thread.Once es srv' (.ingest rq crash pc') := by
  obtain ⟨⟨ha, hcr⟩, hm, hf⟩ := hI
  have hlock := h.lock
  have hh' : ∀ p v, pc.version.map (fun v => (rq.pid, v)) = some (p, v) → srv.lockOf p = some (v, 0) := by
    intro p v he
    obtain ⟨v', hv, he⟩ := Option.map_eq_some_iff.1 he
    cases he
    exact hh v hv
  -- a step that changes no facts keeps the invariant, and what is known of the chunk
  have hsame : SameFacts srv srv' → pc.pending = [] → OnceInv srv' := fun hs hp =>
    hG.same hs hlock hh' fun p v he _ => by
      obtain ⟨v', hv, he⟩ := Option.map_eq_some_iff.1 he
      cases he
      have := hm v hv
      rw [hp] at this
      exact this.any
  have hkeep : SameFacts srv srv' → ∀ {v}, pc.version = some v → pc.pending = [] → ∀ l, Marked srv' rq.pid l [] := by
    intro hs v hv hp l
    have := hm v hv
    rw [hp] at this
    exact this.any.same hs
  cases h with
  | hit h c => exact ⟨hsame ⟨rfl, rfl, rfl⟩ rfl, ⟨ha, hcr⟩, (fun v hv => by cases hv), trivial⟩
  | miss h => exact ⟨hG, ⟨ha, hcr⟩, (fun v hv => by cases hv), trivial⟩
  -- the pid was free until now, so all that is in the store is marked
  | @claimed item h hpf hs =>
    have hfacts : SameFacts srv (srv.setPid rq.pid item.claimed) := ⟨rfl, rfl, rfl⟩
    refine ⟨hsame hfacts rfl, ⟨ha, hcr⟩, fun v _ => Marked.same hfacts (hG.marked rq.pid (fun v' hv => ?_) _), trivial⟩
    rw [Server.lockOf, h] at hv
    simp only [Option.map_some, Option.some.injEq, Prod.mk.injEq] at hv
    omega
  | refused c h => exact ⟨hsame ⟨rfl, rfl, rfl⟩ rfl, ⟨ha, hcr⟩, (fun v hv => by cases hv), trivial⟩
  | late h => exact ⟨hG, ⟨ha, hcr⟩, fun v _ => hm _ rfl, trivial⟩
  | opened h => exact ⟨hG, ⟨ha, hcr⟩, fun v _ => hm _ rfl, trivial⟩
  | prepared =>
    have hfacts := (SameFacts.allocWriterId srv rq.pid).trans
      (SameFacts.trackJobArrival _ rq.pid rq.recordtypeId rq.jobId)
    exact ⟨hsame hfacts rfl, ⟨ha, hcr⟩, fun v _ => hkeep hfacts rfl rfl _, trivial⟩
  | unhashable c h =>
    exact ⟨hsame ⟨rfl, rfl, rfl⟩ rfl, ⟨ha, hcr⟩, fun v _ => hkeep ⟨rfl, rfl, rfl⟩ rfl rfl _, trivial⟩
  | filtered c h =>
    exact ⟨hsame ⟨rfl, rfl, rfl⟩ rfl, ⟨ha, hcr⟩, fun v _ => hkeep ⟨rfl, rfl, rfl⟩ rfl rfl _,
      List.filter_sublist, filter_fresh hes ha h⟩
  | begun => exact ⟨hG, ⟨ha, hcr⟩, fun v _ => hm _ rfl, hf⟩
  | @empty v b beginMs h =>
    have hids : b.ids = [] := by unfold Batch.ids; rw [h]; rfl
    exact ⟨hG, ⟨ha, hcr⟩, fun v _ => by rw [IngestPc.pending, hids]; exact hm _ rfl, trivial⟩
  -- the ids that are committed are pending until they are marked
  | @committed v b beginMs h =>
    obtain ⟨hG', hm'⟩ := hG.commit hes ha (hh v rfl) hf.1 hf.2 (hm v rfl) beginMs inp.noise
    exact ⟨hG', ⟨ha, hcr⟩, fun _ _ => hm', trivial⟩
  | crashMark h r => exact absurd h hcr
  | @marked v b beginMs seg =>
    -- what was pending is marked now
    have hmark : Marked (srv.markSeen rq.pid rq.loadId b.ids) rq.pid rq.loadId [] := by
      intro l k hk
      rw [mem_markSeen]
      rcases hm v rfl l k hk with h | ⟨rfl, h⟩
      · exact Or.inl (Or.inl h)
      · exact Or.inl (Or.inr ⟨⟨rfl, rfl⟩, h⟩)
    refine ⟨⟨hG.nodup, hG.keyed, fun p hp l m k hk => ?_⟩, ⟨ha, hcr⟩, fun _ _ => hmark, trivial⟩
    rw [mem_markSeen]
    exact (hG.marked p hp l m k hk).imp Or.inl id
  | crashRecord h r => exact ⟨hG, ⟨ha, hcr⟩, fun v _ => hm _ rfl, trivial⟩
  | @recorded v b beginMs seg =>
    exact ⟨⟨hG.nodup, hG.keyed, hG.marked⟩, ⟨ha, hcr⟩, fun _ _ => hm v rfl, trivial⟩
  | crashReply h r => exact ⟨hG, ⟨ha, hcr⟩, fun v _ => hm _ rfl, trivial⟩
  | replied => exact ⟨hG, ⟨ha, hcr⟩, fun v _ => hm _ rfl, trivial⟩
  | released => exact ⟨hsame (SameFacts.release srv _ _) rfl, ⟨ha, hcr⟩, (fun v hv => by cases hv), trivial⟩
  | ended => exact ⟨hG, ⟨ha, hcr⟩, (fun v hv => by cases hv), trivial⟩

/-- A step of `put_dlt_state` keeps the invariant. -/
theorem put_once {pid : String} {doc : Row} {pc pc' : PutPc} (h : PutStep pid doc srv pc srv' pc')
    (hh : ∀ v, pc.version = some v → srv.lockOf pid = some (v, 0)) (hG : OnceInv srv)
    (hI : Thread.Once es srv (.put pid doc pc)) : OnceInv srv' ∧ Thread.Once es srv' (.put pid doc pc') := by
  have hfacts := h.facts
  refine ⟨hG.same hfacts h.lock (fun p v he => ?_) fun p v he _ => ?_, ?_⟩
  · obtain ⟨v', hv, he⟩ := Option.map_eq_some_iff.1 he
    cases he
    exact hh v hv
  · obtain ⟨v', hv, he⟩ := Option.map_eq_some_iff.1 he
    cases he
    exact hI v hv
  · cases h with
    | @claimed item h hpf hs =>
      refine fun v _ => Marked.same hfacts (hG.marked pid (fun v' hv => ?_) _)
      rw [Server.lockOf, h] at hv
      simp only [Option.map_some, Option.some.injEq, Prod.mk.injEq] at hv
      omega
    | refused => exact fun v hv => by cases hv
    | released => exact fun v hv => by cases hv
    | ended => exact fun v hv => by cases hv
    | _ => exact fun v _ => Marked.same hfacts (hI _ rfl)

variable {P : Runtime}

/-- A step changes the store and the marks of pids that the thread holds only. -/
theorem Thread.step_frame (P : Runtime) (inp : Inputs) (srv : Server) (th : Thread) {p : String}
    (hp : ∀ v, th.held ≠ some (p, v)) (l : String) : (th.step P inp srv).1.landed p l = srv.landed p l ∧
      (th.step P inp srv).1.dltIdsSeen (p, l) = srv.dltIdsSeen (p, l) := by
  cases th with
  | ingest rq crash pc =>
    have h := (IngestPc.step_spec rq crash inp srv pc).facts
    change (pc.step rq crash inp srv).1.landed p l = _ ∧ (pc.step rq crash inp srv).1.dltIdsSeen (p, l) = _
    generalize (pc.step rq crash inp srv).1 = srv' at *
    generalize (pc.step rq crash inp srv).2 = pc' at *
    -- a step changes the marks only of a pid that is held
    have hne : ∀ {v}, pc.version = some v → rq.pid ≠ p := by
      rintro v hv rfl
      exact hp v (by simp only [Thread.held, hv, Option.map_some])
    cases h with
    | same h => exact ⟨by rw [h.landed], by rw [h.seen]⟩
    | commit h =>
      refine ⟨?_, rfl⟩
      rw [landed_addSegment, if_neg fun he => hne rfl he.1, List.append_nil]
    | mark =>
      refine ⟨rfl, update_of_ne (fun he => hne rfl ?_) _ _⟩
      exact (Prod.mk.inj he).1.symm
    | record => exact ⟨rfl, rfl⟩
  | put pid doc pc =>
    have h := (PutPc.step_spec pid doc srv pc).facts
    exact ⟨congrFun (congrFun h.landed p) l, congrFun h.seen (p, l)⟩
  | once rq answer => cases answer with
    | none =>
      have h := (onceStep_spec P inp srv rq).facts
      exact ⟨congrFun (congrFun h.landed p) l, congrFun h.seen (p, l)⟩
    | some a => exact ⟨rfl, rfl⟩

/-- What is known of a thread depends on the pid it holds only. -/
theorem Thread.Once.frame {th : Thread} (h : ∀ p v, th.held = some (p, v) → ∀ l,
      srv'.landed p l = srv.landed p l ∧ srv'.dltIdsSeen (p, l) = srv.dltIdsSeen (p, l))
    (hI : th.Once es srv) : th.Once es srv' := by
  cases th with
  | ingest rq crash pc =>
    obtain ⟨ha, hm, hf⟩ := hI
    have hh : ∀ {v}, pc.version = some v → ∀ l, srv'.landed rq.pid l = srv.landed rq.pid l ∧
        srv'.dltIdsSeen (rq.pid, l) = srv.dltIdsSeen (rq.pid, l) := fun {v} hv =>
      h rq.pid v (by simp only [Thread.held, hv, Option.map_some])
    refine ⟨ha, fun v hv l k hk => ?_, ?_⟩
    · rw [(hh hv l).1] at hk
      rw [(hh hv l).2]
      exact hm v hv l k hk
    · cases pc with
      | «begin» v b => exact ⟨hf.1, by rw [(hh rfl rq.loadId).2]; exact hf.2⟩
      | commit v b ms => exact ⟨hf.1, by rw [(hh rfl rq.loadId).2]; exact hf.2⟩
      | _ => trivial
  | put pid doc pc =>
    intro v hv l k hk
    have hh := h pid v (by simp only [Thread.held, hv, Option.map_some]) l
    rw [hh.1] at hk
    rw [hh.2]
    exact hI v hv l k hk
  | once => trivial

/-- **Committed ids are marked**, and none is committed twice in a load, in every state of
every run. -/
theorem once_inv (hes : IdsOk es) (hcrash : MarksOk es) (n : ℕ) : OnceInv (sAt P es n).srv ∧
    ∀ {t : ℕ} {th : Thread}, (sAt P es n).threads[t]? = some th → th.Once es (sAt P es n).srv := by
  refine thread_rule (P := P) (G := OnceInv) (I := Thread.Once es) ⟨fun _ _ => List.nodup_nil, by simp,
    fun _ _ _ _ k hk => by cases hk⟩ ?_ ?_ ?_ n
  · intro srv pid hG
    have hs := SameFacts.pause srv pid
    have hkeep : LockStep srv (srv.pause pid) none none := .keep fun p => Or.inl (Server.lockOf_pause _ _ _)
    refine ⟨hG.same hs hkeep (by simp) (by simp),
      fun th hI => hI.frame fun p v _ l => ⟨by rw [hs.landed], by rw [hs.seen]⟩⟩
  · intro srv rq crash hmem hG
    cases rq with
    | ingest rq => exact ⟨⟨⟨crash, hmem⟩, hcrash _ _ hmem⟩, (fun v hv => by cases hv), trivial⟩
    | putState pid doc => exact fun v hv => by cases hv
    | _ => trivial
  · intro srv th inp hh hG hI
    have hrest : ∀ th', th.Apart th' → Holds srv th' → th'.Once es srv → th'.Once es (th.step P inp srv).1 :=
      fun th' hap _ hI' => hI'.frame fun p v hv l =>
        Thread.step_frame P inp srv th (fun v' hv' => hap p v' v hv' hv) l
    suffices h : OnceInv (th.step P inp srv).1 ∧ (th.step P inp srv).2.Once es (th.step P inp srv).1 from
      ⟨h.1, h.2, hrest⟩
    cases th with
    | ingest rq crash pc =>
      exact ingest_once hes (IngestPc.step_spec rq crash inp srv pc)
        (fun v hv => hh rq.pid v (by simp only [Thread.held, hv, Option.map_some])) hG hI
    | put pid doc pc =>
      exact put_once (PutPc.step_spec pid doc srv pc)
        (fun v hv => hh pid v (by simp only [Thread.held, hv, Option.map_some])) hG hI
    | once rq answer => cases answer with
      | none =>
        have h := onceStep_spec P inp srv rq
        exact ⟨hG.same h.facts h.lock (by simp) (by simp), trivial⟩
      | some a => exact ⟨hG, trivial⟩

/-- No row is twice in the store. -/
theorem countP_key_le_one (hG : OnceInv srv) (pid loadId : String) (key : Option Json.HashKey) :
    (srv.recordsOf pid loadId).countP (fun r => recordKey r = key) ≤ 1 := by
  cases key with
  | none =>
    refine (List.countP_eq_zero.2 fun r hr => ?_).le.trans (Nat.zero_le 1)
    obtain ⟨seg, hs, hm⟩ := List.mem_flatMap.1 hr
    simpa using hG.keyed seg (List.mem_filter.1 hs).1 r hm
  | some k =>
    -- the rows of a key are counted by their ids
    have h := List.nodup_iff_count_le_one.1 (hG.nodup pid loadId) k
    rw [Server.landed, List.count_filterMap] at h
    refine (List.countP_congr fun r _ => ?_).le.trans h
    simp

/-! ## Commits -/

/-- All the rows of the chunk are in the store. -/
def Landed (srv : Server) (rq : IngestRequest) : Prop :=
  ∀ e ∈ rq.lines, ∀ k, e.key = some k → k ∈ srv.landed rq.pid rq.loadId

theorem AllCommitted.landed (h : AllCommitted srv rq) : Landed srv rq := by
  intro e he k hk
  obtain ⟨seg, hseg, ⟨-, hp, hl⟩, utc, hm⟩ := h e he
  refine List.mem_filterMap.2 ⟨_, List.mem_flatMap.2 ⟨seg, List.mem_filter.2 ⟨hseg, ?_⟩, hm⟩, ?_⟩
  · simp [hp, hl]
  · rw [recordKey_stamp, hk]

/-- A step that adds a segment is a commit of some lines. -/
theorem commit_of_grow {inp : Inputs} {th : Thread}
    (h : (th.step P inp srv).1.segments.length ≠ srv.segments.length) :
    ∃ rq crash v b beginMs, th = .ingest rq crash (.commit v b beginMs) ∧ b.kept ≠ [] := by
  cases th with
  | ingest rq crash pc =>
    have hs := IngestPc.step_spec rq crash inp srv pc
    change (pc.step rq crash inp srv).1.segments.length ≠ _ at h
    generalize (pc.step rq crash inp srv).1 = srv' at *
    generalize (pc.step rq crash inp srv).2 = pc' at *
    cases hs with
    | @committed v b beginMs hk => exact ⟨rq, crash, v, b, beginMs, rfl, hk⟩
    | prepared =>
      exact absurd (congrArg List.length ((SameFacts.allocWriterId srv _).trans
        (SameFacts.trackJobArrival _ _ _ _)).segments) h
    | released => exact absurd (congrArg List.length (SameFacts.release srv _ _).segments) h
    | _ => exact absurd rfl h
  | put pid doc pc => exact absurd (congrArg List.length (PutPc.step_spec pid doc srv pc).facts.segments) h
  | once rq answer => cases answer with
    | none => exact absurd (congrArg List.length (onceStep_spec P inp srv rq).facts.segments) h
    | some a => exact absurd rfl h

/-- **A chunk whose rows have all landed commits nothing.** -/
theorem commit_not_landed (hes : IdsOk es) (hcrash : MarksOk es) {n t v beginMs : ℕ} {crash : Option CrashPoint}
    {b : Batch} (ht : (sAt P es n).threads[t]? = some (.ingest rq crash (.commit v b beginMs))) (hb : b.kept ≠ []) :
    ¬ Landed (sAt P es n).srv rq := by
  intro hl
  obtain ⟨⟨ha, -⟩, hm, hsub, hfresh⟩ := (once_inv hes hcrash n).2 ht
  obtain ⟨-, hnl⟩ := fresh_ids hes ha hsub hfresh (hm v rfl)
  obtain ⟨e, he⟩ := List.exists_mem_of_ne_nil _ hb
  obtain ⟨k, hk, -⟩ := hfresh e he
  exact hnl k (List.mem_filterMap.2 ⟨e, he, hk⟩) (hl e (hsub.subset he) k hk)

/-! ## The order of commits -/

/-- Thread `t` of the run delivers the chunk. -/
def Delivers (P : Runtime) (es : List SysEvent) (t : ℕ) (rq : IngestRequest) : Prop :=
  ∃ th, (sAt P es es.length).threads[t]? = some th ∧ th.request = .ingest rq

/-- Thread `t` wrote segment number `i` of the store. -/
def Wrote (P : Runtime) (es : List SysEvent) (i t : ℕ) : Prop :=
  ∃ n inp, es[n]? = some (.tick t inp) ∧ (sAt P es n).srv.segments.length = i ∧
    (sAt P es (n + 1)).srv.segments.length = i + 1

/-- Thread `t` has been answered after `n` events. -/
def Over (P : Runtime) (es : List SysEvent) (n t : ℕ) : Prop :=
  ∃ th a, (sAt P es n).threads[t]? = some th ∧ th.answer P = some a

/-- The two chunks are of one job, the first of a lower number. -/
structure IngestRequest.Before (rq rq' : IngestRequest) : Prop where
  pid : rq.pid = rq'.pid
  loadId : rq.loadId = rq'.loadId
  jobId : rq.jobId = rq'.jobId
  seq : ∃ a b : ℕ, rq.seq = a.repr ∧ rq'.seq = b.repr ∧ a < b

/-- The threads in `C` deliver chunks one after another: when a chunk is there, the deliveries
of the chunks before it have been answered, or their rows have all landed. -/
def InTurn (P : Runtime) (es : List SysEvent) (C : ℕ → Prop) : Prop :=
  ∀ n t t' rq rq', C t → C t' → Delivers P es t rq → Delivers P es t' rq' → rq.Before rq' →
    t' < (sAt P es n).threads.length → Over P es n t ∨ Landed (sAt P es n).srv rq

theorem Delivers.eq {n t : ℕ} {th : Thread} (hd : Delivers P es t rq) (ht : (sAt P es n).threads[t]? = some th) :
    th.request = .ingest rq := by
  obtain ⟨th₁, h₁, hq⟩ := hd
  rcases Nat.le_total n es.length with hn | hn
  · obtain ⟨th₂, h₂, hq₂, -⟩ := thread_mono hn ht
    rw [h₁] at h₂
    cases h₂
    exact hq₂.symm.trans hq
  · rw [sAt_of_length_le hn, h₁] at ht
    cases ht
    exact hq

/-- The event at which a thread wrote a segment. -/
theorem Wrote.commit {i t : ℕ} (h : Wrote P es i t) : ∃ n rq crash v b beginMs,
    (sAt P es n).threads[t]? = some (.ingest rq crash (.commit v b beginMs)) ∧ b.kept ≠ [] ∧
    (sAt P es n).srv.segments.length = i ∧ (sAt P es (n + 1)).srv.segments.length = i + 1 := by
  obtain ⟨n, inp, he, hi, hi'⟩ := h
  obtain ⟨hn, he⟩ := List.getElem?_eq_some_iff.1 he
  have hstep := hi'
  rw [sAt_succ hn, he] at hstep
  cases ht : (sAt P es n).threads[t]? with
  | none =>
    simp only [Sys.step, ht] at hstep
    omega
  | some th =>
    simp only [Sys.step, ht] at hstep
    have hne : (th.step P inp (sAt P es n).srv).1.segments.length ≠ (sAt P es n).srv.segments.length := by omega
    obtain ⟨rq, crash, v, b, beginMs, rfl, hb⟩ := commit_of_grow hne
    exact ⟨n, rq, crash, v, b, beginMs, ht, hb, hi, hi'⟩

/-- **Chunks delivered one after another are committed in order.** -/
theorem inTurn_order (hes : IdsOk es) (hcrash : MarksOk es) {C : ℕ → Prop} (hC : InTurn P es C)
    {i i' t t' : ℕ} {rq' : IngestRequest} (ht : C t) (ht' : C t') (hd : Delivers P es t rq)
    (hd' : Delivers P es t' rq') (hlt : rq.Before rq') (hw : Wrote P es i t) (hw' : Wrote P es i' t') : i < i' := by
  obtain ⟨n, rq₁, crash, v, b, beginMs, hth, hb, hi, hi₁⟩ := hw.commit
  obtain ⟨n', rq₂, crash', v', b', beginMs', hth', -, hi', hi₂⟩ := hw'.commit
  by_contra hle
  -- the later chunk was there before the earlier one was committed
  have hnn : n' ≤ n := by
    by_contra hlt
    have hgrow : (sAt P es (n + 1)).srv.segments <+: (sAt P es n').srv.segments := segments_grow (by omega)
    have := hgrow.length_le
    omega
  rcases hC n' t t' rq rq' ht ht' hd hd' hlt (List.getElem?_eq_some_iff.1 hth').1 with
    ⟨th, a, hth₁, ha⟩ | hl
  · obtain ⟨th₂, hth₂, -, hans⟩ := thread_mono hnn hth₁
    rw [hth] at hth₂
    cases hth₂
    rw [← hans a ha] at ha
    cases ha
  · have hq := hd.eq hth
    cases hq
    exact commit_not_landed hes hcrash hth hb fun e he k hk => landed_mono (segments_grow hnn) (hl e he k hk)

end

end Matterbeam
