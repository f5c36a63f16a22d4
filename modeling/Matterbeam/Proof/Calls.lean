import Matterbeam.Model.Client

/-!
# The exchanges of a call

What a call over the HTTP transport can have asked and been answered, when it returns.
Nothing here depends on who answers.

* `conv_requestLoop`: **a request is sent again only after a lock contention**, the same
  every time, and no more often than allowed.
* `talk_ok`: a call that returns has been answered with a success.
* `talk_ensurePid`: resolving the identity, once and for all.
* `talk_sendEach`: a job that returns has had every chunk acknowledged, in order.
* `spec_prog`: what a call can ask at all, and what it leaves of its client.
* `conv_job`: a job sends its chunks in order, each after the last was answered.
-/

namespace Matterbeam

open Prog

section

variable {P : Runtime} {T : HttpTransport} {rq : Request} {l : List (Request × Answer)}

/-! ## Requests -/

/-- Where a request can be, after `contended` answers that were lock contentions. -/
inductive RequestAt (P : Runtime) (T : HttpTransport) (rq : Request) (n : ℕ) (contended : List Response) :
    List (Request × Answer) → Prog Request Answer (Except PyError (Option Response)) → Prop
  | sending {k : Answer → Prog Request Answer (Except PyError (Option Response))} (h : contended.length < n) :
      RequestAt P T rq n contended [] (.call rq k)
  | gaveUp (h : contended.length = n) : RequestAt P T rq n contended []
      (.ret (.error (.destinationTerminal
        (HttpTransport.label rq ++ ": gave up after " ++ T.max409Retries.repr ++ "x lock_contention"))))
  | broken (h : contended.length < n) :
      RequestAt P T rq n contended [(rq, .broken)] (.ret (.error .connectionError))
  | settled {r : Response} (h : contended.length < n) (hc : HttpTransport.isContention r = false) :
      RequestAt P T rq n contended [(rq, .reply r)] (.ret (HttpTransport.settle P rq r))

/-- **The request loop**: lock contentions, each of them followed by the same request, then a
broken connection or another response, after which nothing is sent. -/
theorem conv_requestLoop {n : ℕ} {p : Prog Request Answer (Except PyError (Option Response))}
    (h : Conv (T.requestLoop P rq n) l p) :
    ∃ contended last, l = contended.map (fun c => (rq, Answer.reply c)) ++ last ∧
      (∀ c ∈ contended, HttpTransport.isContention c = true) ∧ RequestAt P T rq n contended last p := by
  induction n generalizing l with
  | zero =>
    cases h
    exact ⟨[], [], rfl, by simp, .gaveUp rfl⟩
  | succ n ih =>
    cases h with
    -- nothing was answered yet
    | nil => exact ⟨[], [], rfl, by simp, .sending (by simp)⟩
    | call _ _ a h₁ =>
      cases a with
      | broken =>
        cases h₁
        exact ⟨[], _, rfl, by simp, .broken (by simp)⟩
      | reply r =>
        simp only at h₁
        by_cases hc : HttpTransport.isContention r = true
        · rw [if_pos hc] at h₁
          -- a contention, and the same request again
          obtain ⟨contended, last, rfl, hall, hend⟩ := ih h₁
          refine ⟨r :: contended, last, rfl, List.forall_mem_cons.2 ⟨hc, hall⟩, ?_⟩
          cases hend with
          | sending hn => exact .sending (by simpa using hn)
          | gaveUp hn => exact .gaveUp (by simp [hn])
          | broken hn => exact .broken (by simpa using hn)
          | settled hn hr => exact .settled (by simpa using hn) hr
        · rw [if_neg hc] at h₁
          cases h₁
          exact ⟨[], _, rfl, by simp, .settled (by simp) (by simpa using hc)⟩

/-- What `_request` makes of a response that is not retried. -/
theorem settle_cases (P : Runtime) (rq : Request) (r : Response) :
    (r.status = 409 ∧ ∃ detail, HttpTransport.settle P rq r = .error (.conflict (conflictReason r) detail)) ∨
    (r.status = 404 ∧ HttpTransport.settle P rq r = .ok none) ∨
    (r.status ≠ 404 ∧ r.status < 400 ∧ HttpTransport.settle P rq r = .ok (some r)) ∨
    (400 ≤ r.status ∧ ∃ e, HttpTransport.settle P rq r = .error e ∧ ∀ reason detail, e ≠ .conflict reason detail) := by
  unfold HttpTransport.settle
  split_ifs with h₁ h₂ h₃ h₄
  · exact Or.inl ⟨h₁, _, rfl⟩
  · exact Or.inr (Or.inl ⟨h₂, rfl⟩)
  · exact Or.inr (Or.inr (Or.inr ⟨by omega, _, rfl, by simp⟩))
  · exact Or.inr (Or.inr (Or.inr ⟨h₄, _, rfl, by simp⟩))
  · exact Or.inr (Or.inr (Or.inl ⟨h₂, by omega, rfl⟩))

/-- A response that `_request` returns is a success. -/
theorem settle_some {r r' : Response} (h : HttpTransport.settle P rq r = .ok (some r')) :
    r' = r ∧ r.status ≠ 409 ∧ r.status ≠ 404 ∧ r.status < 400 := by
  rcases settle_cases P rq r with ⟨-, d, he⟩ | ⟨-, he⟩ | ⟨hne, hlt, he⟩ | ⟨-, e, he, -⟩
  · rw [he] at h; cases h
  · rw [he] at h; cases h
  · rw [he] at h
    cases h
    exact ⟨rfl, by omega, hne, hlt⟩
  · rw [he] at h; cases h

/-- **A call that was given a response** has asked nothing but its request, and its last
answer was that response, a success. -/
theorem talk_ok {r : Response} (h : Talk (T.terminalOnConflict P rq) l (.ok (some r))) :
    (∀ x ∈ l, x.1 = rq) ∧ (rq, Answer.reply r) ∈ l ∧ r.status ≠ 409 ∧ r.status ≠ 404 ∧ r.status < 400 := by
  obtain ⟨l₁, l₂, res, rfl, h₁, h₂⟩ := talk_bind.1 h
  obtain ⟨rfl, he⟩ := talk_ret.1 h₂
  have hres : res = .ok (some r) := by
    cases res with
    | ok o => exact he.symm
    | error e => cases e <;> cases he
  subst hres
  obtain ⟨contended, last, rfl, -, hend⟩ := conv_requestLoop h₁
  generalize hok : Prog.ret (Except.ok (some r)) = p at hend
  cases hend with
  | sending h => cases hok
  | gaveUp h => cases hok
  | broken h => cases hok
  | settled h hc =>
    obtain ⟨rfl, hs⟩ := settle_some (Prog.ret.inj hok).symm
    refine ⟨fun x hx => ?_, by simp, hs⟩
    rw [List.append_nil, List.mem_append] at hx
    rcases hx with hx | hx
    · obtain ⟨c, -, rfl⟩ := List.mem_map.1 hx
      rfl
    · rw [List.mem_singleton.1 hx]

/-! ## The calls of the transport -/

/-- A chunk that was sent has been acknowledged. -/
theorem talk_sendChunk {c : Chunk} {pid : Option String} {key : Json}
    (h : Talk (T.sendChunk P c pid) l (.ok key)) :
    ∃ lines r, buildWireRecords c.keys c.hardDelete c.rows = .ok lines ∧
      (∀ x ∈ l, x.1 = .ingest (HttpTransport.ingestRequest c pid lines)) ∧
      (Request.ingest (HttpTransport.ingestRequest c pid lines), Answer.reply r) ∈ l ∧
      r.status ≠ 409 ∧ r.status ≠ 404 ∧ r.status < 400 := by
  unfold HttpTransport.sendChunk at h
  cases hl : buildWireRecords c.keys c.hardDelete c.rows with
  | error e => rw [hl] at h; obtain ⟨-, he⟩ := talk_ret.1 h; cases he
  | ok lines =>
    rw [hl] at h
    obtain ⟨l₁, l₂, res, rfl, h₁, h₂⟩ := talk_bind.1 h
    obtain ⟨rfl, he⟩ := talk_ret.1 h₂
    cases res with
    | error e => cases he
    | ok o => cases o with
      | none => cases he
      | some r =>
        rw [List.append_nil]
        exact ⟨lines, r, rfl, talk_ok h₁⟩

end

/-! ## The client -/

/-- A client over the HTTP transport. -/
def IsHttp (P : Runtime) (cl : JobClient Request Answer) : Prop :=
  ∃ T : HttpTransport, cl.transport = T.transport P

section

variable {P : Runtime} {cl cl' : JobClient Request Answer} {l : List (Request × Answer)}
  {active : Option String}

/-- The client differs at most in its identity, which does not change once it is resolved. -/
structure SameClient (cl cl' : JobClient Request Answer) : Prop where
  transport : cl'.transport = cl.transport
  config : cl'.config = cl.config
  schemaName : cl'.schemaName = cl.schemaName
  pid : cl.pidResolved = true → cl'.pid = cl.pid ∧ cl'.pidResolved = true

theorem SameClient.refl (cl : JobClient Request Answer) : SameClient cl cl := ⟨rfl, rfl, rfl, fun h => ⟨rfl, h⟩⟩

theorem SameClient.trans {a b c : JobClient Request Answer} (h : SameClient a b) (h' : SameClient b c) :
    SameClient a c :=
  ⟨h'.transport.trans h.transport, h'.config.trans h.config, h'.schemaName.trans h.schemaName, fun hr =>
    ⟨(h'.pid (h.pid hr).2).1.trans (h.pid hr).1, (h'.pid (h.pid hr).2).2⟩⟩

theorem SameClient.isHttp (h : SameClient cl cl') (hcl : IsHttp P cl) : IsHttp P cl' := by
  obtain ⟨T, hT⟩ := hcl
  exact ⟨T, h.transport.trans hT⟩

/-- **Resolving the identity** registers at most once, and not again. -/
theorem talk_ensurePid {key : String} {r : Except PyError (Option String)}
    (h : Talk (cl.ensurePid key) l (r, cl')) :
    SameClient cl cl' ∧ (∀ pid, r = .ok pid → cl'.pid = pid ∧ cl'.pidResolved = true) ∧
      (cl.pidResolved = true → l = [] ∧ cl' = cl ∧ r = .ok cl.pid) ∧
      (cl.pidResolved = false → Talk (cl.transport.register key cl.config.datasetName) l r) := by
  unfold JobClient.ensurePid at h
  by_cases hp : cl.pidResolved = true
  · -- a client that is resolved asks nothing
    rw [if_pos hp] at h
    obtain ⟨rfl, he⟩ := talk_ret.1 h
    cases he
    refine ⟨.refl cl, ?_, fun _ => ⟨rfl, rfl, rfl⟩, fun hf => ?_⟩
    · rintro pid he
      cases he
      exact ⟨rfl, hp⟩
    · rw [hp] at hf; cases hf
  · rw [if_neg hp] at h
    obtain ⟨l₁, l₂, r', rfl, h₁, h₂⟩ := talk_bind.1 h
    cases r' with
    | error e =>
      obtain ⟨rfl, he⟩ := talk_ret.1 h₂
      cases he
      refine ⟨.refl _, ?_, fun hr => absurd hr hp, fun _ => by simpa using h₁⟩
      rintro pid he
      cases he
    | ok pid =>
      obtain ⟨rfl, he⟩ := talk_ret.1 h₂
      cases he
      refine ⟨⟨rfl, rfl, rfl, fun hr => absurd hr hp⟩, ?_, fun hr => absurd hr hp, fun _ => by simpa using h₁⟩
      rintro pid' he
      cases he
      exact ⟨rfl, rfl⟩

theorem ensurePidFallback_eq (cl : JobClient Request Answer) (active : Option String) :
    cl.ensurePidFallback active = cl.ensurePid (cl.fallbackKey active) := by
  unfold JobClient.ensurePidFallback JobClient.ensurePid
  by_cases hp : cl.pidResolved = true <;> simp [hp]

/-- **A chunk sent by a client** that returned has been acknowledged under the client's pid. -/
theorem talk_client_sendChunk (hcl : IsHttp P cl) {c : Chunk} {key : Json}
    (h : Talk (cl.sendChunk active c) l (.ok key, cl')) :
    SameClient cl cl' ∧ cl'.pidResolved = true ∧
    ∃ lines r, buildWireRecords c.keys c.hardDelete c.rows = .ok lines ∧
      (Request.ingest (HttpTransport.ingestRequest c cl'.pid lines), Answer.reply r) ∈ l ∧
      r.status ≠ 409 ∧ r.status ≠ 404 ∧ r.status < 400 := by
  unfold JobClient.sendChunk at h
  rw [ensurePidFallback_eq] at h
  obtain ⟨l₁, l₂, ⟨res, cl₁⟩, rfl, h₁, h₂⟩ := talk_bind.1 h
  obtain ⟨hsame, hpid, -, -⟩ := talk_ensurePid h₁
  cases res with
  | error e => obtain ⟨-, he⟩ := talk_ret.1 h₂; cases he
  | ok pid =>
    obtain ⟨l₃, l₄, res', rfl, h₃, h₄⟩ := talk_bind.1 h₂
    obtain ⟨rfl, he⟩ := talk_ret.1 h₄
    cases he
    obtain ⟨T, hT⟩ := hsame.isHttp hcl
    rw [hT] at h₃
    obtain ⟨lines, r, hlines, -, hmem, hr⟩ := talk_sendChunk h₃
    exact ⟨hsame, (hpid pid rfl).2, lines, r, hlines,
      List.mem_append_right _ (List.mem_append_left _ hmem), hr⟩

/-- **A job that returned** has had every chunk acknowledged, under one pid. -/
theorem talk_sendEach (hcl : IsHttp P cl) {job : LoadJob} {config : Config} {cs : List (List Row)} {seq : ℕ}
    (h : Talk (job.sendEach active config cs seq cl) l (.ok (), cl')) :
    SameClient cl cl' ∧ ∀ i (hi : i < cs.length), ∃ lines r,
      buildWireRecords (keyFields job.table) (hardDeleteFields job.table) cs[i] = .ok lines ∧
      (Request.ingest (HttpTransport.ingestRequest (job.chunk config cs[i] (seq + i)) cl'.pid lines),
        Answer.reply r) ∈ l ∧ r.status ≠ 409 ∧ r.status ≠ 404 ∧ r.status < 400 := by
  induction cs generalizing seq cl l with
  | nil =>
    obtain ⟨rfl, he⟩ := talk_ret.1 h
    cases he
    exact ⟨.refl _, by simp⟩
  | cons c cs ih =>
    obtain ⟨l₁, l₂, ⟨res, cl₁⟩, rfl, h₁, h₂⟩ := talk_bind.1 h
    cases res with
    | error e => obtain ⟨-, he⟩ := talk_ret.1 h₂; cases he
    | ok key =>
      obtain ⟨hsame, hres, lines, r, hlines, hmem, hr⟩ := talk_client_sendChunk hcl h₁
      obtain ⟨hsame', hrest⟩ := ih (hsame.isHttp hcl) h₂
      refine ⟨hsame.trans hsame', fun i hi => ?_⟩
      cases i with
      | zero =>
        refine ⟨lines, r, hlines, List.mem_append_left _ ?_, hr⟩
        -- the pid of the first chunk is that of the others, too
        rw [(hsame'.pid hres).1]
        exact hmem
      | succ i =>
        obtain ⟨lines, r, hlines, hmem, hr⟩ := hrest i (by simpa using hi)
        refine ⟨lines, r, hlines, List.mem_append_right _ ?_, hr⟩
        have hseq : seq + (i + 1) = seq + 1 + i := by omega
        simpa only [List.getElem_cons_succ, hseq] using hmem

end

/-! ## A load job -/

section

variable {P : Runtime} {job : LoadJob} {rows : List Row}

/-- Sorting loses no row and makes none up. -/
theorem mem_rows (h : job.rows P = .ok rows) {row : Row} : row ∈ rows ↔ row ∈ job.fileRows P := by
  unfold LoadJob.rows sortRows at h
  split at h
  · cases h; rfl
  · rename_i col direction _
    dsimp only at h
    split at h
    · cases h
      simp only [List.mem_append, (List.perm_insertionSort _ _).mem_iff, List.mem_filter]
      by_cases hc : row.get col = .null <;> simp [hc]
    · cases h

/-- Every line of a chunk is the encoding of a row, and every row has one. -/
theorem mem_lines {keys hardDelete : List String} {lines : List Envelope}
    (h : buildWireRecords keys hardDelete rows = .ok lines) {row : Row} (hr : row ∈ rows) :
    ∃ e ∈ lines, buildWireRecord row keys hardDelete = .ok e := by
  induction rows generalizing lines with
  | nil => cases hr
  | cons row' rows ih =>
    simp only [buildWireRecords] at h
    cases he : buildWireRecord row' keys hardDelete with
    | error err => rw [he] at h; cases h
    | ok e =>
      cases hes : buildWireRecords keys hardDelete rows with
      | error err => rw [he, hes] at h; cases h
      | ok es =>
        rw [he, hes] at h
        cases h
        rcases List.mem_cons.1 hr with rfl | hr
        · exact ⟨e, List.mem_cons_self, he⟩
        · obtain ⟨e', hm, he'⟩ := ih hes hr
          exact ⟨e', List.mem_cons_of_mem _ hm, he'⟩

variable {cl cl' : JobClient Request Answer} {l : List (Request × Answer)} {active : Option String}

/-- **A job that returned** has sent its chunks. -/
theorem talk_job (h : Talk ((Call.loadJob job).prog P active cl) l (.ok .unit, cl')) :
    ∃ rows, job.rows P = .ok rows ∧
      Talk (job.sendEach active cl.config (LoadJob.chunks P cl.config rows) 0 cl) l (.ok (), cl') := by
  obtain ⟨l₁, l₂, ⟨r, cl₁⟩, rfl, h₁, h₂⟩ := talk_bind.1 h
  obtain ⟨rfl, he⟩ := talk_ret.1 h₂
  cases r with
  | error e => cases he
  | ok u =>
    cases he
    unfold LoadJob.run at h₁
    cases hd : checkDisposition job.table with
    | error e => rw [hd] at h₁; obtain ⟨-, he⟩ := talk_ret.1 h₁; cases he
    | ok w =>
      cases hrows : job.rows P with
      | error e => rw [hd, hrows] at h₁; obtain ⟨-, he⟩ := talk_ret.1 h₁; cases he
      | ok rows =>
        rw [hd, hrows] at h₁
        rw [List.append_nil]
        refine ⟨rows, rfl, ?_⟩
        have h₃ := h₁
        dsimp only at h₃
        rwa [LoadJob.sendLoop_eq] at h₃

/-- The destination takes the table of a job that returned. -/
theorem taken_of_talk (h : Talk ((Call.loadJob job).prog P active cl) l (.ok .unit, cl')) :
    ∃ warning, checkDisposition job.table = .ok warning := by
  obtain ⟨l₁, l₂, ⟨r, cl₁⟩, -, h₁, h₂⟩ := talk_bind.1 h
  unfold LoadJob.run at h₁
  cases hd : checkDisposition job.table with
  | error e =>
    rw [hd] at h₁
    obtain ⟨-, he⟩ := talk_ret.1 h₁
    cases he
    obtain ⟨-, he⟩ := talk_ret.1 h₂
    cases he
  | ok w => exact ⟨w, rfl⟩

end

/-! ## What a call asks, and what it leaves of its client -/

section

variable {P : Runtime} {T : HttpTransport}

theorem spec_requestLoop (rq : Request) (n : ℕ) : (T.requestLoop P rq n).Spec (· = rq) fun _ => True := by
  induction n with
  | zero => trivial
  | succ n ih =>
    refine ⟨rfl, fun a => ?_⟩
    cases a with
    | broken => trivial
    | reply r =>
      dsimp only
      split
      · exact ih
      · trivial

theorem spec_request (rq : Request) : (T.request P rq).Spec (· = rq) fun _ => True := spec_requestLoop rq _

theorem spec_terminalOnConflict (rq : Request) : (T.terminalOnConflict P rq).Spec (· = rq) fun _ => True :=
  spec_bind (spec_request rq) fun _ _ => trivial

/-- The questions a call may ask: registrations, and its own. -/
inductive Asks (P : Runtime) (config : Config) : Call → Request → Prop
  | register (op : Call) (name datasetName : String) : Asks P config op (.register name datasetName)
  | job {job : LoadJob} {rows : List Row} (hrows : job.rows P = .ok rows) {i : ℕ} {c : List Row}
      (hc : (LoadJob.chunks P config rows)[i]? = some c) {lines : List Envelope}
      (hlines : buildWireRecords (keyFields job.table) (hardDeleteFields job.table) c = .ok lines)
      (pid : Option String) :
      Asks P config (.loadJob job) (.ingest (HttpTransport.ingestRequest (job.chunk config c i) pid lines))
  | chunk {c : Chunk} {lines : List Envelope} (hlines : buildWireRecords c.keys c.hardDelete c.rows = .ok lines)
      (pid : Option String) : Asks P config (.sendChunk c) (.ingest (HttpTransport.ingestRequest c pid lines))
  | stateJob {lines : List Line} {row : Row} (h : stateRow P.customPuaRemove lines none = .ok (some row))
      (pid : String) : Asks P config (.stateJob lines) (.putState pid (JobClient.stateDoc row))
  | put (row : Row) (pid : String) : Asks P config (.putDltState row) (.putState pid (JobClient.stateDoc row))
  | get (name pid : String) : Asks P config (.getStoredState name) (.getState pid)
  | complete (loadId : String) (pid : Option String) :
      Asks P config (.completeLoad loadId) (.completeLoad (HttpTransport.pidText pid) loadId)

variable {φ : Request → Prop} {cl : JobClient Request Answer} {active : Option String}

/-- The identity is resolved by registrations. -/
theorem spec_ensurePid (hcl : IsHttp P cl) (hreg : ∀ name ds, φ (.register name ds)) (key : String) :
    (cl.ensurePid key).Spec φ fun x => SameClient cl x.2 ∧ (x.1.isOk → x.2.pidResolved = true) := by
  obtain ⟨T, hT⟩ := hcl
  unfold JobClient.ensurePid
  by_cases hp : cl.pidResolved = true
  · rw [if_pos hp]
    exact ⟨.refl cl, fun _ => hp⟩
  · rw [if_neg hp, hT]
    refine spec_bind (ψ := fun _ => True) (spec_bind ((spec_terminalOnConflict _).imp ?_ fun _ h => h)
      fun _ _ => trivial) fun r _ => ?_
    · rintro _ rfl
      exact hreg _ _
    · cases r with
      | error e => exact ⟨.refl cl, fun h => by cases h⟩
      | ok pid => exact ⟨⟨hT.symm, rfl, rfl, fun h => absurd h hp⟩, fun _ => rfl⟩

/-- A chunk sent by a client asks for the chunk. -/
theorem spec_client_sendChunk (hcl : IsHttp P cl) (c : Chunk) (hreg : ∀ name ds, φ (.register name ds))
    (hc : ∀ lines pid, buildWireRecords c.keys c.hardDelete c.rows = .ok lines →
      (cl.pidResolved = true → pid = cl.pid) → φ (.ingest (HttpTransport.ingestRequest c pid lines))) :
    (cl.sendChunk active c).Spec φ fun x => SameClient cl x.2 := by
  unfold JobClient.sendChunk
  rw [ensurePidFallback_eq]
  refine spec_bind (spec_ensurePid hcl hreg _) ?_
  rintro ⟨r, cl'⟩ ⟨hsame, -⟩
  cases r with
  | error e => exact hsame
  | ok pid =>
    obtain ⟨T, hT⟩ := hsame.isHttp hcl
    refine spec_bind (ψ := fun _ => True) ?_ fun _ _ => hsame
    rw [hT]
    change (T.sendChunk P c cl'.pid).Spec φ _
    unfold HttpTransport.sendChunk
    cases hl : buildWireRecords c.keys c.hardDelete c.rows with
    | error e => trivial
    | ok lines =>
      refine spec_bind ((spec_terminalOnConflict _).imp ?_ fun _ h => h) fun _ _ => trivial
      rintro _ rfl
      exact hc lines _ hl fun hr => (hsame.pid hr).1

theorem spec_putDltState (hcl : IsHttp P cl) (row : Row) (hreg : ∀ name ds, φ (.register name ds))
    (hput : ∀ pid, φ (.putState pid (JobClient.stateDoc row))) :
    (cl.putDltState active row).Spec φ fun x => SameClient cl x.2 := by
  unfold JobClient.putDltState
  rw [ensurePidFallback_eq]
  refine spec_bind (spec_ensurePid hcl hreg _) ?_
  rintro ⟨r, cl'⟩ ⟨hsame, -⟩
  cases r with
  | error e => exact hsame
  | ok pid =>
    obtain ⟨T, hT⟩ := hsame.isHttp hcl
    dsimp only
    cases cl'.pid with
    | none => exact hsame
    | some pid =>
      refine spec_bind (ψ := fun _ => True) ?_ fun _ _ => hsame
      rw [hT]
      refine spec_bind ((spec_request _).imp ?_ fun _ h => h) fun _ _ => trivial
      rintro _ rfl
      exact hput pid

theorem spec_getStoredState (hcl : IsHttp P cl) (name : String) (hreg : ∀ name ds, φ (.register name ds))
    (hget : ∀ pid, φ (.getState pid)) :
    (cl.getStoredState name).Spec φ fun x => SameClient cl x.2 := by
  unfold JobClient.getStoredState
  refine spec_bind (spec_ensurePid hcl hreg _) ?_
  rintro ⟨r, cl'⟩ ⟨hsame, -⟩
  cases r with
  | error e => exact hsame
  | ok pid =>
    obtain ⟨T, hT⟩ := hsame.isHttp hcl
    dsimp only
    cases cl'.pid with
    | none => exact hsame
    | some pid =>
      refine spec_bind (ψ := fun _ => True) ?_ fun _ _ => hsame
      rw [hT]
      refine spec_bind ((spec_terminalOnConflict _).imp ?_ fun _ h => h) fun _ _ => trivial
      rintro _ rfl
      exact hget pid

theorem spec_completeLoad (hcl : IsHttp P cl) (loadId : String) (hreg : ∀ name ds, φ (.register name ds))
    (hdone : ∀ pid, φ (.completeLoad (HttpTransport.pidText pid) loadId)) :
    (cl.completeLoad active loadId).Spec φ fun x => SameClient cl x.2 := by
  unfold JobClient.completeLoad
  rw [ensurePidFallback_eq]
  refine spec_bind (spec_ensurePid hcl hreg _) ?_
  rintro ⟨r, cl'⟩ ⟨hsame, -⟩
  cases r with
  | error e => exact hsame
  | ok pid =>
    obtain ⟨T, hT⟩ := hsame.isHttp hcl
    refine spec_bind (ψ := fun _ => True) ?_ fun _ _ => hsame
    rw [hT]
    refine spec_bind ((spec_terminalOnConflict _).imp ?_ fun _ h => h) fun _ _ => trivial
    rintro _ rfl
    exact hdone _

/-- A job asks for its chunks. -/
theorem spec_sendEach (hcl : IsHttp P cl) {job : LoadJob} {config : Config} {cs : List (List Row)} {seq : ℕ}
    (hreg : ∀ name ds, φ (.register name ds))
    (hc : ∀ i c lines pid, cs[i]? = some c →
      buildWireRecords (keyFields job.table) (hardDeleteFields job.table) c = .ok lines →
      φ (.ingest (HttpTransport.ingestRequest (job.chunk config c (seq + i)) pid lines))) :
    (job.sendEach active config cs seq cl).Spec φ fun x => SameClient cl x.2 := by
  induction cs generalizing seq cl with
  | nil => exact .refl cl
  | cons c cs ih =>
    refine spec_bind (spec_client_sendChunk hcl _ hreg fun lines pid hl _ => hc 0 c lines pid rfl hl) ?_
    rintro ⟨r, cl'⟩ hsame
    cases r with
    | error e => exact hsame
    | ok key =>
      refine (ih (hsame.isHttp hcl) fun i c' lines pid hi hl => ?_).imp (fun _ h => h) fun _ h => hsame.trans h
      have := hc (i + 1) c' lines pid hi hl
      rwa [← Nat.add_assoc, Nat.add_right_comm] at this

/-- **What a call asks, and what it leaves of its client.** -/
theorem spec_prog (hcl : IsHttp P cl) (op : Call) :
    (op.prog P active cl).Spec (Asks P cl.config op) fun x => SameClient cl x.2 := by
  have hreg : ∀ op name ds, Asks P cl.config op (.register name ds) := Asks.register
  cases op with
  | loadJob job =>
    refine spec_bind (ψ := fun x => SameClient cl x.2) ?_ (by rintro ⟨_, _⟩ h; exact h)
    unfold LoadJob.run
    cases checkDisposition job.table with
    | error e => exact .refl cl
    | ok w =>
      cases hrows : job.rows P with
      | error e => exact .refl cl
      | ok rows =>
        dsimp only
        rw [LoadJob.sendLoop_eq]
        refine spec_sendEach hcl (hreg _) fun i c lines pid hc hl => ?_
        rw [Nat.zero_add]
        exact .job hrows hc hl pid
  | stateJob lines =>
    refine spec_bind (ψ := fun x => SameClient cl x.2) ?_ (by rintro ⟨_, _⟩ h; exact h)
    unfold stateJobRun
    cases hrow : stateRow P.customPuaRemove lines none with
    | error e => exact .refl cl
    | ok row => cases row with
      | none => exact .refl cl
      | some row => exact spec_putDltState hcl row (hreg _) (.stateJob hrow)
  | putDltState row =>
    exact spec_bind (spec_putDltState hcl row (hreg _) (.put row)) fun ⟨_, _⟩ h => h
  | getStoredState name =>
    exact spec_bind (spec_getStoredState hcl name (hreg _) (.get name)) fun ⟨_, _⟩ h => h
  | sendChunk c =>
    exact spec_bind (spec_client_sendChunk hcl c (hreg _) fun _ pid hl _ => .chunk hl pid) fun ⟨_, _⟩ h => h
  | completeLoad loadId =>
    exact spec_bind (spec_completeLoad hcl loadId (hreg _) (.complete loadId)) fun ⟨_, _⟩ h => h

end

/-! ## Answers that end a call -/

section

variable {P : Runtime} {T : HttpTransport} {cl : JobClient Request Answer} {active : Option String}
  {bad : Request → Answer → Prop} {E : PyError → Prop}

/-- An error in `E` has been raised. -/
def FailedAs (E : PyError → Prop) {α : Type} (r : Except PyError α) : Prop := ∃ e, E e ∧ r = .error e

/-- A bad answer makes a request raise an error in `E`. -/
def RaisesOn (P : Runtime) (bad : Request → Answer → Prop) (E : PyError → Prop) : Prop :=
  ∀ (T : HttpTransport) (rq : Request), (T.terminalOnConflict P rq).StopsOn bad (FailedAs E)

/-- What is done with a request that fails is not done. -/
theorem stops_after {α : Type} (hreq : RaisesOn P bad E) (rq : Request) {f : Except PyError (Option Response) → Except PyError α}
    (hf : ∀ e, f (.error e) = .error e) :
    (do let r ← T.terminalOnConflict P rq; return f r : Prog Request Answer (Except PyError α)).StopsOn bad (FailedAs E) := by
  refine stopsOn_bind (hreq T rq) (spec_terminalOnConflict _) (fun _ _ => trivial) ?_
  rintro _ ⟨e, he, rfl⟩
  exact ⟨_, rfl, e, he, hf e⟩

theorem stops_ensurePid (hreq : RaisesOn P bad E) (hcl : IsHttp P cl) (key : String) :
    (cl.ensurePid key).StopsOn bad fun x => FailedAs E x.1 := by
  obtain ⟨T, hT⟩ := hcl
  unfold JobClient.ensurePid
  split
  · trivial
  · rw [hT]
    have hspec : (T.register P key cl.config.datasetName).Spec (fun _ => True) fun _ => True :=
      spec_bind ((spec_terminalOnConflict _).imp (fun _ _ => trivial) fun _ h => h) fun _ _ => trivial
    refine stopsOn_bind (F := FailedAs E) (stops_after hreq _ fun _ => rfl) hspec ?_ ?_
    · intro r _
      cases r <;> trivial
    · rintro _ ⟨e, he, rfl⟩
      exact ⟨_, rfl, e, he, rfl⟩

theorem stops_client_sendChunk (hreq : RaisesOn P bad E) (hcl : IsHttp P cl) (c : Chunk) :
    (cl.sendChunk active c).StopsOn bad fun x => FailedAs E x.1 := by
  unfold JobClient.sendChunk
  rw [ensurePidFallback_eq]
  refine stopsOn_bind (stops_ensurePid hreq hcl _)
    (spec_ensurePid (φ := fun _ => True) hcl (fun _ _ => trivial) _) ?_ ?_
  · rintro ⟨r, cl'⟩ ⟨hsame, -⟩
    cases r with
    | error e => trivial
    | ok pid =>
      obtain ⟨T, hT⟩ := hsame.isHttp hcl
      dsimp only
      rw [hT]
      change (T.sendChunk P c cl'.pid >>= fun r => ret (r, cl')).StopsOn _ _
      unfold HttpTransport.sendChunk
      cases buildWireRecords c.keys c.hardDelete c.rows with
      | error e => trivial
      | ok lines =>
        refine stopsOn_bind (F := FailedAs E) (stops_after hreq _ fun _ => rfl) (spec_bind (χ := fun _ => True)
          (spec_terminalOnConflict _) fun _ _ => trivial) (fun _ _ => trivial) ?_
        rintro _ ⟨e, he, rfl⟩
        exact ⟨_, rfl, e, he, rfl⟩
  · rintro ⟨_, cl'⟩ ⟨e, he, rfl⟩
    exact ⟨_, rfl, e, he, rfl⟩

/-- **A job raises at once** when one of its requests does. -/
theorem stops_sendEach (hreq : RaisesOn P bad E) (hcl : IsHttp P cl) {job : LoadJob} {config : Config}
    (cs : List (List Row)) (seq : ℕ) : (job.sendEach active config cs seq cl).StopsOn bad fun x => FailedAs E x.1 := by
  induction cs generalizing seq cl with
  | nil => trivial
  | cons c cs ih =>
    refine stopsOn_bind (stops_client_sendChunk hreq hcl _) (spec_client_sendChunk (φ := fun _ => True) hcl _
      (fun _ _ => trivial) fun _ _ _ _ => trivial) ?_ ?_
    · rintro ⟨r, cl'⟩ hsame
      cases r with
      | error e => trivial
      | ok key => exact ih (hsame.isHttp hcl) _
    · rintro ⟨_, cl'⟩ ⟨e, he, rfl⟩
      exact ⟨_, rfl, e, he, rfl⟩

/-! ### Broken connections -/

/-- The answer is a broken connection. -/
def LostConnection (_ : Request) (a : Answer) : Prop := a = .broken

/-- A call has raised. -/
def Raised {α : Type} (x : Except PyError α × JobClient Request Answer) : Prop := ∃ e, x.1 = .error e

/-- A lost connection is raised. -/
theorem raisesOn_lost : RaisesOn P LostConnection fun _ => True := by
  intro T rq
  have hloop : ∀ n, (T.requestLoop P rq n).StopsOn LostConnection fun r => r = .error .connectionError := by
    intro n
    induction n with
    | zero => trivial
    | succ n ih =>
      intro a
      cases a with
      | broken => exact ⟨trivial, fun _ => ⟨_, rfl, rfl⟩⟩
      | reply r =>
        refine ⟨?_, fun h => by cases h⟩
        dsimp only
        split
        · exact ih
        · trivial
  refine stopsOn_bind (hloop _) (spec_request rq) (fun _ _ => trivial) ?_
  rintro _ rfl
  exact ⟨_, rfl, _, trivial, rfl⟩

/-- **A job that loses a connection raises at once.** -/
theorem stops_lost (hcl : IsHttp P cl) {job : LoadJob} {config : Config} (cs : List (List Row)) (seq : ℕ) :
    (job.sendEach active config cs seq cl).StopsOn LostConnection Raised :=
  (stops_sendEach raisesOn_lost hcl cs seq).imp (fun _ _ => id) fun _ ⟨e, _, he⟩ => ⟨e, he⟩

/-! ### Conflicts -/

/-- The answer is a conflict, for this reason. -/
def Told (reason : String) (a : Answer) : Prop :=
  ∃ rsp, a = .reply rsp ∧ rsp.status = 409 ∧ conflictReason rsp = .str reason

/-- A conflict that is no lock contention is not tried again. -/
theorem stops_request_told {reason : String} (hne : reason ≠ "lock_contention") (rq : Request) :
    (T.request P rq).StopsOn (fun _ => Told reason) fun r => ∃ detail, r = .error (.conflict (.str reason) detail) := by
  have hloop : ∀ n, (T.requestLoop P rq n).StopsOn (fun _ => Told reason) fun r =>
      ∃ detail, r = .error (.conflict (.str reason) detail) := by
    intro n
    induction n with
    | zero => trivial
    | succ n ih =>
      intro a
      cases a with
      | broken => exact ⟨trivial, fun ⟨rsp, h, _⟩ => by cases h⟩
      | reply r =>
        dsimp only
        by_cases hc : HttpTransport.isContention r = true
        · rw [if_pos hc]
          refine ⟨ih, fun ⟨rsp, h, _, hr⟩ => ?_⟩
          cases h
          -- the reason is not a lock contention
          have hlock : conflictReason r = .str "lock_contention" := of_decide_eq_true (Bool.and_eq_true_iff.1 hc).2
          rw [hr] at hlock
          exact absurd (Json.str.inj hlock) hne
        · rw [if_neg hc]
          refine ⟨trivial, fun ⟨rsp, h, h409, hr⟩ => ⟨_, rfl, ?_⟩⟩
          cases h
          unfold HttpTransport.settle
          rw [if_pos h409, hr]
          exact ⟨_, rfl⟩
  exact hloop _

/-- A chunk of a job was sent and answered with a success. -/
def AckedChunk (l : List (Request × Answer)) (pid loadId jobId : String) (a : ℕ) : Prop :=
  ∃ rq rsp, (Request.ingest rq, Answer.reply rsp) ∈ l ∧ rsp.status < 400 ∧
    rq.pid = pid ∧ rq.loadId = loadId ∧ rq.jobId = jobId ∧ rq.seq = a.repr

/-- The job is about to send chunk `b`: none of a higher number was sent before, all that was
sent was answered, and the chunks from `first` on were acknowledged. -/
structure AtChunk (job : LoadJob) (l : List (Request × Answer)) (first : ℕ) (rq : IngestRequest) (b : ℕ) :
    Prop where
  le : first ≤ b
  seq : rq.seq = b.repr
  loadId : rq.loadId = job.loadId
  jobId : rq.jobId = job.jobId
  answered : ∀ x ∈ l, x.2 ≠ .broken
  before : ∀ x ∈ l, ∀ rq', x.1 = .ingest rq' → ∃ a, a ≤ b ∧ rq'.seq = a.repr
  acked : ∀ a, first ≤ a → a < b → AckedChunk l rq.pid job.loadId job.jobId a

/-- **A job that sends a chunk** has had all the chunks before it acknowledged. -/
theorem conv_sendEach (hcl : IsHttp P cl) {job : LoadJob} {config : Config} {cs : List (List Row)} {seq : ℕ}
    {l : List (Request × Answer)} {rq : IngestRequest}
    {k : Answer → Prog Request Answer (Except PyError Unit × JobClient Request Answer)}
    (h : Conv (job.sendEach active config cs seq cl) l (.call (.ingest rq) k)) :
    (cl.pidResolved = true → rq.pid = HttpTransport.pidText cl.pid) ∧ ∃ b, AtChunk job l seq rq b := by
  have hstop := StopsOn.conv (stops_lost hcl cs seq) h (by simp)
  induction cs generalizing seq cl l with
  | nil => cases h
  | cons c cs ih =>
    -- the chunk itself is sent under one number
    have hfirst : (cl.sendChunk active (job.chunk config c seq)).Spec
        (fun q => ∀ rq', q = .ingest rq' → rq'.seq = seq.repr ∧ rq'.loadId = job.loadId ∧
          rq'.jobId = job.jobId ∧ (cl.pidResolved = true → rq'.pid = HttpTransport.pidText cl.pid))
        fun x => SameClient cl x.2 := by
      refine spec_client_sendChunk hcl _ (fun _ _ _ h => by cases h) fun lines pid _ hp rq' h => ?_
      cases h
      exact ⟨rfl, rfl, rfl, fun hr => congrArg HttpTransport.pidText (hp hr)⟩
    rcases conv_bind h with ⟨k', h₁⟩ | ⟨l₁, l₂, ⟨r, cl₁⟩, rfl, h₁, h₂⟩
    · obtain ⟨hl, hq, -⟩ := hfirst.conv h₁
      obtain ⟨hs, hli, hji, hp⟩ := hq rq rfl
      exact ⟨hp, seq, le_rfl, hs, hli, hji, hstop, fun x hx rq' hx' => ⟨seq, le_rfl, (hl x hx rq' hx').1⟩,
        fun a h₁ h₂ => by omega⟩
    · obtain ⟨hl, hsame⟩ := hfirst.conv h₁
      cases r with
      | error e => cases h₂
      | ok key =>
        obtain ⟨-, hres, lines, rsp, -, hmem, -, -, hrsp⟩ := talk_client_sendChunk hcl h₁
        obtain ⟨hp, b, hb⟩ := ih (hsame.isHttp hcl) h₂ fun x hx => hstop x (List.mem_append_right _ hx)
        have hpid := hp hres
        refine ⟨fun hr => ?_, b, by have := hb.le; omega, hb.seq, hb.loadId, hb.jobId, hstop, fun x hx rq' hx' => ?_,
          fun a ha hab => ?_⟩
        · rw [hpid, (hsame.pid hr).1]
        · rcases List.mem_append.1 hx with hx | hx
          · exact ⟨seq, by have := hb.le; omega, (hl x hx rq' hx').1⟩
          · exact hb.before x hx rq' hx'
        · rcases Nat.eq_or_lt_of_le ha with rfl | hlt
          · exact ⟨_, rsp, List.mem_append_left _ hmem, hrsp, hpid.symm, rfl, rfl, rfl⟩
          · obtain ⟨rq₀, rsp₀, hm, hrest⟩ := hb.acked a hlt hab
            exact ⟨rq₀, rsp₀, List.mem_append_right _ hm, hrest⟩

theorem conv_job (hcl : IsHttp P cl) {job : LoadJob} {l : List (Request × Answer)} {rq : IngestRequest}
    {k : Answer → Prog Request Answer (Except PyError Val × JobClient Request Answer)}
    (h : Conv ((Call.loadJob job).prog P active cl) l (.call (.ingest rq) k)) : ∃ b, AtChunk job l 0 rq b := by
  rcases conv_bind h with ⟨k', h₁⟩ | ⟨l₁, l₂, ⟨r, cl₁⟩, rfl, h₁, h₂⟩
  · unfold LoadJob.run at h₁
    cases hd : checkDisposition job.table with
    | error e => rw [hd] at h₁; cases h₁
    | ok w =>
      cases hrows : job.rows P with
      | error e => rw [hd, hrows] at h₁; cases h₁
      | ok rows =>
        rw [hd, hrows] at h₁
        have h₃ := h₁
        dsimp only at h₃
        rw [LoadJob.sendLoop_eq] at h₃
        exact (conv_sendEach hcl h₃).2
  · cases h₂

end

end Matterbeam
