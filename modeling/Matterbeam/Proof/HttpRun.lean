import Matterbeam.Proof.Chunks
import Matterbeam.Proof.FileRun

/-!
# Load jobs over the HTTP transport

A single run of a load job against the server, with no other client about and no crash:
each request of the job is handled to its end before the job goes on.

* `serve`: the server as the handler of such a run.
* `request_serve`: a request that is answered with a success.
* `sendEach_serve`: **the run of a job is the delivery of its chunks**, one after another.
-/

namespace Matterbeam

open Function Prog

/-- The server with no other client about: a request is handled to its end, with the inputs of its
number, and answered. -/
def serve (P : Runtime) (inp : ℕ → Inputs) (s : Sys) (rq : Request) : Sys × Answer :=
  (s.deliver P rq (inp s.threads.length),
    (((s.deliver P rq (inp s.threads.length)).threads[s.threads.length]?).bind (Thread.answer P)).getD .broken)

section

variable {P : Runtime} {inp : ℕ → Inputs} {s : Sys}

/-- A chunk is served by one run of `ingest`. -/
theorem serve_ingest {rq : IngestRequest} {srv' : Server} {out : Outcome}
    (h : s.srv.ingest rq (inp s.threads.length) = (srv', .done out)) :
    serve P inp s (.ingest rq) = (s.deliver P (.ingest rq) (inp s.threads.length), postAnswer P out) := by
  unfold serve
  rw [deliver_ingest, h, List.getElem?_concat_length]
  rfl

/-- Ticks of a request that is answered do nothing. -/
theorem Sys.run_answered (rq : Request) (a : Answer) (i : Inputs) (n : ℕ) (srv : Server) :
    Sys.run P (List.replicate n (.tick s.threads.length i)) ⟨srv, s.threads ++ [.once rq (some a)]⟩ =
      ⟨srv, s.threads ++ [.once rq (some a)]⟩ := by
  induction n with
  | zero => rfl
  | succ n ih =>
    have hstep : Sys.step P ⟨srv, s.threads ++ [.once rq (some a)]⟩ (.tick s.threads.length i) =
        ⟨srv, s.threads ++ [.once rq (some a)]⟩ := by
      unfold Sys.step
      simp [Thread.step]
    unfold Sys.run at ih ⊢
    rw [List.replicate_succ, List.foldl_cons, hstep]
    exact ih

/-- A registration is served in one step. -/
theorem serve_register {name datasetName : String} {srv' : Server} {a : Answer}
    (h : onceStep P (inp s.threads.length) s.srv (.register name datasetName) = (srv', some a)) :
    serve P inp s (.register name datasetName) =
      (⟨srv', s.threads ++ [.once (.register name datasetName) (some a)]⟩, a) := by
  have hspawn : ∀ i, Sys.run P (.spawn (.register name datasetName) none :: List.replicate 11 i) s =
      Sys.run P (List.replicate 10 i) (Sys.step P ⟨s.srv, s.threads ++ [.once (.register name datasetName) none]⟩ i) :=
    fun _ => rfl
  have hstep : Sys.step P ⟨s.srv, s.threads ++ [.once (.register name datasetName) none]⟩
      (.tick s.threads.length (inp s.threads.length)) =
        ⟨srv', s.threads ++ [.once (.register name datasetName) (some a)]⟩ := by
    unfold Sys.step
    simp [Thread.step, h]
  have hrun : s.deliver P (.register name datasetName) (inp s.threads.length) =
      ⟨srv', s.threads ++ [.once (.register name datasetName) (some a)]⟩ := by
    unfold Sys.deliver
    rw [hspawn, hstep, Sys.run_answered]
  unfold serve
  rw [hrun, List.getElem?_concat_length]
  rfl

/-! ## Requests that succeed -/

variable {T : HttpTransport}

/-- **A request that is answered with a success** is not repeated, and its answer is handed on. -/
theorem request_serve (hT : 0 < T.max409Retries) {s' : Sys} {rq : Request} {body : Json}
    (h : serve P inp s rq = (s', jsonReply P 200 body)) :
    (T.terminalOnConflict P rq).exec (serve P inp) s = (s', .ok (some ⟨200, some body, P.dumps body⟩)) := by
  obtain ⟨n, hn⟩ : ∃ n, T.max409Retries = n + 1 := Nat.exists_eq_succ_of_ne_zero hT.ne'
  unfold HttpTransport.terminalOnConflict HttpTransport.request
  rw [exec_bind, hn, HttpTransport.requestLoop, exec_call, h]
  rfl

/-- Registration. -/
theorem register_serve (hT : 0 < T.max409Retries) {s' : Sys} {name datasetName pid : String} {created : Bool}
    (h : serve P inp s (.register name datasetName) = (s', registered P pid name created)) :
    (T.register P name datasetName).exec (serve P inp) s = (s', .ok (some pid)) := by
  unfold HttpTransport.register
  rw [exec_bind, request_serve hT h]
  rfl

/-- A chunk that is taken. -/
theorem sendChunk_serve (P : Runtime) (inp : ℕ → Inputs) (hT : 0 < T.max409Retries) (c : Chunk)
    (pid : Option String) {lines : List Envelope}
    (hlines : buildWireRecords c.keys c.hardDelete c.rows = .ok lines)
    (h : s.srv.Takes (HttpTransport.ingestRequest c pid lines)) :
    ∃ key, (T.sendChunk P c pid).exec (serve P inp) s =
      (s.deliver P (.ingest (HttpTransport.ingestRequest c pid lines)) (inp s.threads.length), .ok key) := by
  obtain ⟨srv', he, -⟩ := ingest_taken h (inp s.threads.length)
  have hs := serve_ingest (P := P) he
  unfold HttpTransport.sendChunk
  rw [hlines]
  generalize s.deliver P (.ingest (HttpTransport.ingestRequest c pid lines)) (inp s.threads.length) = s' at hs ⊢
  change ∃ key, Prog.exec _ (T.terminalOnConflict P _ >>= _) s = _
  rw [exec_bind, request_serve hT hs]
  exact ⟨_, rfl⟩

end

/-! ## The requests of a job -/

/-- The lines of a chunk's request. -/
def wireLines (keys hardDelete : List String) (rows : List Row) : List Envelope :=
  match buildWireRecords keys hardDelete rows with
  | .ok lines => lines
  | .error _ => []

namespace LoadJob

theorem exists_chunkFrom (P : Runtime) (config : Config) (rows pending : List Row) (pendingBytes : ℕ) :
    ∃ c cs, chunksFrom P config rows pending pendingBytes 0 = c :: cs := by
  induction rows generalizing pending pendingBytes with
  | nil =>
    unfold chunksFrom
    rw [if_pos (Or.inr rfl)]
    exact ⟨_, _, rfl⟩
  | cons row rows ih =>
    unfold chunksFrom
    split
    · exact ⟨_, _, rfl⟩
    · exact ih _ _

/-- Every run sends a chunk. -/
theorem exists_chunk (P : Runtime) (config : Config) (rows : List Row) :
    ∃ c cs, chunks P config rows = c :: cs := exists_chunkFrom P config rows [] 0

variable (job : LoadJob) (pid : String)

/-- The request of chunk number `seq`. -/
def request (rows : List Row) (seq : ℕ) : IngestRequest where
  pid := pid
  table := job.table.name
  loadId := job.loadId
  jobId := job.jobId
  seq := seq.repr
  lines := wireLines (keyFields job.table) (hardDeleteFields job.table) rows

/-- The requests of the chunks, from number `seq` on. -/
def requests : List (List Row) → ℕ → List IngestRequest
  | [], _ => []
  | c :: cs, seq => job.request pid c seq :: requests cs (seq + 1)

/-- The ledger key of chunk number `n`. -/
def lkey (n : ℕ) : String := pid ++ "|" ++ job.loadId ++ "|" ++ job.jobId ++ "|" ++ n.repr

@[simp] theorem request_lkey (rows : List Row) (n : ℕ) : (job.request pid rows n).lkey = job.lkey pid n := rfl

theorem lkey_ne {m n : ℕ} (h : m ≠ n) : job.lkey pid m ≠ job.lkey pid n := by
  unfold lkey
  exact fun he => h (Decimal.repr_inj ((String.append_right_inj _).1 he))

/-- The lines of a chunk can be built, and their ids looked up. -/
def Sendable (rows : List Row) : Prop :=
  (∃ lines, buildWireRecords (keyFields job.table) (hardDeleteFields job.table) rows = .ok lines) ∧
    (job.request pid rows 0).lines.all Envelope.hashable = true

variable {job pid}

theorem Sendable.lines {rows : List Row} (h : job.Sendable pid rows) :
    buildWireRecords (keyFields job.table) (hardDeleteFields job.table) rows =
      .ok (wireLines (keyFields job.table) (hardDeleteFields job.table) rows) := by
  obtain ⟨lines, hl⟩ := h.1
  unfold wireLines
  rw [hl]

/-- All of the chunks are taken, if none has been. -/
theorem takenOf_requests {entered : String → Bool} {cs : List (List Row)} (hcs : ∀ c ∈ cs, job.Sendable pid c)
    {seq : ℕ} (hnew : ∀ n, seq ≤ n → entered (job.lkey pid n) = false) :
    takenOf entered (job.requests pid cs seq) = job.requests pid cs seq := by
  induction cs generalizing seq entered with
  | nil => rfl
  | cons c cs ih =>
    obtain ⟨hc, hcs⟩ := List.forall_mem_cons.1 hcs
    rw [requests, takenOf, if_pos ⟨hnew seq le_rfl, hc.2⟩, ih hcs fun n hn => ?_]
    rw [request_lkey, update_of_ne (job.lkey_ne pid (by omega : n ≠ seq))]
    exact hnew n (by omega)

theorem mem_requests {cs : List (List Row)} {seq : ℕ} {rq : IngestRequest} (h : rq ∈ job.requests pid cs seq) :
    rq.pid = pid ∧ rq.loadId = job.loadId ∧ rq.table = job.table.name := by
  induction cs generalizing seq with
  | nil => cases h
  | cons c cs ih =>
    rcases List.mem_cons.1 h with rfl | h
    · exact ⟨rfl, rfl, rfl⟩
    · exact ih h

theorem length_requests (cs : List (List Row)) (seq : ℕ) : (job.requests pid cs seq).length = cs.length := by
  induction cs generalizing seq with
  | nil => rfl
  | cons c cs ih => rw [requests, List.length_cons, List.length_cons, ih]

end LoadJob

/-! ## Runs of a job -/

/-- A client that has been given its pid. -/
def JobClient.registered {Q A : Type} (cl : JobClient Q A) (pid : String) : JobClient Q A :=
  { cl with pid := some pid, pidResolved := true }

section

variable {P : Runtime} {inp : ℕ → Inputs} {s : Sys} {T : HttpTransport} {job : LoadJob} {config : Config}
  {active : Option String} {pid : String}

/-- A client that has its pid sends a chunk as it is. -/
theorem sendChunk_registered (cl : JobClient Request Answer) (hcl : cl.transport = T.transport P) (c : Chunk) :
    (cl.registered pid).sendChunk active c =
      T.sendChunk P c (some pid) >>= fun r => ret (r, cl.registered pid) := by
  have hsend : (cl.registered pid).transport.sendChunk = T.sendChunk P := by
    unfold JobClient.registered
    rw [hcl]
    rfl
  unfold JobClient.sendChunk JobClient.ensurePidFallback
  simp only [JobClient.registered, if_true, ret_bind] at hsend ⊢
  rw [hsend]
  rfl

/-- **The first chunk registers** the client. -/
theorem sendChunk_first {cl : JobClient Request Answer} (hcl : cl.transport = T.transport P)
    (hun : cl.pidResolved = false) {s₁ : Sys}
    (hreg : (T.register P (cl.fallbackKey active) cl.config.datasetName).exec (serve P inp) s = (s₁, .ok (some pid)))
    (c : Chunk) : (cl.sendChunk active c).exec (serve P inp) s =
      ((cl.registered pid).sendChunk active c).exec (serve P inp) s₁ := by
  have hregister : cl.transport.register = T.register P := by
    rw [hcl]
    rfl
  have hsend : cl.transport.sendChunk = T.sendChunk P := by
    rw [hcl]
    rfl
  rw [sendChunk_registered cl hcl]
  unfold JobClient.sendChunk JobClient.ensurePidFallback JobClient.ensurePid
  simp only [hun, Bool.false_eq_true, if_false, hregister]
  rw [exec_bind, exec_bind, hreg, ← hsend]
  rfl

/-- **The chunks of a registered client**, none of which was sent before, are delivered one after
another, and the run succeeds. -/
theorem sendEach_serve (inp : ℕ → Inputs) (config : Config) (active : Option String)
    {cl : JobClient Request Answer} (hcl : cl.transport = T.transport P) (hT : 0 < T.max409Retries)
    {cs : List (List Row)} (hcs : ∀ c ∈ cs, job.Sendable pid c) (seq : ℕ)
    (ho : s.srv.Open pid job.loadId) (hnew : ∀ n, seq ≤ n → s.srv.ledger (job.lkey pid n) = none) :
    ∃ l, (job.sendEach active config cs seq (cl.registered pid)).exec (serve P inp) s =
        (s.deliverAll P l, (.ok (), cl.registered pid)) ∧
      l.map Prod.fst = job.requests pid cs seq ∧ ∀ x ∈ l, ∃ n, x.2 = inp n := by
  induction cs generalizing seq s with
  | nil => exact ⟨[], rfl, rfl, by simp⟩
  | cons c cs ih =>
    obtain ⟨hc, hcs⟩ := List.forall_mem_cons.1 hcs
    -- the chunk is new, so it is taken
    have htakes : s.srv.Takes (job.request pid c seq) := ⟨hnew seq le_rfl, hc.2, ho⟩
    have hrq : HttpTransport.ingestRequest (job.chunk config c seq) (some pid)
        (wireLines (keyFields job.table) (hardDeleteFields job.table) c) = job.request pid c seq := rfl
    obtain ⟨key, hkey⟩ := sendChunk_serve P inp hT (job.chunk config c seq) (some pid) hc.lines (hrq ▸ htakes)
    obtain ⟨srv', he, h⟩ := ingest_taken htakes (inp s.threads.length)
    obtain ⟨s', hs'⟩ : ∃ s', s' = s.deliver P (.ingest (job.request pid c seq)) (inp s.threads.length) := ⟨_, rfl⟩
    have hs : s'.srv = srv' := by rw [hs', deliver_srv, he]
    rw [hrq, ← hs'] at hkey
    have hnew' : ∀ n, seq + 1 ≤ n → s'.srv.ledger (job.lkey pid n) = none := by
      intro n hn
      rw [hs, h.ledger, LoadJob.request_lkey, update_of_ne (job.lkey_ne pid (by omega : n ≠ seq))]
      exact hnew n (by omega)
    -- and the load is still open for the next ones
    obtain ⟨l, hrun, hl, hinp⟩ := ih hcs (seq + 1) (by rw [hs]; exact (h.gate _ _).2 ho) hnew'
    refine ⟨(job.request pid c seq, inp s.threads.length) :: l, ?_, by rw [List.map_cons, hl]; rfl, ?_⟩
    · rw [deliverAll_cons, ← hs']
      unfold LoadJob.sendEach
      rw [exec_bind, sendChunk_registered cl hcl, exec_bind, hkey]
      exact hrun
    · exact List.forall_mem_cons.2 ⟨⟨_, rfl⟩, hinp⟩

end

end Matterbeam
