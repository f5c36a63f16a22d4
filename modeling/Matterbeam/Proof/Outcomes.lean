import Matterbeam.Proof.Calls

/-!
# How requests end

The calls of the HTTP transport, against any sequence of responses. A response that is not a
lock contention settles the request, and `_request` makes of a 404 that there is no response,
which only `get_dlt_state` asks for.

* `request_exec`: what a request ends in, by the response that settles it.
* `http_endings`: **the calls end as they should, unless a 404 settles the request**.
-/

namespace Matterbeam

open Prog

/-- The responses are given one after another, whatever is asked. -/
def answering (rs : ℕ → Response) (n : ℕ) (_ : Request) : ℕ × Answer := (n + 1, .reply (rs n))

/-- What the program returns, given the responses. -/
def endOf {α : Type} (rs : ℕ → Response) (p : Prog Request Answer α) : α := (p.exec (answering rs) 0).2

/-- The response that settles a request: the first that is not a lock contention, of as many as
there are attempts. -/
def HttpTransport.settling (T : HttpTransport) (rs : ℕ → Response) : Option Response :=
  ((List.range' 0 T.max409Retries).map rs).find? fun r => !isContention r

/-- How a call ends, as dlt sees it. -/
inductive Ending
  | returned
  | transient
  | terminal
  | other
  deriving DecidableEq

def Ending.of {α : Type} : Except PyError α → Ending
  | .ok _ => returned
  | .error (.destinationTransient _) => transient
  | .error (.destinationTerminal _) => terminal
  | .error (.scdRefused _) => terminal
  | .error _ => other

/-- How a call should end. A conflict with the reason `pass` is let go. -/
def rightEnding (pass : Option String) : Option Response → Ending
  | none => .terminal
  | some r =>
    if r.status < 400 then .returned
    else if r.status ≥ 500 then .transient
    else if r.status = 409 ∧ ∃ reason ∈ pass, conflictReason r = .str reason then .returned
    else .terminal

theorem rightEnding_ne_other {pass : Option String} {d : Option Response} : rightEnding pass d ≠ .other := by
  unfold rightEnding
  split
  · decide
  · split_ifs <;> decide

section

variable {P : Runtime} {T : HttpTransport} {rs : ℕ → Response}

theorem endOf_bind {α β : Type} {p : Prog Request Answer α} {f : α → β} :
    endOf rs (p >>= fun a => ret (f a)) = f (endOf rs p) := by
  unfold endOf
  rw [exec_bind]
  rfl

/-- **The request loop** ends with the first response that is not a lock contention. -/
theorem requestLoop_exec (rq : Request) (n k : ℕ) :
    ((T.requestLoop P rq n).exec (answering rs) k).2 =
      match ((List.range' k n).map rs).find? (fun r => !HttpTransport.isContention r) with
      | some r => HttpTransport.settle P rq r
      | none => .error (.destinationTerminal
          (HttpTransport.label rq ++ ": gave up after " ++ T.max409Retries.repr ++ "x lock_contention")) := by
  induction n generalizing k with
  | zero => rfl
  | succ n ih =>
    rw [List.range'_succ, List.map_cons]
    unfold HttpTransport.requestLoop
    rw [exec_call]
    cases hc : HttpTransport.isContention (rs k) with
    -- a contention is retried, and the next response is the one after it
    | true =>
      rw [List.find?_cons_of_neg (by simp [hc])]
      change ((if HttpTransport.isContention (rs k) = true then T.requestLoop P rq n
        else ret (HttpTransport.settle P rq (rs k))).exec (answering rs) (k + 1)).2 = _
      rw [if_pos hc]
      exact ih (k + 1)
    | false =>
      rw [List.find?_cons_of_pos (by simp [hc])]
      change ((if HttpTransport.isContention (rs k) = true then T.requestLoop P rq n
        else ret (HttpTransport.settle P rq (rs k))).exec (answering rs) (k + 1)).2 = _
      rw [if_neg (by simp [hc])]
      rfl

/-- **What a request ends in**, by the response that settles it. -/
theorem request_exec (rq : Request) : endOf rs (T.request P rq) =
    match T.settling rs with
    | some r => HttpTransport.settle P rq r
    | none => .error (.destinationTerminal
        (HttpTransport.label rq ++ ": gave up after " ++ T.max409Retries.repr ++ "x lock_contention")) :=
  requestLoop_exec rq T.max409Retries 0

/-! ## What the callers make of it -/

/-- A caller's use of what its request ended in, which is right but for a 404. -/
structure RightUse {α : Type} (pass : Option String) (d : Option Response)
    (g : Except PyError (Option Response) → Except PyError α) : Prop where
  terminal : ∀ msg, Ending.of (g (.error (.destinationTerminal msg))) = .terminal
  transient : ∀ msg, Ending.of (g (.error (.destinationTransient msg))) = .transient
  conflict : ∀ reason detail, Ending.of (g (.error (.conflict reason detail))) =
    if ∃ s ∈ pass, reason = .str s then .returned else .terminal
  returned : ∀ r, d = some r → r.status < 400 → Ending.of (g (.ok (some r))) = .returned
  missing : Ending.of (g (.ok none)) ≠ .terminal

/-- **A right use ends as it should**, unless a 404 settles the request. -/
theorem RightUse.ending {α : Type} {pass : Option String} {g : Except PyError (Option Response) → Except PyError α}
    (h : RightUse pass (T.settling rs) g) (rq : Request) :
    Ending.of (g (endOf rs (T.request P rq))) = rightEnding pass (T.settling rs) ↔
      ∀ r, T.settling rs = some r → r.status ≠ 404 := by
  rw [request_exec]
  cases hd : T.settling rs with
  | none => simpa [rightEnding] using h.terminal _
  | some r =>
    dsimp only
    have hright : rightEnding pass (some r) = if r.status < 400 then .returned
        else if r.status ≥ 500 then .transient
        else if r.status = 409 ∧ ∃ reason ∈ pass, conflictReason r = .str reason then .returned
        else .terminal := rfl
    by_cases h404 : r.status = 404
    · -- the request has no response, which is not a terminal failure
      have hset : HttpTransport.settle P rq r = .ok none := by
        unfold HttpTransport.settle
        rw [if_neg (by omega), if_pos h404]
      have hterm : rightEnding pass (some r) = .terminal := by
        rw [hright, if_neg (by omega), if_neg (by omega), if_neg (by omega)]
      rw [hset, hterm]
      exact ⟨fun he => absurd he h.missing, fun hn => absurd h404 (hn r rfl)⟩
    · refine ⟨fun _ r' hr' => ?_, fun _ => ?_⟩
      · cases hr'
        exact h404
      · -- what the response is made of, and what it should be made of
        by_cases h409 : r.status = 409
        · have hset : ∃ detail, HttpTransport.settle P rq r = .error (.conflict (conflictReason r) detail) := by
            unfold HttpTransport.settle
            exact ⟨_, if_pos h409⟩
          obtain ⟨detail, hset⟩ := hset
          rw [hset, hright, if_neg (by omega : ¬ r.status < 400), if_neg (by omega : ¬ r.status ≥ 500), h.conflict]
          simp [h409]
        have hlast : ¬ (r.status = 409 ∧ ∃ reason ∈ pass, conflictReason r = .str reason) := fun hc => h409 hc.1
        by_cases h500 : r.status ≥ 500
        · have hset : ∃ msg, HttpTransport.settle P rq r = .error (.destinationTransient msg) := by
            unfold HttpTransport.settle
            rw [if_neg h409, if_neg h404]
            exact ⟨_, if_pos h500⟩
          obtain ⟨msg, hset⟩ := hset
          rw [hset, h.transient, hright, if_neg (by omega), if_pos h500]
        by_cases h400 : r.status ≥ 400
        · have hset : ∃ msg, HttpTransport.settle P rq r = .error (.destinationTerminal msg) := by
            unfold HttpTransport.settle
            rw [if_neg h409, if_neg h404, if_neg h500]
            exact ⟨_, if_pos h400⟩
          obtain ⟨msg, hset⟩ := hset
          rw [hset, h.terminal, hright, if_neg (by omega), if_neg h500, if_neg hlast]
        · have hset : HttpTransport.settle P rq r = .ok (some r) := by
            unfold HttpTransport.settle
            rw [if_neg h409, if_neg h404, if_neg h500, if_neg h400]
          rw [hset, h.returned r hd (by omega), hright, if_pos (by omega)]

/-- Where conflicts are made terminal failures, what is done with a response has to be right. -/
theorem rightUse_terminal {α : Type} {d : Option Response} {g : Except PyError (Option Response) → Except PyError α}
    (herr : ∀ e, g (.error e) = .error e)
    (hok : ∀ r, d = some r → r.status < 400 → Ending.of (g (.ok (some r))) = .returned)
    (hnone : Ending.of (g (.ok none)) ≠ .terminal) :
    RightUse none d fun r => g (HttpTransport.terminal r) := by
  refine ⟨fun msg => ?_, fun msg => ?_, fun reason detail => ?_, fun r hd hr => ?_, ?_⟩
  · dsimp only [HttpTransport.terminal]
    rw [herr]
    rfl
  · dsimp only [HttpTransport.terminal]
    rw [herr]
    rfl
  · dsimp only [HttpTransport.terminal]
    -- no reason is let go, and the conflict has become a terminal failure
    rw [herr, if_neg (by simp)]
    rfl
  · exact hok r hd hr
  · exact hnone

/-- A row has no value for a key that it should be reduced to. -/
theorem keyEntries_error {row : Row} {keys : List String} {e : PyError} (h : keyEntries row keys = .error e) :
    ∃ k, e = .keyError k := by
  induction keys with
  | nil => cases h
  | cons f fs ih =>
    simp only [keyEntries, Row.item] at h
    cases hf : row.get? f with
    | none =>
      rw [hf] at h
      exact ⟨f, (Except.error.inj h).symm⟩
    | some v =>
      rw [hf] at h
      cases hfs : keyEntries row fs with
      | ok kvs => rw [hfs] at h; cases h
      | error e' =>
        rw [hfs] at h
        obtain rfl : e' = e := Except.error.inj h
        exact ih hfs

theorem buildWireRecord_error {keys hardDelete : List String} {row : Row} {e : PyError}
    (h : buildWireRecord row keys hardDelete = .error e) : ∃ k, e = .keyError k := by
  simp only [buildWireRecord, tombstoneAndBody] at h
  split at h
  · cases hk : keyEntries (stripIds row) keys with
    | ok kvs => rw [hk] at h; cases h
    | error e' =>
      rw [hk] at h
      obtain rfl : e' = e := Except.error.inj h
      exact keyEntries_error hk
  · cases h

/-- **Rows that cannot be encoded** raise a `KeyError`. -/
theorem buildWireRecords_error {keys hardDelete : List String} {rows : List Row} {e : PyError}
    (h : buildWireRecords keys hardDelete rows = .error e) : ∃ k, e = .keyError k := by
  induction rows with
  | nil => cases h
  | cons row rows ih =>
    simp only [buildWireRecords] at h
    cases hrow : buildWireRecord row keys hardDelete with
    | error e' =>
      rw [hrow] at h
      obtain rfl : e' = e := Except.error.inj h
      exact buildWireRecord_error hrow
    | ok env =>
      rw [hrow] at h
      cases hrows : buildWireRecords keys hardDelete rows with
      | ok envs => rw [hrows] at h; cases h
      | error e' =>
        rw [hrows] at h
        obtain rfl : e' = e := Except.error.inj h
        exact ih hrows

end

section

variable {P : Runtime} {T : HttpTransport} {rs : ℕ → Response}

theorem endOf_terminalOnConflict (rq : Request) :
    endOf rs (T.terminalOnConflict P rq) = HttpTransport.terminal (endOf rs (T.request P rq)) := endOf_bind

/-- A registration reads the id of its response. -/
theorem register_ending {pipelineKey datasetName : String} (hbody : ∀ r, T.settling rs = some r → r.status < 400 →
    ∃ body id, r.json = some body ∧ body.item "id" = .ok id) :
    Ending.of (endOf rs (T.register P pipelineKey datasetName)) = rightEnding none (T.settling rs) ↔
      ∀ r, T.settling rs = some r → r.status ≠ 404 := by
  let reads : Except PyError (Option Response) → Except PyError (Option String) := fun r => do
    let response ← r
    let body ← responseJson response
    let id ← body.item "id"
    return HttpTransport.pidOf P id
  have huse : RightUse none (T.settling rs) fun r => reads (HttpTransport.terminal r) := by
    refine rightUse_terminal (fun _ => rfl) (fun r hd hr => ?_) ?_
    · obtain ⟨body, id, hj, hid⟩ := hbody r hd hr
      simp only [reads, responseJson, Bind.bind, Except.bind, hj, hid]
      rfl
    · -- after a 404 there is no response to read
      intro h
      cases h
  have hend : endOf rs (T.register P pipelineKey datasetName) = _ := endOf_bind
  rw [hend, endOf_terminalOnConflict]
  exact huse.ending _

/-- A chunk is encoded first, and then reads its segment's key. -/
theorem sendChunk_ending {c : Chunk} {pid : Option String} (hbody : ∀ r, T.settling rs = some r → r.status < 400 →
    ∃ body kvs, r.json = some body ∧ body.item "data" = .ok (.obj kvs)) :
    Ending.of (endOf rs (T.sendChunk P c pid)) = rightEnding none (T.settling rs) ↔
      (∃ lines, buildWireRecords c.keys c.hardDelete c.rows = .ok lines) ∧
        ∀ r, T.settling rs = some r → r.status ≠ 404 := by
  let reads : Except PyError (Option Response) → Except PyError Json := fun r => do
    let response ← r
    let body ← responseJson response
    let data ← body.item "data"
    data.get "segment_key"
  have huse : RightUse none (T.settling rs) fun r => reads (HttpTransport.terminal r) := by
    refine rightUse_terminal (fun _ => rfl) (fun r hd hr => ?_) ?_
    · obtain ⟨body, kvs, hj, hdata⟩ := hbody r hd hr
      simp only [reads, responseJson, Bind.bind, Except.bind, hj, hdata]
      rfl
    · -- after a 404 there is no response to read
      intro h
      cases h
  unfold HttpTransport.sendChunk
  cases hl : buildWireRecords c.keys c.hardDelete c.rows with
  | error e =>
    -- no request is sent, and a `KeyError` is nobody's right ending
    obtain ⟨k, rfl⟩ := buildWireRecords_error hl
    refine ⟨fun he => ?_, fun ⟨⟨lines, h⟩, _⟩ => by cases h⟩
    have hother : rightEnding none (T.settling rs) ≠ .other := rightEnding_ne_other
    exact absurd he.symm hother
  | ok lines =>
    change Ending.of (endOf rs (T.terminalOnConflict P (.ingest (HttpTransport.ingestRequest c pid lines)) >>=
      fun r => ret (reads r))) = _ ↔ _
    rw [endOf_bind, endOf_terminalOnConflict, huse.ending]
    exact ⟨fun h => ⟨⟨lines, rfl⟩, h⟩, fun h => h.2⟩

/-- Closing a load takes no notice of the response. -/
theorem completeLoad_ending {loadId : String} {pid : Option String} :
    Ending.of (endOf rs (T.completeLoad P loadId pid)) = rightEnding none (T.settling rs) ↔
      ∀ r, T.settling rs = some r → r.status ≠ 404 := by
  have huse : RightUse none (T.settling rs) fun r => (HttpTransport.terminal r).map fun _ => () :=
    rightUse_terminal (fun _ => rfl) (fun _ _ _ => rfl) (fun h => by cases h)
  have hend : endOf rs (T.completeLoad P loadId pid) = _ := endOf_bind
  rw [hend, endOf_terminalOnConflict]
  exact huse.ending _

/-- A stale write is let go. -/
theorem putDltState_ending {pid : String} {doc : Row} : Ending.of (endOf rs (T.putDltState P pid doc)) =
    rightEnding (some "stale_state_version") (T.settling rs) ↔ ∀ r, T.settling rs = some r → r.status ≠ 404 := by
  have huse : RightUse (some "stale_state_version") (T.settling rs) HttpTransport.putResult := by
    refine ⟨fun _ => rfl, fun _ => rfl, fun reason detail => ?_, fun _ _ _ => rfl, fun h => by cases h⟩
    dsimp only [HttpTransport.putResult]
    -- a stale write is the one conflict that is no failure
    by_cases hreason : reason = .str "stale_state_version"
    · rw [if_neg (by simp [hreason]), if_pos ⟨_, rfl, hreason⟩]
      rfl
    · rw [if_pos hreason, if_neg (by simpa using hreason)]
      rfl
  have hend : endOf rs (T.putDltState P pid doc) = HttpTransport.putResult (endOf rs (T.request P (.putState pid doc))) :=
    endOf_bind
  rw [hend]
  exact huse.ending _

end

/-- **The calls of the transport end as they should**, unless a 404 settles the request. Success
bodies are well formed: a registration's has an `id`, and a chunk's has an object for `data`. A
chunk whose rows cannot be encoded raises, too. -/
theorem http_endings (P : Runtime) (T : HttpTransport) (rs : ℕ → Response) :
    (∀ pipelineKey datasetName, (∀ r, T.settling rs = some r → r.status < 400 →
        ∃ body id, r.json = some body ∧ body.item "id" = .ok id) →
      (Ending.of (endOf rs (T.register P pipelineKey datasetName)) = rightEnding none (T.settling rs) ↔
        ∀ r, T.settling rs = some r → r.status ≠ 404)) ∧
    (∀ c pid, (∀ r, T.settling rs = some r → r.status < 400 →
        ∃ body kvs, r.json = some body ∧ body.item "data" = .ok (.obj kvs)) →
      (Ending.of (endOf rs (T.sendChunk P c pid)) = rightEnding none (T.settling rs) ↔
        (∃ lines, buildWireRecords c.keys c.hardDelete c.rows = .ok lines) ∧
          ∀ r, T.settling rs = some r → r.status ≠ 404)) ∧
    (∀ loadId pid, Ending.of (endOf rs (T.completeLoad P loadId pid)) = rightEnding none (T.settling rs) ↔
      ∀ r, T.settling rs = some r → r.status ≠ 404) ∧
    ∀ pid doc, Ending.of (endOf rs (T.putDltState P pid doc)) =
        rightEnding (some "stale_state_version") (T.settling rs) ↔
      ∀ r, T.settling rs = some r → r.status ≠ 404 :=
  ⟨fun _ _ hbody => register_ending hbody, fun _ _ hbody => sendChunk_ending hbody, fun _ _ => completeLoad_ending,
    fun _ _ => putDltState_ending⟩

/-- Responses that are all the same. -/
def always (r : Response) : ℕ → Response := fun _ => r

/-- A chunk without rows. -/
def emptyChunk : Chunk := ⟨"shop.orders", "shop", "orders", [], [], [], "1.0", "orders.a.jsonl", 0⟩

/-- A success is returned by all of the calls. -/
theorem http_endings_success :
    let rs := always ⟨200, some (.obj [("id", .str "p"), ("data", .obj [])]), ""⟩
    Ending.of (endOf rs (HttpTransport.register .plain {} "shop" "shop")) = .returned ∧
    Ending.of (endOf rs (HttpTransport.sendChunk .plain {} emptyChunk (some "p"))) = .returned := by
  intro rs
  obtain ⟨hreg, hsend, -⟩ := http_endings .plain {} rs
  have hsettling : HttpTransport.settling {} rs = some (rs 0) := by decide
  have hright : rightEnding none (HttpTransport.settling {} rs) = .returned := by decide
  have hok : ∀ r, HttpTransport.settling {} rs = some r → r.status ≠ 404 := by
    intro r hr
    rw [hsettling] at hr
    cases hr
    decide
  constructor
  · rw [← hright]
    refine (hreg "shop" "shop" fun r hr _ => ?_).2 hok
    rw [hsettling] at hr
    cases hr
    exact ⟨_, _, rfl, rfl⟩
  · rw [← hright]
    refine (hsend emptyChunk (some "p") fun r hr _ => ?_).2 ⟨⟨[], rfl⟩, hok⟩
    rw [hsettling] at hr
    cases hr
    exact ⟨_, _, rfl, rfl⟩

/-- **A 404 does not end as it should**: a load is closed and a state document written at a pid that
the server does not have, and a registration and a chunk fail with an exception that is not one of
dlt's. -/
theorem missing_unreported :
    let rs := always ⟨404, none, "Not Found"⟩
    rightEnding none (HttpTransport.settling {} rs) = .terminal ∧
    rightEnding (some "stale_state_version") (HttpTransport.settling {} rs) = .terminal ∧
    Ending.of (endOf rs (HttpTransport.completeLoad .plain {} "1.0" (some "p"))) = .returned ∧
    Ending.of (endOf rs (HttpTransport.putDltState .plain {} "p" Dict.empty)) = .returned ∧
    Ending.of (endOf rs (HttpTransport.register .plain {} "shop" "shop")) = .other ∧
    Ending.of (endOf rs (HttpTransport.sendChunk .plain {} emptyChunk (some "p"))) = .other := by
  decide

end Matterbeam
