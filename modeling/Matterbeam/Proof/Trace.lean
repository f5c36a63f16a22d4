import Matterbeam.Model.System

/-!
# Executions of the system as indexed traces

`sAt P es n` is the system after the first `n` events. A thread keeps its place in the
list and its request; nothing but its own ticks moves it.

* `IngestStep`, `PutStep`: the ways a step of `ingest` and of `put_dlt_state` can go, one
  constructor for each, with all that the step reads and writes.
* `Sys.step_cases`: the ways an event can go.
* `thread_mono`: threads stay, and keep their requests and answers.
-/

namespace Matterbeam

open Function

/-! ## Threads in their list -/

/-- What is in a list, once an entry of it has been replaced. -/
theorem set_cases {α : Type} {l : List α} {j i : ℕ} {a b : α} (hj : j < l.length) (hi : (l.set j a)[i]? = some b) :
    (i = j ∧ b = a) ∨ (i ≠ j ∧ l[i]? = some b) := by
  by_cases hij : i = j
  · subst hij
    rw [List.getElem?_set_self hj] at hi
    exact Or.inl ⟨rfl, (Option.some.inj hi).symm⟩
  · rw [List.getElem?_set_ne (Ne.symm hij)] at hi
    exact Or.inr ⟨hij, hi⟩

/-- What is in a list, once an entry has been added to it. -/
theorem concat_cases {α : Type} {l : List α} {i : ℕ} {a b : α} (hi : (l ++ [a])[i]? = some b) :
    l[i]? = some b ∨ (i = l.length ∧ b = a) := by
  rcases Nat.lt_or_ge i l.length with hlt | hge
  · rw [List.getElem?_append_left hlt] at hi
    exact Or.inl hi
  · rw [List.getElem?_append_right hge] at hi
    have hlen := (List.getElem?_eq_some_iff.1 hi).1
    have hzero : i - l.length = 0 := by simpa using hlen
    rw [hzero] at hi
    exact Or.inr ⟨by omega, (Option.some.inj hi).symm⟩

/-! ## The entry lock -/

/-- The item of a pid after a claim. -/
def PidItem.claimed (item : PidItem) : PidItem :=
  { item with
    updateVersion := item.updateVersion + 1
    invokeSemaphore := 0
    fsmState := .running }

/-- The item of a pid after a release. -/
def PidItem.released (item : PidItem) : PidItem :=
  { item with
    updateVersion := item.updateVersion + 1
    invokeSemaphore := 1
    fsmState := .listening }

/-- **The ways a claim can go**: the lock is free and taken, or the claim is refused and
nothing but the counters changes. -/
theorem Server.claim_cases (srv : Server) (pid : String) :
    (∃ item, srv.pids pid = some item ∧ item.fsmState ≠ .paused ∧ item.invokeSemaphore = 1 ∧
      srv.claim pid = (srv.setPid pid item.claimed, .ok (item.updateVersion + 1))) ∨
    (∃ out c, srv.claim pid = ({ srv with counters := c }, .error out) ∧
      (out = .contention ∨ out = .terminal "paused" ∧ (∃ item, srv.pids pid = some item ∧
        item.fsmState = .paused) ∨ srv.pids pid = none ∧ ∃ r, out = .crashed r)) := by
  unfold Server.claim
  cases hp : srv.pids pid with
  | none => exact Or.inr ⟨_, srv.counters, rfl, Or.inr (Or.inr ⟨rfl, _, rfl⟩)⟩
  | some item =>
    by_cases hf : item.fsmState = .paused
    · refine Or.inr ⟨.terminal "paused", srv.counters, ?_, Or.inr (Or.inl ⟨rfl, item, rfl, hf⟩)⟩
      simp only [hf, if_true]
    · by_cases hs : item.invokeSemaphore = 1
      · refine Or.inl ⟨item, rfl, hf, hs, ?_⟩
        simp only [hf, if_false]
        exact if_neg (not_not.2 hs)
      · refine Or.inr ⟨.contention,
          { srv.counters with lockContention := srv.counters.lockContention + 1 }, ?_, Or.inl rfl⟩
        simp only [hf, if_false]
        exact if_pos hs

/-- The ways a release can go. -/
theorem Server.release_cases (srv : Server) (pid : String) (v : ℕ) :
    (∃ item, srv.pids pid = some item ∧ item.updateVersion = v ∧
      srv.release pid v = srv.setPid pid item.released) ∨
    ((∀ item, srv.pids pid = some item → item.updateVersion ≠ v) ∧ srv.release pid v = srv) := by
  unfold Server.release
  cases hp : srv.pids pid with
  | none => exact Or.inr ⟨by simp, rfl⟩
  | some item =>
    by_cases hv : item.updateVersion = v
    · refine Or.inl ⟨item, rfl, hv, ?_⟩
      simp only [hv, if_true]
      unfold PidItem.released
      rw [hv]
    · refine Or.inr ⟨by simpa using hv, ?_⟩
      simp only [hv, if_false]

/-! ## Steps -/

/-- The ways a step of `ingest` can go. -/
inductive IngestStep (rq : IngestRequest) (crash : Option CrashPoint) (inp : Inputs) (srv : Server) :
    IngestPc → Server → IngestPc → Prop
  | hit {r : IngestResult} (h : srv.ledger rq.lkey = some r) (c : Counters) :
      IngestStep rq crash inp srv .check { srv with counters := c }
        (.done (.ingested { r with duplicate := true }))
  | miss (h : srv.ledger rq.lkey = none) : IngestStep rq crash inp srv .check srv .claim
  | claimed {item : PidItem} (h : srv.pids rq.pid = some item) (hf : item.fsmState ≠ .paused)
      (hs : item.invokeSemaphore = 1) :
      IngestStep rq crash inp srv .claim (srv.setPid rq.pid item.claimed) (.closed (item.updateVersion + 1))
  | refused {out : Outcome} (c : Counters)
      (h : out = .contention ∨ out = .terminal "paused" ∧ (∃ item, srv.pids rq.pid = some item ∧
        item.fsmState = .paused) ∨ srv.pids rq.pid = none ∧ ∃ r, out = .crashed r) :
      IngestStep rq crash inp srv .claim { srv with counters := c } (.done out)
  | late {v : ℕ} (h : (rq.pid, rq.loadId) ∈ srv.closedLoads) :
      IngestStep rq crash inp srv (.closed v) srv (.release v (.terminal "load_closed"))
  | opened {v : ℕ} (h : (rq.pid, rq.loadId) ∉ srv.closedLoads) :
      IngestStep rq crash inp srv (.closed v) srv (.prepare v)
  | prepared {v : ℕ} :
      IngestStep rq crash inp srv (.prepare v)
        ((srv.allocWriterId rq.pid).trackJobArrival rq.pid rq.recordtypeId rq.jobId)
        (.filter v (srv.nextWriterId rq.pid))
  | unhashable {v w : ℕ} (c : Counters) (h : rq.lines.all Envelope.hashable = false) :
      IngestStep rq crash inp srv (.filter v w) { srv with counters := c }
        (.release v (.crashed "TypeError('unhashable type')"))
  | filtered {v w : ℕ} (c : Counters) (h : rq.lines.all Envelope.hashable = true) :
      IngestStep rq crash inp srv (.filter v w) { srv with counters := c }
        (.begin v ⟨w, rq.lines.filter (Envelope.fresh (srv.dltIdsSeen (rq.pid, rq.loadId))), inp.utc⟩)
  | begun {v : ℕ} {b : Batch} :
      IngestStep rq crash inp srv (.begin v b) srv
        (.commit v b (srv.beginMs rq.pid rq.recordtypeId inp.now))
  | empty {v : ℕ} {b : Batch} {beginMs : ℕ} (h : b.kept = []) :
      IngestStep rq crash inp srv (.commit v b beginMs) srv (.mark v b beginMs none)
  | committed {v : ℕ} {b : Batch} {beginMs : ℕ} (h : b.kept ≠ []) :
      IngestStep rq crash inp srv (.commit v b beginMs)
        (srv.addSegment (writeSegment rq.recordtypeId (b.records rq) beginMs b.writerId inp.noise rq))
        (.mark v b beginMs (some (writeSegment rq.recordtypeId (b.records rq) beginMs b.writerId inp.noise rq)))
  | crashMark {v : ℕ} {b : Batch} {beginMs : ℕ} {seg : Option Segment}
      (h : crash = some .afterCommitBeforeMark) (r : String) :
      IngestStep rq crash inp srv (.mark v b beginMs seg) srv (.release v (.crashed r))
  | marked {v : ℕ} {b : Batch} {beginMs : ℕ} {seg : Option Segment} :
      IngestStep rq crash inp srv (.mark v b beginMs seg) (srv.markSeen rq.pid rq.loadId b.ids)
        (.record v b beginMs seg)
  | crashRecord {v : ℕ} {b : Batch} {beginMs : ℕ} {seg : Option Segment}
      (h : crash = some .afterMarkBeforeLedger) (r : String) :
      IngestStep rq crash inp srv (.record v b beginMs seg) srv (.release v (.crashed r))
  | recorded {v : ℕ} {b : Batch} {beginMs : ℕ} {seg : Option Segment} :
      IngestStep rq crash inp srv (.record v b beginMs seg)
        ((srv.advance rq.pid rq.recordtypeId beginMs seg).addLedger rq.lkey (b.result seg))
        (.reply v (b.result seg))
  | crashReply {v : ℕ} {res : IngestResult} (h : crash = some .afterLedger) (r : String) :
      IngestStep rq crash inp srv (.reply v res) srv (.release v (.crashed r))
  | replied {v : ℕ} {res : IngestResult} :
      IngestStep rq crash inp srv (.reply v res) srv (.release v (.ingested res))
  | released {v : ℕ} {out : Outcome} :
      IngestStep rq crash inp srv (.release v out) (srv.release rq.pid v) (.done out)
  | ended {out : Outcome} : IngestStep rq crash inp srv (.done out) srv (.done out)

/-- **Every step of `ingest` is one of these.** -/
theorem IngestPc.step_spec (rq : IngestRequest) (crash : Option CrashPoint) (inp : Inputs) (srv : Server)
    (pc : IngestPc) :
    IngestStep rq crash inp srv pc (pc.step rq crash inp srv).1 (pc.step rq crash inp srv).2 := by
  -- by the point of the program, and then by the branch it takes
  cases pc with
  | check =>
    unfold IngestPc.step
    cases h : srv.ledger rq.lkey with
    | none => exact .miss h
    | some r => exact .hit h _
  | claim =>
    unfold IngestPc.step
    rcases srv.claim_cases rq.pid with ⟨item, h, hf, hs, he⟩ | ⟨out, c, he, h⟩
    · rw [he]; exact .claimed h hf hs
    · rw [he]; exact .refused c h
  | closed v =>
    unfold IngestPc.step
    by_cases h : (rq.pid, rq.loadId) ∈ srv.closedLoads
    · simp only [h, if_true]; exact .late h
    · simp only [h, if_false]; exact .opened h
  | prepare v => exact .prepared
  | filter v w =>
    have hd := dedupLoop_eq (srv.dltIdsSeen (rq.pid, rq.loadId)) rq.lines
    unfold IngestPc.step
    rcases hloop : dedupLoop (srv.dltIdsSeen (rq.pid, rq.loadId)) rq.lines with ⟨hits, kept⟩
    rw [hloop] at hd
    cases ha : rq.lines.all Envelope.hashable with
    | false =>
      rw [ha] at hd
      cases hd
      exact .unhashable _ ha
    | true =>
      rw [ha] at hd
      cases hd
      exact .filtered _ ha
  | «begin» v b => exact .begun
  | commit v b beginMs =>
    unfold IngestPc.step
    by_cases h : b.kept = []
    · simp only [h, if_true]; exact .empty h
    · simp only [h, if_false]; exact .committed h
  | mark v b beginMs seg =>
    unfold IngestPc.step
    by_cases h : crash = some .afterCommitBeforeMark
    · simp only [h, if_true]; exact .crashMark rfl _
    · simp only [h, if_false]; exact .marked
  | record v b beginMs seg =>
    unfold IngestPc.step
    by_cases h : crash = some .afterMarkBeforeLedger
    · simp only [h, if_true]; exact .crashRecord rfl _
    · simp only [h, if_false]; exact .recorded
  | reply v r =>
    unfold IngestPc.step
    by_cases h : crash = some .afterLedger
    · simp only [h, if_true]; exact .crashReply rfl _
    · simp only [h, if_false]; exact .replied
  | release v out => exact .released
  | done out => exact .ended

/-- The ways a step of `put_dlt_state` can go. -/
inductive PutStep (pid : String) (doc : Row) (srv : Server) : PutPc → Server → PutPc → Prop
  | claimed {item : PidItem} (h : srv.pids pid = some item) (hf : item.fsmState ≠ .paused)
      (hs : item.invokeSemaphore = 1) :
      PutStep pid doc srv .claim (srv.setPid pid item.claimed) (.check (item.updateVersion + 1))
  | refused {out : Outcome} (c : Counters)
      (h : out = .contention ∨ out = .terminal "paused" ∧ (∃ item, srv.pids pid = some item ∧
        item.fsmState = .paused) ∨ srv.pids pid = none ∧ ∃ r, out = .crashed r) :
      PutStep pid doc srv .claim { srv with counters := c } (.done out)
  | stale {v : ℕ} (h : Server.staleVersion (srv.processState pid).dltState doc = .ok true) :
      PutStep pid doc srv (.check v) srv (.release v (.terminal "stale_state_version"))
  | newer {v : ℕ} (h : Server.staleVersion (srv.processState pid).dltState doc = .ok false) :
      PutStep pid doc srv (.check v) srv (.write v)
  | raised {v : ℕ} {e : PyError} (h : Server.staleVersion (srv.processState pid).dltState doc = .error e) :
      PutStep pid doc srv (.check v) srv (.release v (.crashed ""))
  | written {v : ℕ} : PutStep pid doc srv (.write v) (srv.setDltState pid doc) (.release v .accepted)
  | released {v : ℕ} {out : Outcome} : PutStep pid doc srv (.release v out) (srv.release pid v) (.done out)
  | ended {out : Outcome} : PutStep pid doc srv (.done out) srv (.done out)

/-- **Every step of `put_dlt_state` is one of these.** -/
theorem PutPc.step_spec (pid : String) (doc : Row) (srv : Server) (pc : PutPc) :
    PutStep pid doc srv pc (pc.step pid doc srv).1 (pc.step pid doc srv).2 := by
  cases pc with
  | claim =>
    unfold PutPc.step
    rcases srv.claim_cases pid with ⟨item, h, hf, hs, he⟩ | ⟨out, c, he, h⟩
    · rw [he]; exact .claimed h hf hs
    · rw [he]; exact .refused c h
  | check v =>
    unfold PutPc.step
    cases h : Server.staleVersion (srv.processState pid).dltState doc with
    | error e => exact .raised h
    | ok b => cases b with
      | true => exact .stale h
      | false => exact .newer h
  | write v => exact .written
  | release v out => exact .released
  | done out => exact .ended

/-- The registry and the closed loads are the same. -/
structure SameRolls (srv srv' : Server) : Prop where
  registry : srv'.registry = srv.registry
  closedLoads : srv'.closedLoads = srv.closedLoads

theorem SameRolls.trackJobArrival (srv : Server) (pid recordtypeId jobId : String) :
    SameRolls srv (srv.trackJobArrival pid recordtypeId jobId) := by
  unfold Server.trackJobArrival
  dsimp only
  split
  · exact ⟨rfl, rfl⟩
  · split <;> exact ⟨rfl, rfl⟩

theorem SameRolls.allocWriterId (srv : Server) (pid : String) : SameRolls srv (srv.allocWriterId pid) := by
  unfold Server.allocWriterId
  split <;> exact ⟨rfl, rfl⟩

theorem SameRolls.release (srv : Server) (pid : String) (v : ℕ) : SameRolls srv (srv.release pid v) := by
  rcases srv.release_cases pid v with ⟨item, -, -, he⟩ | ⟨-, he⟩
  · rw [he]; exact ⟨rfl, rfl⟩
  · rw [he]; exact ⟨rfl, rfl⟩

theorem SameRolls.pause (srv : Server) (pid : String) : SameRolls srv (srv.pause pid) := by
  unfold Server.pause
  split <;> exact ⟨rfl, rfl⟩

/-- A chunk registers nothing, and closes no load. -/
theorem IngestStep.rolls {rq : IngestRequest} {crash : Option CrashPoint} {inp : Inputs} {srv srv' : Server}
    {pc pc' : IngestPc} (h : IngestStep rq crash inp srv pc srv' pc') : SameRolls srv srv' := by
  cases h with
  | prepared =>
    have halloc := SameRolls.allocWriterId srv rq.pid
    have htrack := SameRolls.trackJobArrival (srv.allocWriterId rq.pid) rq.pid rq.recordtypeId rq.jobId
    exact ⟨htrack.registry.trans halloc.registry, htrack.closedLoads.trans halloc.closedLoads⟩
  | released => exact .release _ _ _
  | _ => exact ⟨rfl, rfl⟩

/-- Nor does a state write. -/
theorem PutStep.rolls {pid : String} {doc : Row} {srv srv' : Server} {pc pc' : PutPc}
    (h : PutStep pid doc srv pc srv' pc') : SameRolls srv srv' := by
  cases h with
  | released => exact .release _ _ _
  | _ => exact ⟨rfl, rfl⟩

/-- The item of a pid that has just been registered. -/
def PidItem.fresh : PidItem where
  updateVersion := 1
  invokeSemaphore := 1
  fsmState := .listening
  collectorType := "external_dlt"
  execution := "external"
  runtime := "LAMBDA"

/-- The server with a new pid. -/
def Server.created (srv : Server) (key pid : String) : Server :=
  { srv with
    registry := update srv.registry key (some pid)
    pids := update srv.pids pid (some PidItem.fresh) }

theorem Server.register_known {srv : Server} {name dataset draw pid : String}
    (h : srv.registry (Server.registryKey name dataset) = some pid) :
    srv.register name dataset "external_dlt" draw = some (srv, pid, false) := by
  unfold Server.register
  simp only [h]
  cases srv.pids pid <;> simp

theorem Server.register_created {srv : Server} {name dataset draw : String}
    (h : srv.registry (Server.registryKey name dataset) = none) :
    srv.register name dataset "external_dlt" draw = if srv.freshDraw draw then
      some (srv.created (Server.registryKey name dataset) draw, draw, true) else none := by
  unfold Server.register
  simp only [h]
  rfl

/-- What `register` answers. -/
def registered (P : Runtime) (pid name : String) (created : Bool) : Answer :=
  jsonReply P 200 (.obj [("id", .str pid), ("type", .str "external_dlt"), ("name", .str name),
    ("created", .bool created)])

/-- The ways a request that is one step can go. -/
inductive OnceStep (P : Runtime) (inp : Inputs) (srv : Server) : Request → Server → Option Answer → Prop
  | known {name dataset pid : String} (h : srv.registry (Server.registryKey name dataset) = some pid) :
      OnceStep P inp srv (.register name dataset) srv (some (registered P pid name false))
  | created {name dataset : String} (h : srv.registry (Server.registryKey name dataset) = none)
      (hd : srv.freshDraw inp.draw = true) :
      OnceStep P inp srv (.register name dataset) (srv.created (Server.registryKey name dataset) inp.draw)
        (some (registered P inp.draw name true))
  | waiting {rq : Request} : OnceStep P inp srv rq srv none
  | state {pid : String} {doc : Row} (h : (srv.processState pid).dltState = some doc) :
      OnceStep P inp srv (.getState pid) srv (some (jsonReply P 200 (.obj [("data", doc.toJson)])))
  | noState {pid : String} (h : (srv.processState pid).dltState = none) :
      OnceStep P inp srv (.getState pid) srv (some (notFoundReply P "no state"))
  | closed {pid loadId : String} :
      OnceStep P inp srv (.completeLoad pid loadId) (srv.completeLoad pid loadId)
        (some (jsonReply P 200 (.obj [("status", .str "ok")])))

/-- **Every such step is one of these.** -/
theorem onceStep_spec (P : Runtime) (inp : Inputs) (srv : Server) (rq : Request) :
    OnceStep P inp srv rq (onceStep P inp srv rq).1 (onceStep P inp srv rq).2 := by
  cases rq with
  | register name dataset =>
    simp only [onceStep]
    cases h : srv.registry (Server.registryKey name dataset) with
    | some pid => rw [Server.register_known h]; exact .known h
    | none =>
      rw [Server.register_created h]
      by_cases hd : srv.freshDraw inp.draw = true
      · rw [if_pos hd]; exact .created h hd
      · rw [if_neg hd]; exact .waiting
  | getState pid =>
    cases h : (srv.processState pid).dltState with
    | some doc => simp only [onceStep, h]; exact .state h
    | none => simp only [onceStep, h]; exact .noState h
  | putState pid doc => exact .waiting
  | ingest rq => exact .waiting
  | completeLoad pid loadId => exact .closed

/-! ## Traces -/

variable {P : Runtime} {es : List SysEvent}

theorem sAt_succ {n : ℕ} (hn : n < es.length) : sAt P es (n + 1) = Sys.step P (sAt P es n) es[n] := by
  simp only [sAt, Sys.run]
  rw [List.take_add_one, List.getElem?_eq_getElem hn, Option.toList_some, List.foldl_append]
  rfl

/-- After the last event nothing moves. -/
theorem sAt_of_length_le {n : ℕ} (hn : es.length ≤ n) : sAt P es n = sAt P es es.length := by
  simp [sAt, List.take_of_length_le hn]

/-- **The ways an event can go.** -/
theorem Sys.step_cases (P : Runtime) (s : Sys) (e : SysEvent) :
    (∃ rq crash, e = .spawn rq crash ∧
      Sys.step P s e = { s with threads := s.threads ++ [Thread.start crash rq] }) ∨
    (∃ t inp th, e = .tick t inp ∧ s.threads[t]? = some th ∧
      Sys.step P s e = ⟨(th.step P inp s.srv).1, s.threads.set t (th.step P inp s.srv).2⟩) ∨
    (∃ pid, e = .pause pid ∧ Sys.step P s e = { s with srv := s.srv.pause pid }) ∨
    ((∃ t inp, e = .tick t inp ∧ s.threads[t]? = none) ∧ Sys.step P s e = s) := by
  cases e with
  | spawn rq crash => exact Or.inl ⟨rq, crash, rfl, rfl⟩
  | tick t inp =>
    cases h : s.threads[t]? with
    | some th => exact Or.inr (Or.inl ⟨t, inp, th, rfl, h, by simp only [Sys.step, h]⟩)
    | none => exact Or.inr (Or.inr (Or.inr ⟨⟨t, inp, rfl, h⟩, by simp only [Sys.step, h]⟩))
  | pause pid => exact Or.inr (Or.inr (Or.inl ⟨pid, rfl, rfl⟩))

/-- **An invariant of the system**, carried along a run. -/
theorem Sys.invariant {I : Sys → Prop} (h0 : I {})
    (hstep : ∀ n (hn : n < es.length), I (sAt P es n) → I (Sys.step P (sAt P es n) es[n])) :
    ∀ n, I (sAt P es n) := by
  have hle : ∀ n, n ≤ es.length → I (sAt P es n) := by
    intro n
    induction n with
    | zero => intro _; exact h0
    | succ n ih =>
      intro hn
      rw [sAt_succ (by omega)]
      exact hstep n (by omega) (ih (by omega))
  intro n
  rcases Nat.le_total n es.length with h | h
  · exact hle n h
  · rw [sAt_of_length_le h]; exact hle _ le_rfl

/-- A thread after an event: its own tick moves it, nothing else does. -/
theorem Sys.step_thread {s : Sys} {e : SysEvent} {t : ℕ} {th : Thread} (h : s.threads[t]? = some th) :
    (∃ inp, e = .tick t inp ∧ Sys.step P s e = ⟨(th.step P inp s.srv).1, s.threads.set t (th.step P inp s.srv).2⟩ ∧
      (Sys.step P s e).threads[t]? = some (th.step P inp s.srv).2) ∨
    (¬ (∃ inp, e = .tick t inp) ∧ (Sys.step P s e).threads[t]? = some th) := by
  obtain ⟨hlt, hth⟩ := List.getElem?_eq_some_iff.1 h
  rcases Sys.step_cases P s e with ⟨rq, crash, rfl, he⟩ | ⟨t', inp, th', rfl, h', he⟩ | ⟨pid, rfl, he⟩ | ⟨⟨t', inp, rfl, h'⟩, he⟩
  · refine Or.inr ⟨by simp, ?_⟩
    rw [he]
    exact (List.getElem?_append_left hlt).trans h
  · by_cases ht : t' = t
    · subst ht
      rw [h] at h'
      cases h'
      refine Or.inl ⟨inp, rfl, he, ?_⟩
      rw [he]
      exact List.getElem?_set_self hlt
    · refine Or.inr ⟨by simp [ht], ?_⟩
      rw [he]
      exact (List.getElem?_set_ne ht).trans h
  · refine Or.inr ⟨by simp, ?_⟩
    rw [he]
    exact h
  · refine Or.inr ⟨?_, by rw [he]; exact h⟩
    rintro ⟨inp', h₁⟩
    cases h₁
    rw [h] at h'
    cases h'

/-- A thread that is there after an event was there before it, or has just arrived. -/
theorem Sys.thread_cases {s : Sys} {e : SysEvent} {t : ℕ} {th' : Thread}
    (h : (Sys.step P s e).threads[t]? = some th') :
    (∃ rq crash, e = .spawn rq crash ∧ t = s.threads.length ∧ th' = Thread.start crash rq) ∨
    (∃ inp th, e = .tick t inp ∧ s.threads[t]? = some th ∧ th' = (th.step P inp s.srv).2 ∧
      (Sys.step P s e).srv = (th.step P inp s.srv).1) ∨
    (¬ (∃ inp, e = .tick t inp) ∧ s.threads[t]? = some th') := by
  cases hs : s.threads[t]? with
  | some th =>
    rcases Sys.step_thread (P := P) (e := e) hs with ⟨inp, he, hsrv, hth⟩ | ⟨hne, hth⟩
    · rw [hth] at h
      cases h
      exact Or.inr (Or.inl ⟨inp, th, he, rfl, rfl, by rw [hsrv]⟩)
    · rw [hth] at h
      cases h
      exact Or.inr (Or.inr ⟨hne, rfl⟩)
  | none =>
    have hlen : s.threads.length ≤ t := List.getElem?_eq_none_iff.1 hs
    rcases Sys.step_cases P s e with ⟨rq, crash, rfl, he⟩ | ⟨t', inp, th₁, rfl, h', he⟩ | ⟨pid, rfl, he⟩ | ⟨⟨t', inp, rfl, h'⟩, he⟩
    · rw [he] at h
      have hlt := (List.getElem?_eq_some_iff.1 h).1
      simp only [List.length_append, List.length_singleton] at hlt
      have ht : t = s.threads.length := by omega
      subst ht
      rw [List.getElem?_append_right le_rfl, Nat.sub_self] at h
      cases h
      exact Or.inl ⟨rq, crash, rfl, rfl, rfl⟩
    · rw [he] at h
      have hlt := (List.getElem?_eq_some_iff.1 h).1
      rw [List.length_set] at hlt
      omega
    · rw [he] at h
      exact absurd (hs.symm.trans h) (by simp)
    · rw [he] at h
      exact absurd (hs.symm.trans h) (by simp)

/-- A thread stays, keeps its request, and once answered does not change. -/
theorem Sys.thread_after {s : Sys} (e : SysEvent) {t : ℕ} {th : Thread} (h : s.threads[t]? = some th) :
    ∃ th', (Sys.step P s e).threads[t]? = some th' ∧ th'.request = th.request ∧
      ∀ a, th.answer P = some a → th' = th := by
  rcases Sys.step_thread (P := P) (e := e) h with ⟨inp, -, -, hs⟩ | ⟨-, hs⟩
  · refine ⟨_, hs, Thread.step_request P inp _ th, fun a ha => ?_⟩
    rw [Thread.step_of_answer P ha]
  · exact ⟨th, hs, rfl, fun _ _ => rfl⟩

/-- **Threads stay**, keep their requests, and do not change once they are answered. -/
theorem thread_mono {n m : ℕ} (hnm : n ≤ m) {t : ℕ} {th : Thread} (h : (sAt P es n).threads[t]? = some th) :
    ∃ th', (sAt P es m).threads[t]? = some th' ∧ th'.request = th.request ∧
      ∀ a, th.answer P = some a → th' = th := by
  induction m with
  | zero =>
    obtain rfl : n = 0 := by omega
    exact ⟨th, h, rfl, fun _ _ => rfl⟩
  | succ m ih =>
    rcases Nat.eq_or_lt_of_le hnm with rfl | hlt
    · exact ⟨th, h, rfl, fun _ _ => rfl⟩
    obtain ⟨th', hth', hrq, hans⟩ := ih (by omega)
    by_cases hm : m < es.length
    · rw [sAt_succ hm]
      obtain ⟨th'', hth'', hrq', hans'⟩ := Sys.thread_after (P := P) es[m] hth'
      refine ⟨th'', hth'', hrq'.trans hrq, fun a ha => ?_⟩
      rw [hans' a (by rwa [hans a ha]), hans a ha]
    · rw [sAt_of_length_le (n := m + 1) (by omega), ← sAt_of_length_le (n := m) (by omega)]
      exact ⟨th', hth', hrq, hans⟩

/-- **How a thread got where it is**: what is not so of a new thread, one of its ticks made so. -/
theorem exists_tick {C : Thread → Prop} (hstart : ∀ crash rq, ¬ C (Thread.start crash rq)) {n t : ℕ} {th : Thread}
    (h : (sAt P es n).threads[t]? = some th) (hC : C th) : ∃ m inp th₀, m < n ∧ es[m]? = some (.tick t inp) ∧
      (sAt P es m).threads[t]? = some th₀ ∧ ¬ C th₀ ∧ C (th₀.step P inp (sAt P es m).srv).2 := by
  induction n generalizing th with
  | zero => cases h
  | succ n ih =>
    by_cases hn : n < es.length
    · rw [sAt_succ hn] at h
      rcases Sys.thread_cases h with ⟨rq, crash, -, -, rfl⟩ | ⟨inp, th₀, he, h₀, rfl, -⟩ | ⟨-, h₀⟩
      · exact absurd hC (hstart crash rq)
      · by_cases hC₀ : C th₀
        · obtain ⟨m, inp', th₁, hm, hrest⟩ := ih h₀ hC₀
          exact ⟨m, inp', th₁, by omega, hrest⟩
        · exact ⟨n, inp, th₀, by omega, by rw [List.getElem?_eq_getElem hn, he], h₀, hC₀, hC⟩
      · obtain ⟨m, inp', th₁, hm, hrest⟩ := ih h₀ hC
        exact ⟨m, inp', th₁, by omega, hrest⟩
    · rw [sAt_of_length_le (n := n + 1) (by omega), ← sAt_of_length_le (n := n) (by omega)] at h
      obtain ⟨m, inp', th₁, hm, hrest⟩ := ih h hC
      exact ⟨m, inp', th₁, by omega, hrest⟩

/-- When a request that is one step was answered. -/
theorem exists_onceStep {n t : ℕ} {rq : Request} {a : Answer}
    (h : (sAt P es n).threads[t]? = some (.once rq (some a))) : ∃ m inp srv', m < n ∧
      (sAt P es m).threads[t]? = some (.once rq none) ∧ OnceStep P inp (sAt P es m).srv rq srv' (some a) := by
  obtain ⟨m, inp, th₀, hm, -, hth, hne, he⟩ := exists_tick (C := (· = .once rq (some a)))
    (fun crash rq => by cases rq <;> simp [Thread.start]) h rfl
  cases th₀ with
  | once rq₀ answer => cases answer with
    | none =>
      simp only [Thread.step, Thread.once.injEq] at he
      obtain ⟨rfl, he⟩ := he
      have hstep := onceStep_spec P inp (sAt P es m).srv rq₀
      rw [he] at hstep
      exact ⟨m, inp, _, hm, hth, hstep⟩
    | some a₀ => exact absurd he hne
  | _ => cases he

/-- A request is handled by the thread for its kind. -/
def Thread.Proper : Thread → Prop
  | once rq _ => (∀ r, rq ≠ .ingest r) ∧ ∀ pid doc, rq ≠ .putState pid doc
  | _ => True

theorem Thread.start_proper (crash : Option CrashPoint) (rq : Request) : (start crash rq).Proper := by
  cases rq <;> simp [start, Proper]

theorem Thread.step_proper (inp : Inputs) (srv : Server) {th : Thread} (h : th.Proper) :
    (th.step P inp srv).2.Proper := by
  cases th with
  | ingest => trivial
  | put => trivial
  | once rq answer => cases answer <;> exact h

theorem proper {n t : ℕ} {th : Thread} (h : (sAt P es n).threads[t]? = some th) : th.Proper := by
  revert t th
  refine Sys.invariant (I := fun s => ∀ {t : ℕ} {th : Thread}, s.threads[t]? = some th → th.Proper) (by simp) ?_ n
  intro n hn ih t th h
  rcases Sys.thread_cases h with ⟨rq, crash, -, -, rfl⟩ | ⟨inp, th₀, -, h₀, rfl, -⟩ | ⟨-, h₀⟩
  · exact Thread.start_proper crash rq
  · exact Thread.step_proper inp _ (ih h₀)
  · exact ih h₀

/-- An ingest request is handled by an ingest. -/
theorem ingest_of_request {n t : ℕ} {th : Thread} (h : (sAt P es n).threads[t]? = some th) {rq : IngestRequest}
    (hq : th.request = .ingest rq) : ∃ crash pc, th = .ingest rq crash pc := by
  have hp := proper h
  cases th with
  | ingest rq' crash pc => cases hq; exact ⟨crash, pc, rfl⟩
  | put pid doc pc => cases hq
  | once rq' answer => exact absurd hq (hp.1 rq)

/-- A state write is handled by a state write. -/
theorem put_of_request {n t : ℕ} {th : Thread} (h : (sAt P es n).threads[t]? = some th) {pid : String} {doc : Row}
    (hq : th.request = .putState pid doc) : ∃ pc, th = .put pid doc pc := by
  have hp := proper h
  cases th with
  | ingest rq' crash pc => cases hq
  | put pid' doc' pc => cases hq; exact ⟨pc, rfl⟩
  | once rq' answer => exact absurd hq (hp.2 pid doc)

/-- The requests that arrive in a run. -/
def Arrives (es : List SysEvent) (rq : Request) : Prop := ∃ crash, SysEvent.spawn rq crash ∈ es

/-- The ingest requests that arrive in a run, in order. -/
def ingests (es : List SysEvent) : List IngestRequest :=
  es.filterMap fun
    | .spawn (.ingest rq) _ => some rq
    | _ => none

theorem arrives_ingest {rq : IngestRequest} : Arrives es (.ingest rq) ↔ rq ∈ ingests es := by
  unfold ingests Arrives
  rw [List.mem_filterMap]
  constructor
  · rintro ⟨crash, h⟩
    exact ⟨_, h, rfl⟩
  · rintro ⟨e, he, h⟩
    split at h
    · cases h
      exact ⟨_, he⟩
    · cases h

/-- Every request that arrives is given a thread. -/
theorem thread_of_arrives {rq : Request} (h : Arrives es rq) :
    ∃ (t : ℕ) (th : Thread), (sAt P es es.length).threads[t]? = some th ∧ th.request = rq := by
  obtain ⟨crash, hm⟩ := h
  obtain ⟨n, hn, he⟩ := List.getElem_of_mem hm
  have hth : (sAt P es (n + 1)).threads[(sAt P es n).threads.length]? = some (Thread.start crash rq) := by
    rw [sAt_succ hn, he]
    simp [Sys.step]
  obtain ⟨th, ht, hq, -⟩ := thread_mono (show n + 1 ≤ es.length by omega) hth
  exact ⟨_, th, ht, hq.trans (Thread.start_request crash rq)⟩

/-- Every thread's request has arrived. -/
theorem arrives_of_thread {n t : ℕ} {th : Thread} (h : (sAt P es n).threads[t]? = some th) :
    Arrives es th.request := by
  revert t th
  refine Sys.invariant (I := fun s => ∀ {t : ℕ} {th : Thread}, s.threads[t]? = some th → Arrives es th.request)
    (by simp) ?_ n
  intro n hn ih t th h
  rcases Sys.thread_cases h with ⟨rq, crash, he, -, rfl⟩ | ⟨inp, th₀, -, h₀, rfl, -⟩ | ⟨-, h₀⟩
  · rw [Thread.start_request]
    exact ⟨crash, he ▸ List.getElem_mem hn⟩
  · rw [Thread.step_request]
    exact ih h₀
  · exact ih h₀

end Matterbeam
