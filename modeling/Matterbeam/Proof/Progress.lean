import Matterbeam.Proof.Closed
import Matterbeam.Proof.Deliver
import Matterbeam.Proof.Identity

/-!
# Requests are answered

No request waits for another: a step of a handler is always possible, and brings the request nearer to
its answer, whatever the others do. So no lock is held for good either, and once the requests for a pid
are answered, the next chunk is taken.

* `Thread.left`: how many steps a request has to go.
* `answered_of_ticks`: a request is answered within so many steps of its own.
* `never_stuck`: **the server never gets stuck**.
-/

namespace Matterbeam

/-! ## Steps to go -/

def IngestPc.left : IngestPc → ℕ
  | check => 11
  | claim => 10
  | closed _ => 9
  | prepare _ => 8
  | filter _ _ => 7
  | «begin» _ _ => 6
  | commit _ _ _ => 5
  | mark _ _ _ _ => 4
  | record _ _ _ _ => 3
  | reply _ _ => 2
  | release _ _ => 1
  | done _ => 0

def PutPc.left : PutPc → ℕ
  | claim => 4
  | check _ => 3
  | write _ => 2
  | release _ _ => 1
  | done _ => 0

/-- How many steps a request has to go at most. -/
def Thread.left : Thread → ℕ
  | ingest _ _ pc => pc.left
  | put _ _ pc => pc.left
  | once _ none => 1
  | once _ (some _) => 0

theorem Thread.left_le_eleven (th : Thread) : th.left ≤ 11 := by
  cases th with
  | ingest rq crash pc => cases pc <;> simp [Thread.left, IngestPc.left]
  | put pid doc pc => cases pc <;> simp [Thread.left, PutPc.left]
  | once rq answer => cases answer <;> simp [Thread.left]

/-- The request is a registration, which may draw a pid. -/
def Thread.draws : Thread → Bool
  | once (.register _ _) none => true
  | _ => false

/-- A registration draws pids until one is new; the last draw is the one that counts. -/
def Thread.DrawOk (srv : Server) (inp : Inputs) (th : Thread) : Prop := th.draws = true → srv.freshDraw inp.draw = true

instance (srv : Server) (inp : Inputs) (th : Thread) : Decidable (th.DrawOk srv inp) :=
  inferInstanceAs (Decidable (_ = true → _ = true))

section

variable {P : Runtime} {srv : Server} {inp : Inputs}

theorem IngestStep.left_le {rq : IngestRequest} {crash : Option CrashPoint} {srv' : Server} {pc pc' : IngestPc}
    (h : IngestStep rq crash inp srv pc srv' pc') : pc'.left ≤ pc.left - 1 := by
  cases h <;> simp [IngestPc.left]

theorem PutStep.left_le {pid : String} {doc : Row} {srv' : Server} {pc pc' : PutPc} (h : PutStep pid doc srv pc srv' pc') :
    pc'.left ≤ pc.left - 1 := by
  cases h <;> simp [PutPc.left]

/-- A request that is one step is answered by it. -/
theorem onceStep_answers {rq : Request} (hp : (Thread.once rq none).Proper) (hd : (Thread.once rq none).DrawOk srv inp) :
    (onceStep P inp srv rq).2 ≠ none := by
  cases rq with
  | register name datasetName =>
    simp only [onceStep]
    cases hreg : srv.registry (Server.registryKey name datasetName) with
    | some pid =>
      rw [Server.register_known hreg]
      simp
    | none =>
      rw [Server.register_created hreg, if_pos (hd rfl)]
      simp
  | getState pid => cases hdoc : (srv.processState pid).dltState <;> simp [onceStep, hdoc]
  | completeLoad pid loadId => simp [onceStep]
  | ingest rq => exact absurd rfl (hp.1 rq)
  | putState pid doc => exact absurd rfl (hp.2 pid doc)

/-- **A step brings a request nearer to its answer.** -/
theorem Thread.step_left {th : Thread} (hp : th.Proper) (hd : th.DrawOk srv inp) :
    (th.step P inp srv).2.left ≤ th.left - 1 := by
  cases th with
  | ingest rq crash pc => exact (IngestPc.step_spec rq crash inp srv pc).left_le
  | put pid doc pc => exact (PutPc.step_spec pid doc srv pc).left_le
  | once rq answer =>
    cases answer with
    | some a => exact le_rfl
    | none =>
      obtain ⟨a, ha⟩ := Option.ne_none_iff_exists'.1 (onceStep_answers (P := P) hp hd)
      simp only [Thread.step, ha]
      exact le_rfl

theorem Thread.answer_of_left {th : Thread} (h : th.left = 0) : ∃ a, th.answer P = some a := by
  cases th with
  | ingest rq crash pc => cases pc <;> first | exact ⟨_, rfl⟩ | cases h
  | put pid doc pc => cases pc <;> first | exact ⟨_, rfl⟩ | cases h
  | once rq answer =>
    cases answer with
    | none => cases h
    | some a => exact ⟨a, rfl⟩

end

/-! ## Runs -/

section

variable {P : Runtime} {es : List SysEvent}

def SysEvent.DrawOk (s : Sys) : SysEvent → Prop
  | tick t inp => ∀ th ∈ s.threads[t]?, th.DrawOk s.srv inp
  | _ => True

instance (s : Sys) : (e : SysEvent) → Decidable (e.DrawOk s)
  | .tick t inp => inferInstanceAs (Decidable (∀ th ∈ s.threads[t]?, th.DrawOk s.srv inp))
  | .spawn _ _ | .pause _ => .isTrue trivial

/-- The draws of a run are good. -/
def DrawsOk (P : Runtime) (es : List SysEvent) : Prop := ∀ n (hn : n < es.length), es[n].DrawOk (sAt P es n)

/-- What a request has to go after some steps of its own, whatever has happened in between. -/
theorem left_le (hdraws : DrawsOk P es) {k m t : ℕ} (hkm : k ≤ m) (hm : m ≤ es.length) {th th' : Thread}
    (hk : (sAt P es k).threads[t]? = some th) (hth : (sAt P es m).threads[t]? = some th') :
    th'.left ≤ th.left - ticksOf es t k m := by
  induction m, hkm using Nat.le_induction generalizing th' with
  | base =>
    rw [hk] at hth
    cases hth
    have h0 : ticksOf es t k k = 0 := by simp [ticksOf]
    rw [h0, Nat.sub_zero]
  | succ m hkm ih =>
    have hlt : m < es.length := hm
    obtain ⟨th₀, h₀, -⟩ := thread_mono hkm hk
    have hle := ih hlt.le h₀
    rw [ticksOf_succ hkm hlt]
    rw [sAt_succ hlt] at hth
    rcases Sys.step_thread (P := P) (e := es[m]) h₀ with ⟨inp, he, -, hstep⟩ | ⟨hne, hstep⟩
    · -- its own step
      rw [hstep, Option.some.injEq] at hth
      subst hth
      rw [if_pos (SysEvent.ticks_iff.2 ⟨inp, he⟩)]
      have hdraw := hdraws m hlt
      rw [he] at hdraw
      have hdraw := hdraw th₀ h₀
      have := Thread.step_left (P := P) (proper h₀) hdraw
      omega
    · -- a step of anything else
      rw [hstep, Option.some.injEq] at hth
      subst hth
      rw [if_neg fun h => hne (SysEvent.ticks_iff.1 h), Nat.add_zero]
      exact hle

/-- **A request is answered within so many steps of its own**, whatever the other requests do. -/
theorem answered_of_ticks (hdraws : DrawsOk P es) {k m t : ℕ} (hkm : k ≤ m) (hm : m ≤ es.length) {th th' : Thread}
    (hk : (sAt P es k).threads[t]? = some th) (hth : (sAt P es m).threads[t]? = some th')
    (hturns : th.left ≤ ticksOf es t k m) : ∃ a, th'.answer P = some a := by
  have hle := left_le hdraws hkm hm hk hth
  exact Thread.answer_of_left (by omega)

/-- What holds a pid is addressed to it. -/
theorem Thread.pid_of_held {th : Thread} {pid : String} {v : ℕ} (h : th.held = some (pid, v)) : th.request.pid? = some pid := by
  cases th with
  | ingest rq crash pc =>
    obtain ⟨v', -, he⟩ := Option.map_eq_some_iff.1 h
    exact congrArg some (congrArg Prod.fst he)
  | put p doc pc =>
    obtain ⟨v', -, he⟩ := Option.map_eq_some_iff.1 h
    exact congrArg some (congrArg Prod.fst he)
  | once rq answer => cases h

/-- A chunk that is delivered to an open pid that nobody holds is taken, or was taken before. -/
theorem ingest_open {srv : Server} {rq : IngestRequest} (inp : Inputs) (hopen : srv.Open rq.pid rq.loadId)
    (hhash : rq.lines.all Envelope.hashable = true) : ∃ r, (srv.ingest rq inp).2 = .done (.ingested r) := by
  cases hl : srv.ledger rq.lkey with
  | none =>
    obtain ⟨srv', he, -⟩ := ingest_taken ⟨hl, hhash, hopen⟩ inp
    exact ⟨_, congrArg Prod.snd he⟩
  | some r =>
    have hhit : IngestPc.step rq none inp srv .check =
        ({ srv with counters.duplicates := srv.counters.duplicates + 1 }, .done (.ingested { r with duplicate := true })) := by
      unfold IngestPc.step
      rw [hl]
    refine ⟨{ r with duplicate := true }, ?_⟩
    unfold Server.ingest
    rw [Server.ingestFor_succ, hhit, Server.ingestFor_done]

/-- **The server never gets stuck.** In every run each request is answered within at most eleven steps of
its own, whatever the others do or leave undone, and wherever they crash. And whenever the requests for a
pid have been answered, the pid takes the next chunk whose ids can be hashed, unless it is paused or the
load is closed. -/
theorem never_stuck (P : Runtime) (es : List SysEvent) (hdraws : DrawsOk P es) :
    (∀ th : Thread, th.left ≤ 11) ∧
    (∀ (k m t : ℕ) (th th' : Thread), k ≤ m → m ≤ es.length → (sAt P es k).threads[t]? = some th →
      (sAt P es m).threads[t]? = some th' → th.left ≤ ticksOf es t k m → ∃ a, th'.answer P = some a) ∧
    ∀ (m : ℕ) (rq : IngestRequest) (inp : Inputs) (item : PidItem),
      (∀ th ∈ (sAt P es m).threads, th.request.pid? = some rq.pid → ∃ a, th.answer P = some a) →
      (sAt P es m).srv.pids rq.pid = some item → item.fsmState ≠ .paused →
      (rq.pid, rq.loadId) ∉ (sAt P es m).srv.closedLoads → rq.lines.all Envelope.hashable = true →
        ∃ srv r, (sAt P es m).deliver P (.ingest rq) inp =
          ⟨srv, (sAt P es m).threads ++ [.ingest rq none (.done (.ingested r))]⟩ := by
  refine ⟨Thread.left_le_eleven, fun k m t th th' hkm hm hk hth hturns => answered_of_ticks hdraws hkm hm hk hth hturns,
    fun m rq inp item hdone hpid hactive hload hhash => ?_⟩
  have hfree : item.invokeSemaphore = 1 := free_of_idle hpid fun th hth v hheld => by
    obtain ⟨a, ha⟩ := hdone th hth (Thread.pid_of_held hheld)
    rw [Thread.held_of_answer ha] at hheld
    cases hheld
  obtain ⟨r, hr⟩ := ingest_open inp ⟨⟨item, hpid, hactive, hfree⟩, hload⟩ hhash
  rw [deliver_ingest, hr]
  exact ⟨_, r, rfl⟩

end

/-! ### After a crash -/

/-- A pid is registered, and its first chunk crashes when it is committed. -/
def crashingRun : List SysEvent :=
  [.spawn (.register "shop" "shop") none, .tick 0 someInputs, .spawn (.ingest ordersChunk) (some .afterCommitBeforeMark)] ++
    List.replicate 11 (.tick 1 someInputs)

/-- It is answered, and when it is sent again it is taken. -/
theorem never_stuck_crashed :
    (∃ th, (sAt .plain crashingRun 14).threads[1]? = some th ∧ ∃ a, th.answer .plain = some a) ∧
    ∃ srv r, (sAt .plain crashingRun 14).deliver .plain (.ingest ordersChunk) someInputs =
      ⟨srv, (sAt .plain crashingRun 14).threads ++ [.ingest ordersChunk none (.done (.ingested r))]⟩ := by
  have hdraws : DrawsOk .plain crashingRun := by
    unfold DrawsOk
    decide
  obtain ⟨-, hanswered, htaken⟩ := never_stuck .plain crashingRun hdraws
  have hdone : (sAt .plain crashingRun 14).threads.all (fun th => th.left = 0) = true := by decide
  obtain ⟨item, hitem, hactive⟩ : ∃ item, (sAt .plain crashingRun 14).srv.pids ordersChunk.pid = some item ∧
      item.fsmState ≠ .paused := ⟨_, rfl, by decide⟩
  exact ⟨⟨_, rfl, hanswered 3 14 1 _ _ (by decide) (by decide) rfl rfl (by decide)⟩, htaken 14 ordersChunk someInputs item
    (fun th hth _ => Thread.answer_of_left (by simpa using List.all_eq_true.1 hdone th hth)) hitem hactive (by decide) (by decide)⟩

end Matterbeam
