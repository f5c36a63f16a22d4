import Matterbeam.Proof.Acked
import Matterbeam.Proof.Lock

/-!
# A conflict changes nothing

A request that is turned away leaves the server's data as it was: each of its rejections comes
before its first write. And a delivery that meets a taken lock leaves no trace but a counter,
so the deliveries of a call that were contended can be struck from the run.

* `rejected_neutral`: the steps of a rejected request leave the data alone.
* `strike_run`: a run without the steps of contended deliveries ends in the same state.
* `conflict_noop`: **a 409 is a no-op.**
-/

namespace Matterbeam

open Function Prog

/-! ## Data -/

/-- An item without the fields of the entry lock. -/
def PidItem.unlocked (item : PidItem) : PidItem :=
  { item with updateVersion := 0, invokeSemaphore := 0, fsmState := .listening }

/-- The server without the statistics counters and the fields of the entry locks. -/
def Server.data (srv : Server) : Server :=
  { srv with counters := {}, pids := fun p => (srv.pids p).map PidItem.unlocked }

theorem data_counters (srv : Server) (c : Counters) : ({ srv with counters := c } : Server).data = srv.data := rfl

theorem data_setPid {srv : Server} {pid : String} {item item' : PidItem} (h : srv.pids pid = some item)
    (hi : item'.unlocked = item.unlocked) : (srv.setPid pid item').data = srv.data := by
  unfold Server.data Server.setPid
  congr 1
  funext p
  dsimp only
  by_cases hp : p = pid
  · subst hp
    rw [update_self, h, Option.map_some, Option.map_some, hi]
  · rw [update_of_ne hp]

theorem data_release (srv : Server) (pid : String) (v : ℕ) : (srv.release pid v).data = srv.data := by
  rcases srv.release_cases pid v with ⟨item, hi, -, he⟩ | ⟨-, he⟩
  · rw [he]
    exact data_setPid hi rfl
  · rw [he]

/-! ## Rejections -/

/-- The request was turned away, or its chunk was in the ledger. -/
def Outcome.Rejected : Outcome → Prop
  | contention => True
  | terminal _ => True
  | ingested r => r.duplicate = true
  | _ => False

/-- The ingest is past its last rejection, or has ended otherwise. -/
def IngestPc.Past : IngestPc → Prop
  | check => False
  | claim => False
  | closed _ => False
  | reply _ r => r.duplicate = false
  | release _ out => ¬ out.Rejected
  | done out => ¬ out.Rejected
  | _ => True

/-- The state write is past its last rejection, or has ended otherwise. -/
def PutPc.Past : PutPc → Prop
  | write _ => True
  | release _ out => ¬ out.Rejected
  | done out => ¬ out.Rejected
  | _ => False

def Thread.Past : Thread → Prop
  | ingest _ _ pc => pc.Past
  | put _ _ pc => pc.Past
  | once _ _ => True

/-- A request that has ended has been answered. -/
theorem Thread.answer_of_outcome {P : Runtime} {th : Thread} {out : Outcome} (h : th.outcome = some out) :
    ∃ a, th.answer P = some a := by
  cases th with
  | ingest rq crash pc => cases pc <;> cases h; exact ⟨_, rfl⟩
  | put pid doc pc => cases pc <;> cases h; exact ⟨_, rfl⟩
  | once rq answer => cases h

theorem not_past_of_rejected {th : Thread} {out : Outcome} (h : th.outcome = some out) (hr : out.Rejected) :
    ¬ th.Past := by
  cases th with
  | ingest rq crash pc => cases pc <;> cases h; exact not_not.2 hr
  | put pid doc pc => cases pc <;> cases h; exact not_not.2 hr
  | once rq answer => cases h

section

variable {srv srv' : Server}

/-- **No ingest writes before its last rejection.** -/
theorem IngestStep.past {rq : IngestRequest} {crash : Option CrashPoint} {inp : Inputs} {pc pc' : IngestPc}
    (h : IngestStep rq crash inp srv pc srv' pc') : (pc.Past → pc'.Past) ∧ (¬ pc'.Past → srv'.data = srv.data) := by
  cases h with
  | hit h c => exact ⟨False.elim, fun _ => data_counters srv c⟩
  | miss h => exact ⟨False.elim, fun _ => rfl⟩
  | claimed h hf hs => exact ⟨False.elim, fun _ => data_setPid h rfl⟩
  | refused c h => exact ⟨False.elim, fun _ => data_counters srv c⟩
  | late h => exact ⟨False.elim, fun _ => rfl⟩
  | opened h => exact ⟨False.elim, fun _ => rfl⟩
  | unhashable c h => exact ⟨fun _ h => h, fun _ => data_counters srv c⟩
  | crashMark h r => exact ⟨fun _ h => h, fun _ => rfl⟩
  | crashRecord h r => exact ⟨fun _ h => h, fun _ => rfl⟩
  | crashReply h r => exact ⟨fun _ h => h, fun _ => rfl⟩
  | @recorded v b beginMs seg => exact ⟨fun _ => rfl, fun h => absurd rfl h⟩
  | @replied v res =>
    refine ⟨fun (h : res.duplicate = false) (hr : res.duplicate = true) => ?_, fun _ => rfl⟩
    rw [h] at hr
    cases hr
  | released => exact ⟨id, fun _ => data_release srv _ _⟩
  | ended => exact ⟨id, fun _ => rfl⟩
  | _ => exact ⟨fun _ => trivial, fun h => absurd trivial h⟩

/-- No state write writes before its last rejection. -/
theorem PutStep.past {pid : String} {doc : Row} {pc pc' : PutPc} (h : PutStep pid doc srv pc srv' pc') :
    (pc.Past → pc'.Past) ∧ (¬ pc'.Past → srv'.data = srv.data) := by
  cases h with
  | claimed h hf hs => exact ⟨False.elim, fun _ => data_setPid h rfl⟩
  | refused c h => exact ⟨False.elim, fun _ => data_counters srv c⟩
  | stale h => exact ⟨False.elim, fun _ => rfl⟩
  | newer h => exact ⟨False.elim, fun _ => rfl⟩
  | raised h => exact ⟨False.elim, fun _ => rfl⟩
  | written => exact ⟨fun _ h => h, fun h => absurd id h⟩
  | released => exact ⟨id, fun _ => data_release srv _ _⟩
  | ended => exact ⟨id, fun _ => rfl⟩

end

section

variable {P : Runtime} {es : List SysEvent}

theorem Thread.step_past (inp : Inputs) (srv : Server) (th : Thread) :
    (th.Past → (th.step P inp srv).2.Past) ∧ (¬ (th.step P inp srv).2.Past → (th.step P inp srv).1.data = srv.data) := by
  cases th with
  | ingest rq crash pc => exact (IngestPc.step_spec rq crash inp srv pc).past
  | put pid doc pc => exact (PutPc.step_spec pid doc srv pc).past
  | once rq answer => cases answer <;> exact ⟨fun _ => trivial, fun h => absurd trivial h⟩

/-- A thread that is past its rejections stays so. -/
theorem past_mono {n m t : ℕ} (hnm : n ≤ m) {th th' : Thread} (h : (sAt P es n).threads[t]? = some th)
    (h' : (sAt P es m).threads[t]? = some th') (hp : th.Past) : th'.Past := by
  induction m generalizing th' with
  | zero =>
    obtain rfl : n = 0 := by omega
    rw [h] at h'
    cases h'
    exact hp
  | succ m ih =>
    rcases Nat.eq_or_lt_of_le hnm with rfl | hlt
    · rw [h] at h'
      cases h'
      exact hp
    obtain ⟨th₀, h₀, -⟩ := thread_mono (by omega : n ≤ m) h
    have hp₀ := ih (by omega) h₀
    by_cases hm : m < es.length
    · rw [sAt_succ hm] at h'
      rcases Sys.step_thread (P := P) (e := es[m]) h₀ with ⟨inp, -, -, hs⟩ | ⟨-, hs⟩
      · rw [hs] at h'
        cases h'
        exact (Thread.step_past inp _ th₀).1 hp₀
      · rw [hs] at h'
        cases h'
        exact hp₀
    · rw [sAt_of_length_le (n := m + 1) (by omega), ← sAt_of_length_le (n := m) (by omega), h₀] at h'
      cases h'
      exact hp₀

/-- The steps of a request that has not got past its rejections leave the data alone. -/
theorem neutral_of_not_past {n t : ℕ} {th : Thread} (h : (sAt P es n).threads[t]? = some th) (hpast : ¬ th.Past)
    {m : ℕ} {inp : Inputs} (hm : m < n) (he : es[m]? = some (.tick t inp)) :
    (sAt P es (m + 1)).srv.data = (sAt P es m).srv.data := by
  obtain ⟨hlt, he⟩ := List.getElem?_eq_some_iff.1 he
  rw [sAt_succ hlt, he]
  cases h₀ : (sAt P es m).threads[t]? with
  | none => simp only [Sys.step, h₀]
  | some th₀ =>
    have h₁ : (sAt P es (m + 1)).threads[t]? = some (th₀.step P inp (sAt P es m).srv).2 := by
      rw [sAt_succ hlt, he]
      simp only [Sys.step, h₀]
      exact List.getElem?_set_self (List.getElem?_eq_some_iff.1 h₀).1
    simp only [Sys.step, h₀]
    exact (Thread.step_past inp _ th₀).2 fun hp => hpast (past_mono (by omega) h₁ h hp)

/-- **The steps of a rejected request leave the data alone.** -/
theorem rejected_neutral {n t : ℕ} {th : Thread} {out : Outcome} (h : (sAt P es n).threads[t]? = some th)
    (ho : th.outcome = some out) (hr : out.Rejected) {m : ℕ} {inp : Inputs} (hm : m < n)
    (he : es[m]? = some (.tick t inp)) : (sAt P es (m + 1)).srv.data = (sAt P es m).srv.data :=
  neutral_of_not_past h (not_past_of_rejected ho hr) hm he

end

/-! ## Contended deliveries -/

/-- The ingest has not got past its claim. -/
def IngestPc.Claiming : IngestPc → Prop
  | check => True
  | claim => True
  | release _ out => out = .contention
  | done out => out = .contention
  | _ => False

/-- The state write has not got past its claim. -/
def PutPc.Claiming : PutPc → Prop
  | claim => True
  | release _ out => out = .contention
  | done out => out = .contention
  | _ => False

def Thread.Claiming : Thread → Prop
  | ingest _ _ pc => pc.Claiming
  | put _ _ pc => pc.Claiming
  | once _ _ => False

/-- No one that holds the lock is turned away as contended. -/
def IngestPc.Sane : IngestPc → Prop
  | release _ out => out ≠ .contention ∧ out ≠ .terminal "lock_contention"
  | done out => out ≠ .terminal "lock_contention"
  | _ => True

def PutPc.Sane : PutPc → Prop
  | release _ out => out ≠ .contention ∧ out ≠ .terminal "lock_contention"
  | done out => out ≠ .terminal "lock_contention"
  | _ => True

def Thread.Sane : Thread → Prop
  | ingest _ _ pc => pc.Sane
  | put _ _ pc => pc.Sane
  | once _ answer => ∀ rsp, answer = some (.reply rsp) → HttpTransport.isContention rsp = false

section

variable {srv srv' : Server}

theorem IngestStep.sane {rq : IngestRequest} {crash : Option CrashPoint} {inp : Inputs} {pc pc' : IngestPc}
    (h : IngestStep rq crash inp srv pc srv' pc') (hs : pc.Sane) : pc'.Sane := by
  cases h with
  | refused c h => rcases h with rfl | ⟨rfl, -⟩ | ⟨-, r, rfl⟩ <;> simp [IngestPc.Sane]
  | released => exact hs.2
  | ended => exact hs
  | _ => simp [IngestPc.Sane]

theorem PutStep.sane {pid : String} {doc : Row} {pc pc' : PutPc} (h : PutStep pid doc srv pc srv' pc')
    (hs : pc.Sane) : pc'.Sane := by
  cases h with
  | refused c h => rcases h with rfl | ⟨rfl, -⟩ | ⟨-, r, rfl⟩ <;> simp [PutPc.Sane]
  | released => exact hs.2
  | ended => exact hs
  | _ => simp [PutPc.Sane]

theorem OnceStep.sane {P : Runtime} {inp : Inputs} {rq : Request} {a : Option Answer}
    (h : OnceStep P inp srv rq srv' a) : Thread.Sane (.once rq a) := by
  cases h <;> intro rsp he <;> cases he <;> rfl

/-- A step that does not get past the claim changes nothing but a counter. -/
theorem IngestStep.claiming {rq : IngestRequest} {crash : Option CrashPoint} {inp : Inputs} {pc pc' : IngestPc}
    (h : IngestStep rq crash inp srv pc srv' pc') (hs : pc.Sane) (hc : pc'.Claiming) :
    pc.Claiming ∧ ∃ c, srv' = { srv with counters := c } := by
  cases h with
  | miss h => exact ⟨trivial, _, rfl⟩
  | refused c h => exact ⟨trivial, c, rfl⟩
  | released => exact absurd hc hs.1
  | ended => exact ⟨hc, _, rfl⟩
  | _ => cases hc

theorem PutStep.claiming {pid : String} {doc : Row} {pc pc' : PutPc} (h : PutStep pid doc srv pc srv' pc')
    (hs : pc.Sane) (hc : pc'.Claiming) : pc.Claiming ∧ ∃ c, srv' = { srv with counters := c } := by
  cases h with
  | refused c h => exact ⟨trivial, c, rfl⟩
  | released => exact absurd hc hs.1
  | ended => exact ⟨hc, _, rfl⟩
  | _ => cases hc

end

/-! ## The counters are never read -/

/-- The servers differ in their counters only. -/
def SameBut (srv srv' : Server) : Prop := ∃ c, srv' = { srv with counters := c }

theorem SameBut.trans {srv srv' srv'' : Server} (h : SameBut srv srv') (h' : SameBut srv' srv'') :
    SameBut srv srv'' := by
  obtain ⟨c, rfl⟩ := h
  obtain ⟨c', rfl⟩ := h'
  exact ⟨c', rfl⟩

section

variable (srv : Server) (c : Counters)

theorem claim_counters (pid : String) : SameBut (srv.claim pid).1 (({ srv with counters := c } : Server).claim pid).1 ∧
    (({ srv with counters := c } : Server).claim pid).2 = (srv.claim pid).2 := by
  unfold Server.claim
  dsimp only
  cases srv.pids pid with
  | none => exact ⟨⟨c, rfl⟩, rfl⟩
  | some item =>
    dsimp only
    split_ifs <;> exact ⟨⟨_, rfl⟩, rfl⟩

theorem release_counters (pid : String) (v : ℕ) :
    SameBut (srv.release pid v) (({ srv with counters := c } : Server).release pid v) := by
  unfold Server.release
  dsimp only
  cases srv.pids pid with
  | none => exact ⟨c, rfl⟩
  | some item =>
    dsimp only
    split_ifs <;> exact ⟨c, rfl⟩

theorem allocWriterId_counters (pid : String) :
    ({ srv with counters := c } : Server).allocWriterId pid = { srv.allocWriterId pid with counters := c } := by
  unfold Server.allocWriterId
  dsimp only
  cases srv.pids pid <;> rfl

theorem trackJobArrival_counters (pid recordtypeId jobId : String) : SameBut (srv.trackJobArrival pid recordtypeId jobId)
    (({ srv with counters := c } : Server).trackJobArrival pid recordtypeId jobId) := by
  unfold Server.trackJobArrival
  have hrt : ({ srv with counters := c } : Server).rtState pid recordtypeId = srv.rtState pid recordtypeId := rfl
  dsimp only
  rw [hrt]
  split_ifs <;> exact ⟨_, rfl⟩

/-- The counters are not read by a step of `ingest`. -/
theorem IngestPc.step_counters (rq : IngestRequest) (crash : Option CrashPoint) (inp : Inputs) (pc : IngestPc) :
    SameBut (pc.step rq crash inp srv).1 (pc.step rq crash inp { srv with counters := c }).1 ∧
      (pc.step rq crash inp { srv with counters := c }).2 = (pc.step rq crash inp srv).2 := by
  cases pc with
  | check =>
    unfold IngestPc.step
    dsimp only
    cases srv.ledger rq.lkey <;> exact ⟨⟨_, rfl⟩, rfl⟩
  | claim =>
    -- the claim counts a contention, and says the same
    obtain ⟨h₁, h₂⟩ := claim_counters srv c rq.pid
    unfold IngestPc.step
    generalize ({ srv with counters := c } : Server).claim rq.pid = x at *
    generalize srv.claim rq.pid = y at *
    obtain ⟨x₁, x₂⟩ := x
    obtain ⟨y₁, y₂⟩ := y
    dsimp only at h₁ h₂
    subst h₂
    cases x₂ <;> exact ⟨h₁, rfl⟩
  | closed v =>
    unfold IngestPc.step
    dsimp only
    split_ifs <;> exact ⟨⟨c, rfl⟩, rfl⟩
  | prepare v =>
    refine ⟨?_, rfl⟩
    change SameBut _ ((({ srv with counters := c } : Server).allocWriterId rq.pid).trackJobArrival _ _ _)
    rw [allocWriterId_counters]
    exact trackJobArrival_counters _ _ _ _ _
  | filter v w =>
    unfold IngestPc.step
    dsimp only
    generalize dedupLoop (srv.dltIdsSeen (rq.pid, rq.loadId)) rq.lines = x
    obtain ⟨hits, kept⟩ := x
    cases kept <;> exact ⟨⟨_, rfl⟩, rfl⟩
  | «begin» v b => exact ⟨⟨c, rfl⟩, rfl⟩
  | commit v b ms =>
    unfold IngestPc.step
    dsimp only
    split_ifs <;> exact ⟨⟨_, rfl⟩, rfl⟩
  | mark v b ms seg =>
    unfold IngestPc.step
    dsimp only
    split_ifs <;> exact ⟨⟨c, rfl⟩, rfl⟩
  | record v b ms seg =>
    unfold IngestPc.step
    dsimp only
    split_ifs <;> exact ⟨⟨c, rfl⟩, rfl⟩
  | reply v r =>
    unfold IngestPc.step
    dsimp only
    split_ifs <;> exact ⟨⟨c, rfl⟩, rfl⟩
  | release v out => exact ⟨release_counters srv c rq.pid v, rfl⟩
  | done out => exact ⟨⟨c, rfl⟩, rfl⟩

theorem PutPc.step_counters (pid : String) (doc : Row) (pc : PutPc) :
    SameBut (pc.step pid doc srv).1 (pc.step pid doc { srv with counters := c }).1 ∧
      (pc.step pid doc { srv with counters := c }).2 = (pc.step pid doc srv).2 := by
  cases pc with
  | claim =>
    obtain ⟨h₁, h₂⟩ := claim_counters srv c pid
    unfold PutPc.step
    generalize ({ srv with counters := c } : Server).claim pid = x at *
    generalize srv.claim pid = y at *
    obtain ⟨x₁, x₂⟩ := x
    obtain ⟨y₁, y₂⟩ := y
    dsimp only at h₁ h₂
    subst h₂
    cases x₂ <;> exact ⟨h₁, rfl⟩
  | check v =>
    unfold PutPc.step
    dsimp only
    cases Server.staleVersion (srv.processState pid).dltState doc with
    | error e => exact ⟨⟨c, rfl⟩, rfl⟩
    | ok b => cases b <;> exact ⟨⟨c, rfl⟩, rfl⟩
  | write v => exact ⟨⟨c, rfl⟩, rfl⟩
  | release v out => exact ⟨release_counters srv c pid v, rfl⟩
  | done out => exact ⟨⟨c, rfl⟩, rfl⟩

theorem onceStep_counters (P : Runtime) (inp : Inputs) (rq : Request) :
    SameBut (onceStep P inp srv rq).1 (onceStep P inp { srv with counters := c } rq).1 ∧
      (onceStep P inp { srv with counters := c } rq).2 = (onceStep P inp srv rq).2 := by
  cases rq with
  | register name dataset =>
    have hreg : ({ srv with counters := c } : Server).registry = srv.registry := rfl
    simp only [onceStep]
    cases h : srv.registry (Server.registryKey name dataset) with
    | some pid =>
      rw [Server.register_known h, Server.register_known (hreg ▸ h)]
      exact ⟨⟨c, rfl⟩, rfl⟩
    | none =>
      rw [Server.register_created h, Server.register_created (hreg ▸ h)]
      have hf : ({ srv with counters := c } : Server).freshDraw inp.draw = srv.freshDraw inp.draw := rfl
      rw [hf]
      split_ifs <;> exact ⟨⟨c, rfl⟩, rfl⟩
  | getState pid =>
    simp only [onceStep]
    cases (srv.processState pid).dltState <;> exact ⟨⟨c, rfl⟩, rfl⟩
  | putState pid doc => exact ⟨⟨c, rfl⟩, rfl⟩
  | ingest rq => exact ⟨⟨c, rfl⟩, rfl⟩
  | completeLoad pid loadId => exact ⟨⟨c, rfl⟩, rfl⟩

/-- **The counters are never read**: servers that differ in them only make the same steps. -/
theorem Thread.step_counters (P : Runtime) (inp : Inputs) (th : Thread) :
    SameBut (th.step P inp srv).1 (th.step P inp { srv with counters := c }).1 ∧
      (th.step P inp { srv with counters := c }).2 = (th.step P inp srv).2 := by
  cases th with
  | ingest rq crash pc =>
    obtain ⟨h₁, h₂⟩ := IngestPc.step_counters srv c rq crash inp pc
    exact ⟨h₁, congrArg (Thread.ingest rq crash) h₂⟩
  | put pid doc pc =>
    obtain ⟨h₁, h₂⟩ := PutPc.step_counters srv c pid doc pc
    exact ⟨h₁, congrArg (Thread.put pid doc) h₂⟩
  | once rq answer => cases answer with
    | none =>
      obtain ⟨h₁, h₂⟩ := onceStep_counters srv c P inp rq
      exact ⟨h₁, congrArg (Thread.once rq) h₂⟩
    | some a => exact ⟨⟨c, rfl⟩, rfl⟩

end

/-! ## Striking contended deliveries -/

section

variable {P : Runtime} {es : List SysEvent}

theorem sane {n t : ℕ} {th : Thread} (h : (sAt P es n).threads[t]? = some th) : th.Sane := by
  revert t th
  refine Sys.invariant (I := fun s => ∀ {t : ℕ} {th : Thread}, s.threads[t]? = some th → th.Sane) (by simp) ?_ n
  intro n hn ih t th h
  rcases Sys.thread_cases h with ⟨rq, crash, -, -, rfl⟩ | ⟨inp, th₀, -, h₀, rfl, -⟩ | ⟨-, h₀⟩
  · cases rq <;> first | trivial | exact fun _ h => by cases h
  · have hs := ih h₀
    cases th₀ with
    | ingest rq crash pc => exact (IngestPc.step_spec rq crash inp _ pc).sane hs
    | put pid doc pc => exact (PutPc.step_spec pid doc _ pc).sane hs
    | once rq answer => cases answer with
      | none => exact (onceStep_spec P inp _ rq).sane
      | some a => exact hs
  · exact ih h₀

theorem Thread.step_claiming {inp : Inputs} {srv : Server} {th : Thread} (hs : th.Sane)
    (hc : (th.step P inp srv).2.Claiming) : th.Claiming ∧ SameBut srv (th.step P inp srv).1 := by
  cases th with
  | ingest rq crash pc => exact (IngestPc.step_spec rq crash inp srv pc).claiming hs hc
  | put pid doc pc => exact (PutPc.step_spec pid doc srv pc).claiming hs hc
  | once rq answer => cases answer <;> cases hc

/-- A thread that has not got past its claim never had. -/
theorem claiming_back {n m t : ℕ} (hnm : n ≤ m) {th th' : Thread} (h : (sAt P es n).threads[t]? = some th)
    (h' : (sAt P es m).threads[t]? = some th') (hc : th'.Claiming) : th.Claiming := by
  induction m generalizing th' with
  | zero =>
    obtain rfl : n = 0 := by omega
    rw [h] at h'
    cases h'
    exact hc
  | succ m ih =>
    rcases Nat.eq_or_lt_of_le hnm with rfl | hlt
    · rw [h] at h'
      cases h'
      exact hc
    obtain ⟨th₀, h₀, -⟩ := thread_mono (by omega : n ≤ m) h
    refine ih (by omega) h₀ ?_
    -- back over one event, which may be a step of the thread
    by_cases hm : m < es.length
    · rw [sAt_succ hm] at h'
      rcases Sys.step_thread (P := P) (e := es[m]) h₀ with ⟨inp, -, -, hs⟩ | ⟨-, hs⟩
      · rw [hs] at h'
        cases h'
        exact (Thread.step_claiming (sane h₀) hc).1
      · rw [hs] at h'
        cases h'
        exact hc
    · rw [sAt_of_length_le (n := m + 1) (by omega), ← sAt_of_length_le (n := m) (by omega), h₀] at h'
      cases h'
      exact hc

/-- The event is not a step of a thread in `K`. -/
def keepEvent (K : List ℕ) : SysEvent → Bool
  | .tick t _ => t ∉ K
  | _ => true

/-- The run without the steps of the threads in `K`. -/
def strike (K : List ℕ) (es : List SysEvent) : List SysEvent := es.filter (keepEvent K)

/-- `s'` is `s` without what the threads in `K` did: they have not begun, all other threads are
where they are in `s`, and so is the server, but for its counters. -/
structure Struck (K : List ℕ) (s s' : Sys) : Prop where
  srv : SameBut s'.srv s.srv
  length : s'.threads.length = s.threads.length
  other : ∀ t, t ∉ K → s'.threads[t]? = s.threads[t]?
  idle : ∀ t ∈ K, ∀ th, s'.threads[t]? = some th → ∃ crash rq, th = Thread.start crash rq

/-- An event that both runs make. -/
theorem Struck.keep {K : List ℕ} {s s' : Sys} (h : Struck K s s') {e : SysEvent} (he : keepEvent K e = true) :
    Struck K (Sys.step P s e) (Sys.step P s' e) := by
  obtain ⟨c, hc⟩ := h.srv
  cases e with
  | spawn rq crash =>
    refine ⟨h.srv, by simp [Sys.step, h.length], fun t ht => ?_, fun t ht th hth => ?_⟩
    · change (s'.threads ++ [_])[t]? = (s.threads ++ [_])[t]?
      rcases Nat.lt_or_ge t s.threads.length with hlt | hge
      · rw [List.getElem?_append_left hlt, List.getElem?_append_left (h.length ▸ hlt)]
        exact h.other t ht
      · rw [List.getElem?_append_right hge, List.getElem?_append_right (h.length ▸ hge), h.length]
    · have hth : (s'.threads ++ [Thread.start crash rq])[t]? = some th := hth
      rcases concat_cases hth with hth | ⟨-, rfl⟩
      · exact h.idle t ht th hth
      · exact ⟨crash, rq, rfl⟩
  | tick t inp =>
    have ht : t ∉ K := by simpa [keepEvent] using he
    have hoth := h.other t ht
    cases hs : s.threads[t]? with
    | none =>
      rw [hs] at hoth
      simpa only [Sys.step, hs, hoth] using h
    | some th =>
      rw [hs] at hoth
      simp only [Sys.step, hs, hoth]
      -- the servers differ in counters only, so the step is the same
      obtain ⟨h₁, h₂⟩ := Thread.step_counters s'.srv c P inp th
      rw [← hc] at h₁ h₂
      refine ⟨h₁, by simp [h.length], fun t' ht' => ?_, fun t' ht' th' hth' => ?_⟩
      · by_cases htt : t' = t
        · subst htt
          have hlt := (List.getElem?_eq_some_iff.1 hs).1
          rw [List.getElem?_set_self hlt, List.getElem?_set_self (h.length ▸ hlt), h₂]
        · rw [List.getElem?_set_ne (Ne.symm htt), List.getElem?_set_ne (Ne.symm htt)]
          exact h.other t' ht'
      · rw [List.getElem?_set_ne fun htt : t = t' => ht (htt ▸ ht')] at hth'
        exact h.idle t' ht' th' hth'
  | pause pid =>
    refine ⟨?_, h.length, h.other, h.idle⟩
    change SameBut (s'.srv.pause pid) (s.srv.pause pid)
    rw [hc]
    unfold Server.pause
    dsimp only
    cases s'.srv.pids pid <;> exact ⟨c, rfl⟩

/-- **A run without the steps of contended deliveries** ends in the same state. -/
theorem strike_run {K : List ℕ} {N : ℕ}
    (hK : ∀ t ∈ K, ∃ th, (sAt P es N).threads[t]? = some th ∧ th.Claiming) :
    ∀ n, n ≤ N → Struck K (sAt P es n) (Sys.run P (strike K (es.take n)) {}) := by
  intro n
  induction n with
  | zero => exact fun _ => ⟨⟨_, rfl⟩, rfl, fun _ _ => rfl, fun t _ th h => by cases h⟩
  | succ n ih =>
    intro hn
    have hs := ih (by omega)
    by_cases hlt : n < es.length
    · rw [sAt_succ hlt, List.take_add_one, List.getElem?_eq_getElem hlt, Option.toList_some]
      unfold strike Sys.run at *
      rw [List.filter_append, List.foldl_append]
      by_cases he : keepEvent K es[n] = true
      · rw [List.filter_cons_of_pos he]
        exact hs.keep he
      · -- a step of a contended delivery, which changes a counter at most
        rw [List.filter_cons_of_neg he, List.filter_nil, List.foldl_nil]
        obtain ⟨t, inp, het, ht⟩ : ∃ t inp, es[n] = .tick t inp ∧ t ∈ K := by
          cases hev : es[n] with
          | tick t inp => exact ⟨t, inp, rfl, by simpa [hev, keepEvent] using he⟩
          | _ => rw [hev] at he; exact absurd rfl he
        obtain ⟨th', hth', hc⟩ := hK t ht
        rw [het]
        cases h₀ : (sAt P es n).threads[t]? with
        | none => simpa only [Sys.step, h₀] using hs
        | some th =>
          -- it has not got past its claim by then, so it has not with this step
          have h₁ : (sAt P es (n + 1)).threads[t]? = some (th.step P inp (sAt P es n).srv).2 := by
            rw [sAt_succ hlt, het]
            simp only [Sys.step, h₀]
            exact List.getElem?_set_self (List.getElem?_eq_some_iff.1 h₀).1
          obtain ⟨-, hsame⟩ := Thread.step_claiming (sane h₀) (claiming_back hn h₁ hth' hc)
          simp only [Sys.step, h₀]
          refine ⟨hs.srv.trans hsame, by simpa using hs.length, fun t' ht' => ?_, hs.idle⟩
          rw [List.getElem?_set_ne fun htt : t = t' => ht' (htt ▸ ht)]
          exact hs.other t' ht'
    · have htake : es.take (n + 1) = es.take n := by
        rw [List.take_of_length_le (by omega), List.take_of_length_le (by omega)]
      rw [sAt_of_length_le (n := n + 1) (by omega), ← sAt_of_length_le (n := n) (by omega), htake]
      exact hs

/-- A request that was answered with a lock contention never got past its claim. -/
theorem claiming_of_contention {th : Thread} (hs : th.Sane) {rsp : Response}
    (ha : th.answer P = some (.reply rsp)) (hc : HttpTransport.isContention rsp = true) : th.Claiming := by
  -- only a contention, or a rejection that says it is one, is answered so
  have hpost : ∀ {out : Outcome}, postAnswer P out = .reply rsp → out ≠ .terminal "lock_contention" →
      out = .contention := by
    intro out ho hne
    cases out with
    | contention => rfl
    | terminal reason =>
      cases ho
      have hr : conflictReason _ = .str "lock_contention" := of_decide_eq_true (Bool.and_eq_true_iff.1 hc).2
      exact absurd (congrArg Outcome.terminal (Json.str.inj hr)) hne
    | _ => cases ho; cases hc
  cases th with
  | ingest rq crash pc => cases pc with
    | done out => exact hpost (Option.some.inj ha) hs
    | _ => cases ha
  | put pid doc pc => cases pc with
    | done out =>
      refine hpost ?_ hs
      cases out with
      | crashed r => cases ha
      | _ => exact Option.some.inj ha
    | _ => cases ha
  | once rq answer =>
    rw [hs rsp ha] at hc
    cases hc

end

/-- The deliveries of a call that were answered with a lock contention. -/
def CallRun.contended (r : CallRun) : List ℕ :=
  r.log.filterMap fun x => match x.answer with
    | .reply rsp => if HttpTransport.isContention rsp then x.thread else none
    | .broken => none

/-- The contended deliveries of a call can be struck from the run. -/
theorem strike_contended {P : Runtime} {es : List Event} {n : ℕ} {r : CallRun} (hr : r ∈ (wAt P es n).calls) :
    Struck r.contended (wAt P es n).sys (Sys.run P (strike r.contended (sysTrace P (es.take n))) {}) := by
  rw [sysTrace_take, wAt_sys]
  refine strike_run (fun t ht => ?_) _ le_rfl
  obtain ⟨x, hx, he⟩ := List.mem_filterMap.1 ht
  cases ha : x.answer with
  | broken => rw [ha] at he; cases he
  | reply rsp =>
    rw [ha] at he
    by_cases hc : HttpTransport.isContention rsp = true
    · obtain ⟨t', th, ht', hth, hans⟩ := ((world_inv P es n).sound r hr).answered x hx rsp ha
      simp only [hc, if_true] at he
      rw [he] at ht'
      cases ht'
      rw [wAt_sys] at hth
      exact ⟨th, hth, claiming_of_contention (sane hth) (ha ▸ hans) hc⟩
    · simp [hc] at he

/-- **A 409 is a no-op, so retrying is safe.** The steps of a request that ends in a rejection
or a ledger hit leave the server's data alone, and the request does not keep the lock; a
request is sent again only after a lock contention, the same, and at most so many times; and
a run in which the contended deliveries of a call never began ends in the same state. -/
theorem conflict_noop (P : Runtime) :
    (∀ (es : List SysEvent) (n t : ℕ) (th : Thread) (out : Outcome), (sAt P es n).threads[t]? = some th →
      th.outcome = some out → out.Rejected →
        (∀ m inp, m < n → es[m]? = some (.tick t inp) → (sAt P es (m + 1)).srv.data = (sAt P es m).srv.data) ∧
        th.held = none ∧ ∀ p item, (sAt P es n).srv.pids p = some item → item.invokeSemaphore = 1 ∨
          ∃ (t' : ℕ) (th' : Thread) (v : ℕ), t' ≠ t ∧ (sAt P es n).threads[t']? = some th' ∧ th'.held = some (p, v)) ∧
    (∀ (T : HttpTransport) (rq : Request) (l : List (Request × Answer)) p, Conv (T.request P rq) l p →
      l.length ≤ T.max409Retries ∧ ∃ contended last, l = contended.map (fun c => (rq, Answer.reply c)) ++ last ∧
        (∀ c ∈ contended, HttpTransport.isContention c = true) ∧
        RequestAt P T rq T.max409Retries contended last p) ∧
    (∀ (es : List Event) (n : ℕ), ∀ r ∈ (wAt P es n).calls,
      Struck r.contended (wAt P es n).sys (Sys.run P (strike r.contended (sysTrace P (es.take n))) {})) := by
  refine ⟨fun es n t th out ht ho hr => ⟨fun m inp hm he => rejected_neutral ht ho hr hm he, ?_, ?_⟩,
    fun T rq l p h => ?_, fun es n r hr => strike_contended hr⟩
  · obtain ⟨a, ha⟩ := Thread.answer_of_outcome (P := P) ho
    exact Thread.held_of_answer ha
  · intro p item hp
    by_cases hs : item.invokeSemaphore = 1
    · exact Or.inl hs
    obtain ⟨t', th', ht', hh'⟩ := (lock_inv P es n).free (p := p) (v := item.updateVersion)
      (by unfold Server.lockOf; rw [hp]; rfl) hs
    refine Or.inr ⟨t', th', _, fun htt => ?_, ht', hh'⟩
    obtain ⟨a, ha⟩ := Thread.answer_of_outcome (P := P) ho
    rw [htt, ht] at ht'
    cases ht'
    rw [Thread.held_of_answer ha] at hh'
    cases hh'
  · obtain ⟨contended, last, rfl, hall, hend⟩ := conv_requestLoop h
    refine ⟨?_, contended, last, rfl, hall, hend⟩
    rw [List.length_append, List.length_map]
    cases hend with
    | sending hn => exact hn.le
    | gaveUp hn => exact hn.le
    | broken hn => exact hn
    | settled hn hc => exact hn

/-! ### One contention -/

/-- A state row, as dlt passes it in. -/
def stateRowOf (version : ℤ) (loadId : String) : Row := Dict.ofEntries
  [("version", .int version), ("engine_version", .int 4), ("pipeline_name", .str "shop"), ("state", .str "e30="),
    ("created_at", .str "2023-11-14"), ("version_hash", .str "h"), ("_dlt_load_id", .str loadId)]

/-- A client writes the state while another one's chunk holds the lock, and is turned away; its
second try comes after the chunk. -/
def busyRun : List Event :=
  [.newClient ⟨"shop", 50000, 4194304⟩ "shop" 20, .newClient ⟨"shop", 50000, 4194304⟩ "shop" 20,
    .call 0 (some "shop") (.loadJob (ordersJob [1])), .call 1 (some "shop") (.putDltState (stateRowOf 1 "1.0"))] ++
    exchange 0 0 1 ++ [.send 0 none, .tick 1 someInputs, .tick 1 someInputs] ++ exchange 1 2 1 ++ exchange 1 3 1 ++
    List.replicate 9 (.tick 1 someInputs) ++ [.recv 0] ++ exchange 1 4 4

/-- The first delivery of that write is struck from the run, and leaves the data alone. -/
theorem conflict_noop_busy :
    (∀ m inp, m < 23 → (sysTrace .plain busyRun)[m]? = some (.tick 3 inp) →
      (sAt .plain (sysTrace .plain busyRun) (m + 1)).srv.data = (sAt .plain (sysTrace .plain busyRun) m).srv.data) ∧
    (∀ l p, Conv ((⟨20⟩ : HttpTransport).request .plain (.getState "p")) l p → l.length ≤ 20) ∧
    ∃ r ∈ (wAt .plain busyRun 32).calls, r.contended = [3] ∧
      Struck [3] (wAt .plain busyRun 32).sys
        (Sys.run .plain (strike [3] (sysTrace .plain (busyRun.take 32))) {}) := by
  refine ⟨?_, fun l p h => ((conflict_noop .plain).2.1 _ _ l p h).1, ?_⟩
  · have hth : ∃ th, (sAt .plain (sysTrace .plain busyRun) 23).threads[3]? = some th ∧
        th.outcome = some .contention := ⟨_, rfl, rfl⟩
    obtain ⟨th, ht, ho⟩ := hth
    exact ((conflict_noop .plain).1 _ 23 3 th .contention ht ho trivial).1
  · have hr : ∃ r, (wAt .plain busyRun 32).calls[1]? = some r ∧ r.contended = [3] := ⟨_, rfl, by decide⟩
    obtain ⟨r, hr, hc⟩ := hr
    have hm := List.mem_of_getElem? hr
    exact ⟨r, hm, hc, hc ▸ (conflict_noop .plain).2.2 busyRun 32 r hm⟩

end Matterbeam
