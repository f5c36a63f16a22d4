import Matterbeam.Proof.Trace

/-!
# The entry lock

A thread that has claimed a pid holds it, with the version it was given, until it
releases it. The semaphore of a pid is down exactly while a thread holds the pid, and
no two threads hold one pid.

* `Thread.step_lock`: what a step does to the locks and to the thread's own claim.
* `lock_inv`: **mutual exclusion**, in every state of every run.
* `free_of_idle`: a pid that no thread holds has its semaphore up.
* `thread_rule`: an invariant rule for a fact about the server and one about each thread,
  where a step has to keep the facts of threads that hold other pids only; in
  `thread_rule_when` the steps of the run may be known to be of some kind.
-/

namespace Matterbeam

open Function

/-! ## Claims -/

/-- The version claimed by an ingest, from the claim to the release. -/
def IngestPc.version : IngestPc → Option ℕ
  | closed v => some v
  | prepare v => some v
  | filter v _ => some v
  | «begin» v _ => some v
  | commit v _ _ => some v
  | mark v _ _ _ => some v
  | record v _ _ _ => some v
  | reply v _ => some v
  | release v _ => some v
  | _ => none

/-- The version claimed by a state write. -/
def PutPc.version : PutPc → Option ℕ
  | check v => some v
  | write v => some v
  | release v _ => some v
  | _ => none

/-- The pid a thread holds, and the version it claimed. -/
def Thread.held : Thread → Option (String × ℕ)
  | ingest rq _ pc => pc.version.map fun v => (rq.pid, v)
  | put pid _ pc => pc.version.map fun v => (pid, v)
  | once _ _ => none

/-- The version and the semaphore of a pid. -/
def Server.lockOf (srv : Server) (pid : String) : Option (ℕ × ℕ) :=
  (srv.pids pid).map fun item => (item.updateVersion, item.invokeSemaphore)

namespace Server

variable (srv : Server)

@[simp] theorem lockOf_setPid (pid p : String) (item : PidItem) :
    (srv.setPid pid item).lockOf p =
      if p = pid then some (item.updateVersion, item.invokeSemaphore) else srv.lockOf p := by
  unfold lockOf setPid
  by_cases h : p = pid <;> simp [h]

theorem lockOf_congr {srv srv' : Server} (h : srv'.pids = srv.pids) : srv'.lockOf = srv.lockOf := by
  unfold lockOf
  rw [h]

@[simp] theorem trackJobArrival_pids (pid recordtypeId jobId : String) :
    (srv.trackJobArrival pid recordtypeId jobId).pids = srv.pids := by
  unfold trackJobArrival
  dsimp only
  split
  · rfl
  · split <;> rfl

/-- Allocating a writer id leaves the locks alone. -/
@[simp] theorem lockOf_allocWriterId (pid p : String) : (srv.allocWriterId pid).lockOf p = srv.lockOf p := by
  unfold allocWriterId
  cases h : srv.pids pid with
  | none => rfl
  | some item =>
    rw [lockOf_setPid]
    by_cases hp : p = pid
    · subst hp; simp [lockOf, h]
    · simp [hp]

theorem lockOf_release {pid : String} {v k : ℕ} (h : srv.lockOf pid = some (v, k)) (p : String) :
    (srv.release pid v).lockOf p = if p = pid then some (v + 1, 1) else srv.lockOf p := by
  rcases srv.release_cases pid v with ⟨item, hi, hv, he⟩ | ⟨hne, -⟩
  · rw [he, lockOf_setPid, ← hv]
    rfl
  · unfold lockOf at h
    obtain ⟨item, hi, hvk⟩ := Option.map_eq_some_iff.1 h
    exact absurd (congrArg Prod.fst hvk) (hne item hi)

theorem lockOf_pause (pid p : String) : (srv.pause pid).lockOf p = srv.lockOf p := by
  unfold pause
  cases h : srv.pids pid with
  | none => rfl
  | some item =>
    rw [lockOf_setPid]
    by_cases hp : p = pid
    · subst hp; simp [lockOf, h]
    · simp [hp]

end Server

/-! ## What a step does to the locks -/

/-- A step and the locks: the thread's claim before and after it. -/
inductive LockStep (srv srv' : Server) : Option (String × ℕ) → Option (String × ℕ) → Prop
  /-- Nothing, but that a pid may be new. -/
  | keep {held : Option (String × ℕ)}
      (h : ∀ p, srv'.lockOf p = srv.lockOf p ∨ srv.lockOf p = none ∧ srv'.lockOf p = some (1, 1)) :
      LockStep srv srv' held held
  | claim {p : String} {v : ℕ} (h : srv.lockOf p = some (v, 1))
      (h' : ∀ q, srv'.lockOf q = if q = p then some (v + 1, 0) else srv.lockOf q) :
      LockStep srv srv' none (some (p, v + 1))
  | release {p : String} {v : ℕ} (h : ∀ k, srv.lockOf p = some (v, k) →
      ∀ q, srv'.lockOf q = if q = p then some (v + 1, 1) else srv.lockOf q) :
      LockStep srv srv' (some (p, v)) none

theorem LockStep.same {srv srv' : Server} (held : Option (String × ℕ)) (h : srv'.pids = srv.pids) :
    LockStep srv srv' held held := .keep fun p => Or.inl (by rw [Server.lockOf_congr h])

theorem LockStep.claimed {srv : Server} {pid : String} {item : PidItem} (h : srv.pids pid = some item)
    (hs : item.invokeSemaphore = 1) :
    LockStep srv (srv.setPid pid item.claimed) none (some (pid, item.updateVersion + 1)) :=
  .claim (by simp [Server.lockOf, h, hs]) fun q => by rw [Server.lockOf_setPid]; rfl

theorem LockStep.released (srv : Server) (pid : String) (v : ℕ) :
    LockStep srv (srv.release pid v) (some (pid, v)) none :=
  .release fun _ h q => Server.lockOf_release srv h q

theorem IngestStep.lock {rq : IngestRequest} {crash : Option CrashPoint} {inp : Inputs} {srv srv' : Server}
    {pc pc' : IngestPc} (h : IngestStep rq crash inp srv pc srv' pc') :
    LockStep srv srv' (pc.version.map fun v => (rq.pid, v)) (pc'.version.map fun v => (rq.pid, v)) := by
  cases h with
  | claimed h hf hs => exact .claimed h hs
  | released => exact .released _ _ _
  | prepared => exact .keep fun p => Or.inl (by
      rw [Server.lockOf_congr (Server.trackJobArrival_pids _ _ _ _), Server.lockOf_allocWriterId])
  | _ => exact .same _ rfl

theorem PutStep.lock {pid : String} {doc : Row} {srv srv' : Server} {pc pc' : PutPc}
    (h : PutStep pid doc srv pc srv' pc') :
    LockStep srv srv' (pc.version.map fun v => (pid, v)) (pc'.version.map fun v => (pid, v)) := by
  cases h with
  | claimed h hf hs => exact .claimed h hs
  | released => exact .released _ _ _
  | _ => exact .same _ rfl

theorem OnceStep.lock {P : Runtime} {inp : Inputs} {srv srv' : Server} {rq : Request} {a : Option Answer}
    (h : OnceStep P inp srv rq srv' a) : LockStep srv srv' none none := by
  cases h with
  | created h hd =>
    refine .keep fun p => ?_
    unfold Server.freshDraw at hd
    simp only [Bool.and_eq_true, Option.isNone_iff_eq_none] at hd
    by_cases hp : p = inp.draw
    · refine Or.inr ⟨?_, ?_⟩
      · rw [hp]; simp [Server.lockOf, hd.2]
      · simp [Server.lockOf, Server.created, hp, PidItem.fresh]
    · exact Or.inl (by simp [Server.lockOf, Server.created, hp])
  | _ => exact .same _ rfl

/-- **What a step of a thread does to the locks.** -/
theorem Thread.step_lock (P : Runtime) (inp : Inputs) (srv : Server) (th : Thread) :
    LockStep srv (th.step P inp srv).1 th.held (th.step P inp srv).2.held := by
  cases th with
  | ingest rq crash pc => exact (IngestPc.step_spec rq crash inp srv pc).lock
  | put pid doc pc => exact (PutPc.step_spec pid doc srv pc).lock
  | once rq answer =>
    cases answer with
    | none => exact (onceStep_spec P inp srv rq).lock
    | some a => exact .same _ rfl

/-- A thread that has just arrived holds nothing. -/
@[simp] theorem Thread.start_held (crash : Option CrashPoint) (rq : Request) :
    (Thread.start crash rq).held = none := by cases rq <;> rfl

/-- A thread whose request has been answered holds nothing. -/
theorem Thread.held_of_answer {P : Runtime} {th : Thread} {a : Answer} (h : th.answer P = some a) :
    th.held = none := by
  cases th with
  | ingest rq crash pc => cases pc <;> first | rfl | cases h
  | put pid doc pc => cases pc <;> first | rfl | cases h
  | once rq answer => rfl

/-! ## Registered pids -/

section

variable {srv : Server}

theorem Server.isSome_setPid {p pid : String} {item item' : PidItem} (h : srv.pids pid = some item) :
    ((srv.setPid pid item').pids p).isSome = (srv.pids p).isSome := by
  unfold setPid
  by_cases hp : p = pid
  · subst hp; simp [h]
  · simp [hp]

theorem Server.isSome_allocWriterId (p pid : String) : ((srv.allocWriterId pid).pids p).isSome = (srv.pids p).isSome := by
  unfold allocWriterId
  cases h : srv.pids pid with
  | none => rfl
  | some item => exact isSome_setPid h

theorem Server.isSome_release (p pid : String) (v : ℕ) : ((srv.release pid v).pids p).isSome = (srv.pids p).isSome := by
  rcases srv.release_cases pid v with ⟨item, hi, -, he⟩ | ⟨-, he⟩
  · rw [he]; exact isSome_setPid hi
  · rw [he]

theorem Server.isSome_pause (p pid : String) : ((srv.pause pid).pids p).isSome = (srv.pids p).isSome := by
  unfold pause
  cases h : srv.pids pid with
  | none => rfl
  | some item => exact isSome_setPid h

/-- A step registers a pid or leaves the pids that there are; new pids are of one length. -/
theorem Thread.step_isSome (P : Runtime) (inp : Inputs) (srv : Server) (th : Thread) (p : String) :
    ((th.step P inp srv).1.pids p).isSome = (srv.pids p).isSome ∨
      p.length = 27 ∧ ((th.step P inp srv).1.pids p).isSome = true := by
  cases th with
  | ingest rq crash pc =>
    have hstep := IngestPc.step_spec rq crash inp srv pc
    left
    change ((pc.step rq crash inp srv).1.pids p).isSome = _
    generalize (pc.step rq crash inp srv).1 = srv' at *
    generalize (pc.step rq crash inp srv).2 = pc' at *
    cases hstep with
    | claimed hi hf hs => exact Server.isSome_setPid hi
    | prepared => rw [Server.trackJobArrival_pids, Server.isSome_allocWriterId]
    | released => exact Server.isSome_release _ _ _
    | _ => rfl
  | put pid doc pc =>
    have hstep := PutPc.step_spec pid doc srv pc
    left
    change ((pc.step pid doc srv).1.pids p).isSome = _
    generalize (pc.step pid doc srv).1 = srv' at *
    generalize (pc.step pid doc srv).2 = pc' at *
    cases hstep with
    | claimed hi hf hs => exact Server.isSome_setPid hi
    | released => exact Server.isSome_release _ _ _
    | _ => rfl
  | once rq answer => cases answer with
    | none =>
      have hstep := onceStep_spec P inp srv rq
      change ((onceStep P inp srv rq).1.pids p).isSome = _ ∨ _ ∧ ((onceStep P inp srv rq).1.pids p).isSome = true
      generalize (onceStep P inp srv rq).1 = srv' at *
      generalize (onceStep P inp srv rq).2 = answer at *
      cases hstep with
      | created h hd =>
        -- a draw is only taken if it is fresh
        by_cases hp : p = inp.draw
        · subst hp
          unfold Server.freshDraw at hd
          simp only [Bool.and_eq_true, decide_eq_true_eq] at hd
          exact Or.inr ⟨hd.1.1, by simp [Server.created]⟩
        · left
          simp [Server.created, hp]
      | _ => exact Or.inl rfl
    | some a => exact Or.inl rfl

end

/-! ## Mutual exclusion -/

/-- The locks and the claims agree. -/
structure LockInv (s : Sys) : Prop where
  holder : ∀ {t : ℕ} {th : Thread} {p : String} {v : ℕ}, s.threads[t]? = some th →
    th.held = some (p, v) → s.srv.lockOf p = some (v, 0)
  unique : ∀ {t t' : ℕ} {th th' : Thread} {p : String} {v v' : ℕ}, s.threads[t]? = some th →
    s.threads[t']? = some th' → th.held = some (p, v) → th'.held = some (p, v') → t = t'
  free : ∀ {p : String} {v k : ℕ}, s.srv.lockOf p = some (v, k) → k ≠ 1 →
    ∃ (t : ℕ) (th : Thread), s.threads[t]? = some th ∧ th.held = some (p, v)

section

variable {P : Runtime} {es : List SysEvent}

/-- A thread arrives, holding nothing. -/
theorem LockInv.spawn {s : Sys} (h : LockInv s) (crash : Option CrashPoint) (rq : Request) :
    LockInv { s with threads := s.threads ++ [Thread.start crash rq] } := by
  have hold : ∀ {t : ℕ} {th : Thread} {p : String} {v : ℕ},
      (s.threads ++ [Thread.start crash rq])[t]? = some th → th.held = some (p, v) → s.threads[t]? = some th := by
    intro t th p v ht hh
    rcases concat_cases ht with ht | ⟨-, rfl⟩
    · exact ht
    · rw [Thread.start_held] at hh
      cases hh
  refine ⟨fun ht hh => h.holder (hold ht hh) hh,
    fun ht ht' hh hh' => h.unique (hold ht hh) (hold ht' hh') hh hh', fun hl hk => ?_⟩
  obtain ⟨t, th, ht, hh⟩ := h.free hl hk
  exact ⟨t, th, (List.getElem?_append_left (List.getElem?_eq_some_iff.1 ht).1).trans ht, hh⟩

/-- A step that neither claims nor releases. A pid that was not there may be registered. -/
theorem LockInv.keep {s : Sys} (h : LockInv s) {t : ℕ} {th th' : Thread} {srv' : Server} (ht : s.threads[t]? = some th)
    (hheld : th'.held = th.held)
    (hkeep : ∀ p, srv'.lockOf p = s.srv.lockOf p ∨ s.srv.lockOf p = none ∧ srv'.lockOf p = some (1, 1)) :
    LockInv ⟨srv', s.threads.set t th'⟩ := by
  have hlt := (List.getElem?_eq_some_iff.1 ht).1
  have hold : ∀ {t' : ℕ} {th₁ : Thread}, (s.threads.set t th')[t']? = some th₁ →
      ∃ th₀, s.threads[t']? = some th₀ ∧ th₀.held = th₁.held := by
    intro t' th₁ h₁
    rcases set_cases hlt h₁ with ⟨rfl, rfl⟩ | ⟨-, h₁⟩
    · exact ⟨th, ht, hheld.symm⟩
    · exact ⟨th₁, h₁, rfl⟩
  refine ⟨fun h₁ hh => ?holder, fun h₁ h₂ hh hh' => ?unique, fun hl hk => ?free⟩
  case holder =>
    obtain ⟨th₀, h₀, he⟩ := hold h₁
    have hl := h.holder h₀ (he.trans hh)
    rcases hkeep _ with hs | ⟨hn, -⟩
    · exact hs.trans hl
    · rw [hl] at hn
      cases hn
  case unique =>
    obtain ⟨th₀, h₀, he⟩ := hold h₁
    obtain ⟨th₀', h₀', he'⟩ := hold h₂
    exact h.unique h₀ h₀' (he.trans hh) (he'.trans hh')
  case free =>
    rcases hkeep _ with hs | ⟨-, hs⟩
    · obtain ⟨t₀, th₀, h₀, hh⟩ := h.free (hs.symm.trans hl) hk
      by_cases he : t₀ = t
      · subst he
        obtain rfl := Option.some.inj (ht.symm.trans h₀)
        exact ⟨t₀, th', List.getElem?_set_self hlt, hheld.trans hh⟩
      · exact ⟨t₀, th₀, (List.getElem?_set_ne (Ne.symm he)).trans h₀, hh⟩
    · -- the semaphore of a new pid is up
      rw [hs] at hl
      cases hl
      exact absurd rfl hk

/-- A step that claims a pid. -/
theorem LockInv.claim {s : Sys} (h : LockInv s) {t : ℕ} {th th' : Thread} {srv' : Server} (ht : s.threads[t]? = some th)
    {p : String} {v : ℕ} (hb : th.held = none) (ha : th'.held = some (p, v + 1)) (hfree : s.srv.lockOf p = some (v, 1))
    (hset : ∀ q, srv'.lockOf q = if q = p then some (v + 1, 0) else s.srv.lockOf q) :
    LockInv ⟨srv', s.threads.set t th'⟩ := by
  have hlt := (List.getElem?_eq_some_iff.1 ht).1
  -- no other thread holds `p`, as its semaphore was up
  have hnone : ∀ {t' : ℕ} {th₁ : Thread} {v' : ℕ}, s.threads[t']? = some th₁ → th₁.held ≠ some (p, v') := by
    intro t' th₁ v' h₁ hh
    have hdown := h.holder h₁ hh
    rw [hfree] at hdown
    cases hdown
  have hcases : ∀ {t' : ℕ} {th₁ : Thread} {q : String} {v' : ℕ}, (s.threads.set t th')[t']? = some th₁ →
      th₁.held = some (q, v') → (t' = t ∧ q = p ∧ v' = v + 1) ∨ (s.threads[t']? = some th₁ ∧ q ≠ p) := by
    intro t' th₁ q v' h₁ hh
    rcases set_cases hlt h₁ with ⟨rfl, rfl⟩ | ⟨-, h₁⟩
    · rw [ha] at hh
      cases hh
      exact Or.inl ⟨rfl, rfl, rfl⟩
    · refine Or.inr ⟨h₁, fun hq => ?_⟩
      subst hq
      exact hnone h₁ hh
  refine ⟨fun h₁ hh => ?holder, fun h₁ h₂ hh hh' => ?unique, fun {q v' k} hl hk => ?free⟩
  case holder =>
    rw [hset]
    rcases hcases h₁ hh with ⟨-, rfl, rfl⟩ | ⟨h₀, hq⟩
    · rw [if_pos rfl]
    · rw [if_neg hq]
      exact h.holder h₀ hh
  case unique =>
    rcases hcases h₁ hh with ⟨rfl, rfl, -⟩ | ⟨h₀, hq⟩
    · rcases hcases h₂ hh' with ⟨rfl, -, -⟩ | ⟨-, hq'⟩
      · rfl
      · exact absurd rfl hq'
    · rcases hcases h₂ hh' with ⟨-, rfl, -⟩ | ⟨h₀', -⟩
      · exact absurd rfl hq
      · exact h.unique h₀ h₀' hh hh'
  case free =>
    rw [hset] at hl
    by_cases hq : q = p
    · rw [if_pos hq] at hl
      cases hl
      exact ⟨t, th', List.getElem?_set_self hlt, by rw [ha, hq]⟩
    · rw [if_neg hq] at hl
      obtain ⟨t₀, th₀, h₀, hh⟩ := h.free hl hk
      have he : t₀ ≠ t := by
        rintro rfl
        obtain rfl := Option.some.inj (ht.symm.trans h₀)
        rw [hb] at hh
        cases hh
      exact ⟨t₀, th₀, (List.getElem?_set_ne (Ne.symm he)).trans h₀, hh⟩

/-- A step that releases a pid. -/
theorem LockInv.release {s : Sys} (h : LockInv s) {t : ℕ} {th th' : Thread} {srv' : Server} (ht : s.threads[t]? = some th)
    {p : String} {v : ℕ} (hb : th.held = some (p, v)) (ha : th'.held = none)
    (hset : ∀ q, srv'.lockOf q = if q = p then some (v + 1, 1) else s.srv.lockOf q) :
    LockInv ⟨srv', s.threads.set t th'⟩ := by
  have hlt := (List.getElem?_eq_some_iff.1 ht).1
  -- nobody else held the pid, so all that is held now was held before
  have hcases : ∀ {t' : ℕ} {th₁ : Thread} {q : String} {v' : ℕ}, (s.threads.set t th')[t']? = some th₁ →
      th₁.held = some (q, v') → s.threads[t']? = some th₁ ∧ q ≠ p := by
    intro t' th₁ q v' h₁ hh
    rcases set_cases hlt h₁ with ⟨rfl, rfl⟩ | ⟨he, h₁⟩
    · rw [ha] at hh
      cases hh
    · refine ⟨h₁, fun hq => ?_⟩
      subst hq
      exact he (h.unique h₁ ht hh hb)
  refine ⟨fun h₁ hh => ?holder, fun h₁ h₂ hh hh' => ?unique, fun {q v' k} hl hk => ?free⟩
  case holder =>
    obtain ⟨h₀, hq⟩ := hcases h₁ hh
    rw [hset, if_neg hq]
    exact h.holder h₀ hh
  case unique => exact h.unique (hcases h₁ hh).1 (hcases h₂ hh').1 hh hh'
  case free =>
    rw [hset] at hl
    by_cases hq : q = p
    · rw [if_pos hq] at hl
      cases hl
      exact absurd rfl hk
    · rw [if_neg hq] at hl
      obtain ⟨t₀, th₀, h₀, hh⟩ := h.free hl hk
      have he : t₀ ≠ t := by
        rintro rfl
        obtain rfl := Option.some.inj (ht.symm.trans h₀)
        rw [hb] at hh
        cases hh
        exact hq rfl
      exact ⟨t₀, th₀, (List.getElem?_set_ne (Ne.symm he)).trans h₀, hh⟩

/-- A thread steps. -/
theorem LockInv.tick {s : Sys} (h : LockInv s) {t : ℕ} {th : Thread} (ht : s.threads[t]? = some th)
    (inp : Inputs) : LockInv ⟨(th.step P inp s.srv).1, s.threads.set t (th.step P inp s.srv).2⟩ := by
  have hstep := Thread.step_lock P inp s.srv th
  generalize (th.step P inp s.srv).1 = srv' at *
  generalize (th.step P inp s.srv).2 = th' at *
  generalize hb : th.held = b at hstep
  generalize ha : th'.held = a at hstep
  cases hstep with
  | keep hkeep => exact h.keep ht (ha.trans hb.symm) hkeep
  | claim hfree hset => exact h.claim ht hb ha hfree hset
  | release hset => exact h.release ht hb ha (hset 0 (h.holder ht hb))

/-- **Mutual exclusion**: the locks and the claims agree in every state of every run. -/
theorem lock_inv (P : Runtime) (es : List SysEvent) : ∀ n, LockInv (sAt P es n) := by
  refine Sys.invariant ⟨by simp, by simp, by simp [Server.lockOf]⟩ fun n hn ih => ?_
  rcases Sys.step_cases P (sAt P es n) es[n] with ⟨rq, crash, -, he⟩ | ⟨t, inp, th, -, ht, he⟩ |
    ⟨pid, -, he⟩ | ⟨-, he⟩
  · rw [he]; exact ih.spawn crash rq
  · rw [he]; exact ih.tick ht inp
  · rw [he]
    refine ⟨fun ht hh => ?_, fun ht ht' => ih.unique ht ht', fun hl hk => ?_⟩
    · exact (Server.lockOf_pause _ _ _).trans (ih.holder ht hh)
    · exact ih.free ((Server.lockOf_pause _ _ _).symm.trans hl) hk
  · rw [he]; exact ih

/-- **A pid that no thread holds has its semaphore up.** -/
theorem free_of_idle {n : ℕ} {p : String} {item : PidItem} (hp : (sAt P es n).srv.pids p = some item)
    (hidle : ∀ th ∈ (sAt P es n).threads, ∀ v, th.held ≠ some (p, v)) : item.invokeSemaphore = 1 := by
  by_contra hk
  obtain ⟨t, th, ht, hh⟩ := (lock_inv P es n).free (p := p) (v := item.updateVersion) (by
    unfold Server.lockOf
    rw [hp]
    rfl) hk
  exact hidle th (List.mem_of_getElem? ht) _ hh

/-- The thread holds what the locks say it holds. -/
def Holds (srv : Server) (th : Thread) : Prop := ∀ p v, th.held = some (p, v) → srv.lockOf p = some (v, 0)

/-- The two threads do not hold one pid. -/
def Thread.Apart (th th' : Thread) : Prop := ∀ p v v', th.held = some (p, v) → th'.held ≠ some (p, v')

/-- **The invariant rule**: `G` of the server and `I` of every thread hold along a run when
a new thread satisfies `I`, a step of a thread keeps both, and keeps `I` of every other
thread, which holds none of the pids this one holds. `E` is what is known of the steps of
the run from elsewhere. -/
theorem thread_rule_when {G : Server → Prop} {I : Server → Thread → Prop} {E : Server → Thread → Inputs → Prop}
    (hE : ∀ n t inp th, es[n]? = some (.tick t inp) → (sAt P es n).threads[t]? = some th → E (sAt P es n).srv th inp)
    (h0 : G {})
    (hpause : ∀ srv pid, G srv → G (srv.pause pid) ∧ ∀ th, I srv th → I (srv.pause pid) th)
    (hstart : ∀ srv rq crash, SysEvent.spawn rq crash ∈ es → G srv → I srv (Thread.start crash rq))
    (hstep : ∀ srv th inp, E srv th inp → Holds srv th → G srv → I srv th →
      G (th.step P inp srv).1 ∧ I (th.step P inp srv).1 (th.step P inp srv).2 ∧
        ∀ th', th.Apart th' → Holds srv th' → I srv th' → I (th.step P inp srv).1 th') :
    ∀ n, G (sAt P es n).srv ∧ ∀ {t : ℕ} {th : Thread}, (sAt P es n).threads[t]? = some th → I (sAt P es n).srv th := by
  refine Sys.invariant (I := fun s => G s.srv ∧ ∀ {t : ℕ} {th : Thread}, s.threads[t]? = some th → I s.srv th)
    ⟨h0, by simp⟩ fun n hn ih => ?_
  obtain ⟨hG, hI⟩ := ih
  have hlock := lock_inv P es n
  have hE := hE n
  rw [List.getElem?_eq_getElem hn] at hE
  generalize sAt P es n = s at *
  have hholds : ∀ {t : ℕ} {th : Thread}, s.threads[t]? = some th → Holds s.srv th :=
    fun ht p v hh => hlock.holder ht hh
  rcases Sys.step_cases P s es[n] with ⟨rq, crash, hev, he⟩ | ⟨t, inp, th, hev, ht, he⟩ |
    ⟨pid, -, he⟩ | ⟨-, he⟩
  · rw [he]
    refine ⟨hG, fun {t th} h => ?_⟩
    rcases concat_cases h with h | ⟨-, rfl⟩
    · exact hI h
    · exact hstart _ _ _ (hev ▸ List.getElem_mem hn) hG
  · rw [he]
    obtain ⟨hG', hI', hrest⟩ := hstep s.srv th inp (hE t inp th (by rw [hev]) ht) (hholds ht) hG (hI ht)
    refine ⟨hG', fun {t' th'} h => ?_⟩
    rcases set_cases (List.getElem?_eq_some_iff.1 ht).1 h with ⟨rfl, rfl⟩ | ⟨htt, h⟩
    · exact hI'
    · -- two threads do not hold one pid
      exact hrest th' (fun p v v' hh hh' => htt (hlock.unique h ht hh' hh)) (hholds h) (hI h)
  · rw [he]
    obtain ⟨hG', hI'⟩ := hpause s.srv pid hG
    exact ⟨hG', fun ht => hI' _ (hI ht)⟩
  · rw [he]
    exact ⟨hG, hI⟩

/-- The invariant rule, for any steps. -/
theorem thread_rule {G : Server → Prop} {I : Server → Thread → Prop} (h0 : G {})
    (hpause : ∀ srv pid, G srv → G (srv.pause pid) ∧ ∀ th, I srv th → I (srv.pause pid) th)
    (hstart : ∀ srv rq crash, SysEvent.spawn rq crash ∈ es → G srv → I srv (Thread.start crash rq))
    (hstep : ∀ srv th inp, Holds srv th → G srv → I srv th →
      G (th.step P inp srv).1 ∧ I (th.step P inp srv).1 (th.step P inp srv).2 ∧
        ∀ th', th.Apart th' → Holds srv th' → I srv th' → I (th.step P inp srv).1 th') :
    ∀ n, G (sAt P es n).srv ∧ ∀ {t : ℕ} {th : Thread}, (sAt P es n).threads[t]? = some th → I (sAt P es n).srv th :=
  thread_rule_when (E := fun _ _ _ => True) (fun _ _ _ _ _ _ => trivial) h0 hpause hstart
    fun srv th inp _ => hstep srv th inp

end

end Matterbeam
