import Matterbeam.Proof.Conflict
import Matterbeam.Proof.Tail

/-!
# A paused pid

A pause and the entry lock write the same field of a pid. A claim looks at it and is turned away;
the release of a request that had the lock before the pause does not look, and sets it back.

* `Thread.step_paused`: what a step does to a paused pid.
* `pause_lasts`, `unpaused_of_release`: how long a pause lasts.
* `stops_paused`: a call that is told that its pid is paused raises a terminal failure.
* `paused_iff`: **a paused pid stays paused just if no request that held its lock at the pause
  has released it**.
* `unpausing_release`: a chunk that was under way unpauses its pid.
-/

namespace Matterbeam

open Function Prog

/-! ## Paused pids -/

/-- The pid is paused. -/
def Server.PausedAt (srv : Server) (pid : String) : Prop :=
  ∃ item, srv.pids pid = some item ∧ item.fsmState = .paused

/-- The thread has claimed the pid, and not released it. -/
def Thread.Holder (th : Thread) (pid : String) : Prop := ∃ v, th.held = some (pid, v)

/-- The thread is at its claim of the pid. -/
def Thread.AtClaim (pid : String) : Thread → Prop
  | ingest rq _ .claim => rq.pid = pid
  | put p _ .claim => p = pid
  | _ => False

section

variable {srv srv' : Server} {pid p : String} {item : PidItem}

theorem Server.PausedAt.congr (h : srv.PausedAt pid) (he : srv'.pids = srv.pids) : srv'.PausedAt pid := by
  unfold PausedAt
  rwa [he]

/-- Another pid is written, or the state is left as it is. -/
theorem Server.PausedAt.setPid (h : srv.PausedAt pid) (hset : p = pid → item.fsmState = .paused) :
    (srv.setPid p item).PausedAt pid := by
  obtain ⟨item₀, hitem, hpaused⟩ := h
  unfold PausedAt Server.setPid
  by_cases hp : pid = p
  · subst hp
    exact ⟨item, update_self _ _ _, hset rfl⟩
  · exact ⟨item₀, (update_of_ne hp _ _).trans hitem, hpaused⟩

theorem Server.PausedAt.allocWriterId (h : srv.PausedAt pid) (p : String) : (srv.allocWriterId p).PausedAt pid := by
  unfold Server.allocWriterId
  cases hp : srv.pids p with
  | none => exact h
  | some item =>
    refine h.setPid fun heq => ?_
    subst heq
    obtain ⟨item', hitem, hpaused⟩ := h
    rw [hp] at hitem
    cases hitem
    exact hpaused

/-- A pause pauses a pid, and unpauses none. -/
theorem Server.PausedAt.pause (h : srv.PausedAt pid) (p : String) : (srv.pause p).PausedAt pid := by
  unfold Server.pause
  cases srv.pids p with
  | none => exact h
  | some item => exact h.setPid fun _ => rfl

theorem Server.pausedAt_pause (h : (srv.pids pid).isSome) : (srv.pause pid).PausedAt pid := by
  unfold Server.pause PausedAt
  obtain ⟨item, hitem⟩ := Option.isSome_iff_exists.1 h
  rw [hitem]
  exact ⟨_, update_self _ _ _, rfl⟩

/-- **A release by the holder unpauses.** -/
theorem Server.not_pausedAt_release {v k : ℕ} (h : srv.lockOf pid = some (v, k)) : ¬ (srv.release pid v).PausedAt pid := by
  rintro ⟨item', hitem', hpaused⟩
  unfold lockOf at h
  obtain ⟨item, hitem, hvk⟩ := Option.map_eq_some_iff.1 h
  rcases srv.release_cases pid v with ⟨item₁, h₁, -, he⟩ | ⟨hne, -⟩
  · have hset : (srv.setPid pid item₁.released).pids pid = some item₁.released := update_self _ _ _
    rw [he, hset] at hitem'
    cases hitem'
    cases hpaused
  · exact hne item hitem (congrArg Prod.fst hvk)

theorem Server.PausedAt.release_ne (h : srv.PausedAt pid) {v : ℕ} (hp : p ≠ pid) : (srv.release p v).PausedAt pid := by
  rcases srv.release_cases p v with ⟨item, -, -, he⟩ | ⟨-, he⟩
  · rw [he]
    exact h.setPid fun heq => absurd heq hp
  · rw [he]
    exact h

/-- A claim of a paused pid is turned away. -/
theorem Server.PausedAt.claim (h : srv.PausedAt pid) : srv.claim pid = (srv, .error (.terminal "paused")) := by
  obtain ⟨item, hitem, hpaused⟩ := h
  unfold Server.claim
  rw [hitem]
  dsimp only
  rw [if_pos hpaused]

end

/-! ## What a step does to a paused pid -/

/-- A step and a paused pid: it stays paused and has the holder it had, or its holder releases it
and it is not paused any more. -/
def PausedStep (pid : String) (srv' : Server) (held held' : Option (String × ℕ)) : Prop :=
  (srv'.PausedAt pid ∧ ∀ v, held' = some (pid, v) ↔ held = some (pid, v)) ∨
  ((∃ v, held = some (pid, v)) ∧ held' = none ∧ ¬ srv'.PausedAt pid)

section

variable {srv srv' : Server} {pid : String}

theorem PausedStep.same (held : Option (String × ℕ)) (h : srv.PausedAt pid) (he : srv'.pids = srv.pids) :
    PausedStep pid srv' held held :=
  .inl ⟨h.congr he, fun _ => Iff.rfl⟩

/-- A pid that is claimed is not paused. -/
theorem PausedStep.claimed {p : String} {item : PidItem} (h : srv.PausedAt pid) (hp : srv.pids p = some item)
    (hf : item.fsmState ≠ .paused) (v : ℕ) : PausedStep pid (srv.setPid p item.claimed) none (some (p, v)) := by
  have hne : p ≠ pid := by
    rintro rfl
    obtain ⟨item', hitem, hpaused⟩ := h
    rw [hp] at hitem
    cases hitem
    exact hf hpaused
  refine .inl ⟨h.setPid fun heq => absurd heq hne, fun v' => ?_⟩
  refine iff_of_false (fun he => ?_) (Option.some_ne_none _).symm
  exact hne (congrArg Prod.fst (Option.some.inj he))

theorem PausedStep.released {p : String} {v : ℕ} (h : srv.PausedAt pid) (hlock : srv.lockOf p = some (v, 0)) :
    PausedStep pid (srv.release p v) (some (p, v)) none := by
  by_cases hp : p = pid
  · subst hp
    exact .inr ⟨⟨v, rfl⟩, rfl, Server.not_pausedAt_release hlock⟩
  · refine .inl ⟨h.release_ne hp, fun v' => ?_⟩
    refine iff_of_false (Option.some_ne_none _).symm fun he => ?_
    exact hp (congrArg Prod.fst (Option.some.inj he))

theorem IngestStep.paused {rq : IngestRequest} {crash : Option CrashPoint} {inp : Inputs} {pc pc' : IngestPc}
    (hstep : IngestStep rq crash inp srv pc srv' pc') (h : srv.PausedAt pid) (hholds : Holds srv (.ingest rq crash pc)) :
    PausedStep pid srv' (pc.version.map fun v => (rq.pid, v)) (pc'.version.map fun v => (rq.pid, v)) := by
  cases hstep with
  | claimed hp hf hs => exact .claimed h hp hf _
  | prepared => exact .inl ⟨(h.allocWriterId _).congr (Server.trackJobArrival_pids _ _ _ _), fun _ => Iff.rfl⟩
  | released => exact .released h (hholds _ _ rfl)
  | _ => exact .same _ h rfl

theorem PutStep.paused {p : String} {doc : Row} {pc pc' : PutPc} (hstep : PutStep p doc srv pc srv' pc')
    (h : srv.PausedAt pid) (hholds : Holds srv (.put p doc pc)) :
    PausedStep pid srv' (pc.version.map fun v => (p, v)) (pc'.version.map fun v => (p, v)) := by
  cases hstep with
  | claimed hp hf hs => exact .claimed h hp hf _
  | released => exact .released h (hholds _ _ rfl)
  | _ => exact .same _ h rfl

/-- **What a step of a thread does to a paused pid.** -/
theorem Thread.step_paused (P : Runtime) (inp : Inputs) (th : Thread) (h : srv.PausedAt pid) (hholds : Holds srv th) :
    PausedStep pid (th.step P inp srv).1 th.held (th.step P inp srv).2.held := by
  cases th with
  | ingest rq crash pc => exact (IngestPc.step_spec rq crash inp srv pc).paused h hholds
  | put p doc pc => exact (PutPc.step_spec p doc srv pc).paused h hholds
  | once rq answer => cases answer with
    | some a => exact .same _ h rfl
    | none =>
      have hstep := onceStep_spec P inp srv rq
      change PausedStep pid (onceStep P inp srv rq).1 none none
      generalize (onceStep P inp srv rq).1 = srv₁ at *
      generalize (onceStep P inp srv rq).2 = answer at *
      cases hstep with
      | created hkey hdraw =>
        -- a pid that is registered now is not the paused one
        refine .inl ⟨?_, fun _ => Iff.rfl⟩
        obtain ⟨item, hitem, hpaused⟩ := h
        have hne : pid ≠ inp.draw := by
          rintro rfl
          unfold Server.freshDraw at hdraw
          rw [hitem] at hdraw
          simp at hdraw
        exact ⟨item, (update_of_ne hne _ _).trans hitem, hpaused⟩
      | _ => exact .same _ h rfl

/-- A claim of a paused pid is answered so, and changes nothing. -/
theorem Thread.step_atClaim (P : Runtime) (inp : Inputs) {th : Thread} (h : srv.PausedAt pid) (hth : th.AtClaim pid) :
    (th.step P inp srv).1 = srv ∧ (th.step P inp srv).2.outcome = some (.terminal "paused") ∧
      (th.step P inp srv).2.answer P = some (conflictReply P "paused") := by
  cases th with
  | ingest rq crash pc => cases pc with
    | claim =>
      cases hth
      simp only [Thread.step, IngestPc.step, h.claim]
      exact ⟨trivial, rfl, rfl⟩
    | _ => cases hth
  | put p doc pc => cases pc with
    | claim =>
      cases hth
      simp only [Thread.step, PutPc.step, h.claim]
      exact ⟨trivial, rfl, rfl⟩
    | _ => cases hth
  | once rq answer => cases hth

/-- A thread at its claim has not written anything. -/
theorem Thread.AtClaim.not_past {th : Thread} (h : th.AtClaim pid) : ¬ th.Past := by
  cases th with
  | ingest rq crash pc => cases pc <;> first | exact id | cases h
  | put p doc pc => cases pc <;> first | exact id | cases h
  | once rq answer => cases h

end

/-! ## After a pause -/

section

variable (P : Runtime) (es : List SysEvent)

/-- **The pid stays paused** between two moments. No request claims it: one that comes to its claim
is told that the pid is paused, and none of its steps changes the data of the server. -/
structure StaysPaused (n m : ℕ) (pid : String) : Prop where
  paused : ∀ k, n < k → k ≤ m → (sAt P es k).srv.PausedAt pid
  unclaimed : ∀ k (t : ℕ) th th', n < k → k < m → (sAt P es k).threads[t]? = some th → ¬ th.Holder pid →
    (sAt P es (k + 1)).threads[t]? = some th' → ¬ th'.Holder pid
  refused : ∀ k t inp th, n < k → k < m → es[k]? = some (.tick t inp) → (sAt P es k).threads[t]? = some th →
    th.AtClaim pid → ∃ th', (sAt P es (k + 1)).threads[t]? = some th' ∧ th'.answer P = some (conflictReply P "paused")
  neutral : ∀ k (t : ℕ) th, n < k → k ≤ m → (sAt P es k).threads[t]? = some th → th.AtClaim pid →
    ∀ j inp, j < m → es[j]? = some (.tick t inp) → (sAt P es (j + 1)).srv.data = (sAt P es j).srv.data

/-- No request that had the lock of the pid at the moment `n` has released it by the moment `m`. -/
def NoneReleased (n m : ℕ) (pid : String) : Prop :=
  ∀ (t : ℕ) th, (sAt P es n).threads[t]? = some th → th.Holder pid →
    ∃ th', (sAt P es m).threads[t]? = some th' ∧ th'.Holder pid

variable {P es}

/-- A thread that has released its pid has been answered. -/
theorem Thread.answer_of_released {inp : Inputs} {srv : Server} {th : Thread} {x : String × ℕ} (h : th.held = some x)
    (h' : (th.step P inp srv).2.held = none) : ∃ a, (th.step P inp srv).2.answer P = some a := by
  cases th with
  | ingest rq crash pc =>
    have hstep := IngestPc.step_spec rq crash inp srv pc
    change (Thread.ingest rq crash (pc.step rq crash inp srv).2).held = none at h'
    change ∃ a, (Thread.ingest rq crash (pc.step rq crash inp srv).2).answer P = some a
    generalize (pc.step rq crash inp srv).1 = srv' at *
    generalize (pc.step rq crash inp srv).2 = pc' at *
    cases hstep with
    | released => exact ⟨_, rfl⟩
    | hit | miss | claimed | refused | ended => cases h
    | _ => cases h'
  | put p doc pc =>
    have hstep := PutPc.step_spec p doc srv pc
    change (Thread.put p doc (pc.step p doc srv).2).held = none at h'
    change ∃ a, (Thread.put p doc (pc.step p doc srv).2).answer P = some a
    generalize (pc.step p doc srv).1 = srv' at *
    generalize (pc.step p doc srv).2 = pc' at *
    cases hstep with
    | released => exact ⟨_, rfl⟩
    | claimed | refused | ended => cases h
    | _ => cases h'
  | once rq answer => cases h

/-- The moment of the pause. -/
theorem sAt_pause {n : ℕ} {pid : String} (hev : es[n]? = some (.pause pid)) :
    sAt P es (n + 1) = { sAt P es n with srv := (sAt P es n).srv.pause pid } := by
  obtain ⟨hn, he⟩ := List.getElem?_eq_some_iff.1 hev
  rw [sAt_succ hn, he]
  rfl

/-- A thread that has just released the pid has done so for good. -/
theorem NoneReleased.keeps {n m k t : ℕ} {pid : String} (h : NoneReleased P es n m pid) (hkm : k < m)
    {th₀ th' : Thread} (h₀ : (sAt P es n).threads[t]? = some th₀) (hheld₀ : th₀.Holder pid)
    {a : Answer} (hth' : (sAt P es (k + 1)).threads[t]? = some th') (ha : th'.answer P = some a) : False := by
  obtain ⟨thm, hthm, v, hheld⟩ := h t th₀ h₀ hheld₀
  obtain ⟨th'', hth'', -, hsame⟩ := thread_mono (by omega : k + 1 ≤ m) hth'
  obtain rfl := hsame a ha
  rw [hthm] at hth''
  cases hth''
  rw [Thread.held_of_answer ha] at hheld
  cases hheld

/-- **A pause lasts**, and the pid has no holder that it did not have before, while none of those
releases it. -/
theorem pause_lasts {n m : ℕ} {pid : String} (hev : es[n]? = some (.pause pid))
    (hpid : ((sAt P es n).srv.pids pid).isSome) (h : NoneReleased P es n m pid) {k : ℕ} (hnk : n < k) (hkm : k ≤ m) :
    (sAt P es k).srv.PausedAt pid ∧ ∀ (t : ℕ) th, (sAt P es k).threads[t]? = some th → th.Holder pid →
      ∃ th₀, (sAt P es n).threads[t]? = some th₀ ∧ th₀.Holder pid := by
  induction k, hnk using Nat.le_induction with
  | base =>
    rw [sAt_pause hev]
    exact ⟨Server.pausedAt_pause hpid, fun t th ht hh => ⟨th, ht, hh⟩⟩
  | succ k hnk ih =>
    obtain ⟨hpaused, hholders⟩ := ih (by omega)
    by_cases hlen : k < es.length
    · have hnext := @sAt_succ P es k hlen
      rcases Sys.step_cases P (sAt P es k) es[k] with ⟨rq, crash, -, he⟩ | ⟨t, inp, th, -, ht, he⟩ | ⟨p, -, he⟩ | ⟨-, he⟩
      · rw [hnext, he]
        refine ⟨hpaused, fun t th ht hh => ?_⟩
        rcases concat_cases ht with ht | ⟨-, rfl⟩
        · exact hholders t th ht hh
        · -- a new thread holds nothing
          obtain ⟨v, hv⟩ := hh
          rw [Thread.start_held] at hv
          cases hv
      · have hlt := (List.getElem?_eq_some_iff.1 ht).1
        rcases Thread.step_paused P inp th hpaused fun p v hh => (lock_inv P es k).holder ht hh with
          ⟨hstays, hsame⟩ | ⟨hh, hreleased, -⟩
        · rw [hnext, he]
          refine ⟨hstays, fun t' th' ht' hh' => ?_⟩
          rcases set_cases hlt ht' with ⟨rfl, rfl⟩ | ⟨-, ht'⟩
          · obtain ⟨v, hv⟩ := hh'
            exact hholders t' th ht ⟨v, (hsame v).1 hv⟩
          · exact hholders t' th' ht' hh'
        · -- the holder releases the pid: it was there at the pause
          obtain ⟨th₀, h₀, hh₀⟩ := hholders t th ht hh
          obtain ⟨v, hv⟩ := hh
          obtain ⟨a, ha⟩ := Thread.answer_of_released (P := P) hv hreleased
          refine (h.keeps (k := k) (by omega) h₀ hh₀ ?_ ha).elim
          rw [hnext, he]
          exact List.getElem?_set_self hlt
      · rw [hnext, he]
        exact ⟨hpaused.pause p, hholders⟩
      · rw [hnext, he]
        exact ⟨hpaused, hholders⟩
    · have he : sAt P es (k + 1) = sAt P es k :=
        (sAt_of_length_le (by omega)).trans (sAt_of_length_le (by omega)).symm
      rw [he]
      exact ⟨hpaused, hholders⟩

/-- **A release unpauses**: while the pid is paused, who had its lock at the pause has it still. -/
theorem noneReleased_of_paused {n m : ℕ} {pid : String} (hev : es[n]? = some (.pause pid))
    (h : ∀ k, n < k → k ≤ m → (sAt P es k).srv.PausedAt pid) (hnm : n ≤ m) : NoneReleased P es n m pid := by
  intro t th ht hh
  induction m, hnm using Nat.le_induction with
  | base => exact ⟨th, ht, hh⟩
  | succ m hnm ih =>
    obtain ⟨th', ht', hh'⟩ := ih fun k hk hkm => h k hk (by omega)
    by_cases hlen : m < es.length
    · have hnext := @sAt_succ P es m hlen
      rcases Sys.step_thread (P := P) (e := es[m]) ht' with ⟨inp, he, hsys, hstep⟩ | ⟨-, hstep⟩
      · -- its own step, which is not the pause
        have hne : n ≠ m := by
          rintro rfl
          rw [List.getElem?_eq_getElem hlen, he] at hev
          cases hev
        rcases Thread.step_paused P inp th' (h m (by omega) (by omega))
          fun p v hheld => (lock_inv P es m).holder ht' hheld with ⟨-, hsame⟩ | ⟨-, -, hunpaused⟩
        · obtain ⟨v, hv⟩ := hh'
          exact ⟨_, hnext ▸ hstep, v, (hsame v).2 hv⟩
        · have hlast := h (m + 1) (by omega) le_rfl
          rw [hnext, hsys] at hlast
          exact absurd hlast hunpaused
      · exact ⟨th', hnext ▸ hstep, hh'⟩
    · have he : sAt P es (m + 1) = sAt P es m :=
        (sAt_of_length_le (by omega)).trans (sAt_of_length_le (by omega)).symm
      rw [he]
      exact ⟨th', ht', hh'⟩

/-- **A request that comes to its claim** of a paused pid never gets past it. -/
theorem not_past_of_atClaim {n m k t : ℕ} {pid : String} (h : ∀ k, n < k → k ≤ m → (sAt P es k).srv.PausedAt pid)
    (hnk : n < k) (hkm : k ≤ m) {th : Thread} (ht : (sAt P es k).threads[t]? = some th) (hclaim : th.AtClaim pid) :
    ∃ th', (sAt P es m).threads[t]? = some th' ∧ (th'.AtClaim pid ∨ th'.outcome = some (.terminal "paused")) := by
  induction m, hkm using Nat.le_induction with
  | base => exact ⟨th, ht, .inl hclaim⟩
  | succ m hkm ih =>
    obtain ⟨th', ht', hturned⟩ := ih fun k hk hkm => h k hk (by omega)
    by_cases hlen : m < es.length
    · rw [sAt_succ hlen]
      rcases Sys.step_thread (P := P) (e := es[m]) ht' with ⟨inp, -, -, hstep⟩ | ⟨-, hstep⟩
      · refine ⟨_, hstep, .inr ?_⟩
        rcases hturned with hclaim' | hout
        · exact (Thread.step_atClaim P inp (h m (by omega) (by omega)) hclaim').2.1
        · -- it has been answered, and does nothing more
          obtain ⟨a, ha⟩ := Thread.answer_of_outcome (P := P) hout
          rw [Thread.step_of_answer P ha]
          exact hout
      · exact ⟨th', hstep, hturned⟩
    · have he : sAt P es (m + 1) = sAt P es m :=
        (sAt_of_length_le (by omega)).trans (sAt_of_length_le (by omega)).symm
      rw [he]
      exact ⟨th', ht', hturned⟩

/-- **A pid that stays paused** is not claimed, and its requests are turned away. -/
theorem staysPaused {n m : ℕ} {pid : String} (hev : es[n]? = some (.pause pid))
    (hpid : ((sAt P es n).srv.pids pid).isSome) (h : NoneReleased P es n m pid) : StaysPaused P es n m pid := by
  have hpaused : ∀ k, n < k → k ≤ m → (sAt P es k).srv.PausedAt pid := fun k hk hkm => (pause_lasts hev hpid h hk hkm).1
  refine ⟨hpaused, fun k t th th' hk hkm ht hno ht' hh' => ?_, fun k t inp th hk hkm he ht hclaim => ?_,
    fun k t th hk hkm ht hclaim j inp hj he => ?_⟩
  · -- who holds the pid held it at the pause, and then all the time
    obtain ⟨th₀, h₀, hh₀⟩ := (pause_lasts hev hpid h (by omega) (by omega : k + 1 ≤ m)).2 t th' ht' hh'
    obtain ⟨th₁, h₁, hh₁⟩ := noneReleased_of_paused (m := k) hev
      (fun i hi hik => hpaused i hi (by omega)) (by omega) t th₀ h₀ hh₀
    rw [ht] at h₁
    cases h₁
    exact hno hh₁
  · obtain ⟨hlen, he⟩ := List.getElem?_eq_some_iff.1 he
    rw [sAt_succ hlen, he]
    simp only [Sys.step, ht]
    exact ⟨_, List.getElem?_set_self (List.getElem?_eq_some_iff.1 ht).1,
      (Thread.step_atClaim P inp (hpaused k hk (by omega)) hclaim).2.2⟩
  · obtain ⟨th', ht', hturned⟩ := not_past_of_atClaim hpaused hk hkm ht hclaim
    refine neutral_of_not_past ht' ?_ hj he
    rcases hturned with hclaim' | hout
    · exact hclaim'.not_past
    · exact not_past_of_rejected hout trivial

end

/-! ## What a client makes of it -/

/-- A terminal failure. -/
def IsTerminal (e : PyError) : Prop := ∃ detail, e = .destinationTerminal detail

section

variable {P : Runtime} {T : HttpTransport} {cl : JobClient Request Answer} {active : Option String}

theorem raisesOn_paused : RaisesOn P (fun _ => Told "paused") IsTerminal := by
  intro T rq
  refine stopsOn_bind (stops_request_told (by decide) rq) (spec_request rq) (fun _ _ => trivial) ?_
  rintro _ ⟨detail, rfl⟩
  exact ⟨_, rfl, _, ⟨detail, rfl⟩, rfl⟩

/-- A state write lets go a conflict that says it is stale, and no other. -/
theorem stops_put_paused (pid : String) (doc : Row) :
    (T.putDltState P pid doc).StopsOn (fun _ => Told "paused") (FailedAs IsTerminal) := by
  refine stopsOn_bind (stops_request_told (by decide) _) (spec_request _) (fun _ _ => trivial) ?_
  rintro _ ⟨detail, rfl⟩
  refine ⟨_, rfl, _, ⟨detail, rfl⟩, ?_⟩
  simp [HttpTransport.putResult]

/-- What a client does once its identity is resolved. -/
theorem stops_resolved {α : Type} (hcl : IsHttp P cl) (key : String)
    {f : Except PyError (Option String) × JobClient Request Answer → Prog Request Answer (Except PyError α × JobClient Request Answer)}
    (hf : ∀ pid cl', IsHttp P cl' → (f (.ok pid, cl')).StopsOn (fun _ => Told "paused") fun x => FailedAs IsTerminal x.1)
    (hfail : ∀ e cl', f (.error e, cl') = ret (.error e, cl')) :
    (cl.ensurePid key >>= f).StopsOn (fun _ => Told "paused") fun x => FailedAs IsTerminal x.1 := by
  refine stopsOn_bind (stops_ensurePid raisesOn_paused hcl _)
    (spec_ensurePid (φ := fun _ => True) hcl (fun _ _ => trivial) _) ?_ ?_
  · rintro ⟨r, cl'⟩ ⟨hsame, -⟩
    cases r with
    | error e =>
      rw [hfail]
      trivial
    | ok pid => exact hf pid cl' (hsame.isHttp hcl)
  · rintro ⟨_, cl'⟩ ⟨e, he, rfl⟩
    exact ⟨_, hfail e cl', e, he, rfl⟩

/-- What a client passes on from its transport. -/
theorem stops_passed {α : Type} {p : Prog Request Answer (Except PyError α)} {q : Request} {β : Type}
    {g : Except PyError α → Except PyError β} (hp : p.StopsOn (fun _ => Told "paused") (FailedAs IsTerminal))
    (hspec : p.Spec (· = q) fun _ => True) (hg : ∀ e, g (.error e) = .error e) (cl : JobClient Request Answer) :
    (p >>= fun r => ret (g r, cl)).StopsOn (fun _ => Told "paused") fun x => FailedAs IsTerminal x.1 := by
  refine stopsOn_bind hp hspec (fun _ _ => trivial) ?_
  rintro _ ⟨e, he, rfl⟩
  exact ⟨_, rfl, e, he, hg e⟩

theorem stops_putDltState_paused (hcl : IsHttp P cl) (row : Row) :
    (cl.putDltState active row).StopsOn (fun _ => Told "paused") fun x => FailedAs IsTerminal x.1 := by
  unfold JobClient.putDltState
  rw [ensurePidFallback_eq]
  refine stops_resolved hcl _ (fun _ cl' ⟨T, hT⟩ => ?_) fun _ _ => rfl
  dsimp only
  cases cl'.pid with
  | none => trivial
  | some pid =>
    dsimp only
    rw [hT]
    exact stops_passed (g := id) (stops_put_paused _ _) (spec_bind (spec_request _) fun _ _ => trivial) (fun _ => rfl) _

theorem stops_getStoredState_paused (hcl : IsHttp P cl) (name : String) :
    (cl.getStoredState name).StopsOn (fun _ => Told "paused") fun x => FailedAs IsTerminal x.1 := by
  refine stops_resolved hcl _ (fun _ cl' ⟨T, hT⟩ => ?_) fun _ _ => rfl
  dsimp only
  cases cl'.pid with
  | none => trivial
  | some pid =>
    dsimp only
    rw [hT]
    exact stops_passed (stops_after raisesOn_paused _ fun _ => rfl)
      (spec_bind (spec_terminalOnConflict _) fun _ _ => trivial) (fun _ => rfl) _

theorem stops_completeLoad_paused (hcl : IsHttp P cl) (loadId : String) :
    (cl.completeLoad active loadId).StopsOn (fun _ => Told "paused") fun x => FailedAs IsTerminal x.1 := by
  unfold JobClient.completeLoad
  rw [ensurePidFallback_eq]
  refine stops_resolved hcl _ (fun _ cl' ⟨T, hT⟩ => ?_) fun _ _ => rfl
  dsimp only
  rw [hT]
  exact stops_passed (g := id) (stops_after raisesOn_paused _ fun _ => rfl)
    (spec_bind (spec_terminalOnConflict _) fun _ _ => trivial) (fun _ => rfl) _

/-- The result of a method is turned into a value. -/
theorem stops_value {α : Type} {p : Prog Request Answer (Except PyError α × JobClient Request Answer)} {f : α → Val}
    (hp : p.StopsOn (fun _ => Told "paused") fun x => FailedAs IsTerminal x.1) (hspec : p.Spec (fun _ => True) fun _ => True) :
    (p >>= fun x => ret (x.1.map f, x.2)).StopsOn (fun _ => Told "paused") fun x => FailedAs IsTerminal x.1 := by
  refine stopsOn_bind hp hspec (fun _ _ => trivial) ?_
  rintro ⟨_, cl⟩ ⟨e, he, rfl⟩
  exact ⟨_, rfl, e, he, rfl⟩

/-- Every program asks something. -/
theorem spec_any {α : Type} (p : Prog Request Answer α) : p.Spec (fun _ => True) fun _ => True := by
  induction p with
  | ret a => trivial
  | call q k ih => exact ⟨trivial, ih⟩

/-- **A call that is told that its pid is paused** raises a terminal failure at once. -/
theorem stops_paused (hcl : IsHttp P cl) (op : Call) :
    (op.prog P active cl).StopsOn (fun _ => Told "paused") fun x => FailedAs IsTerminal x.1 := by
  cases op with
  | loadJob job =>
    refine stops_value ?_ (spec_any _)
    unfold LoadJob.run
    cases checkDisposition job.table with
    | error e => trivial
    | ok w => cases job.rows P with
      | error e => trivial
      | ok rows =>
        dsimp only
        rw [LoadJob.sendLoop_eq]
        exact stops_sendEach raisesOn_paused hcl _ _
  | stateJob lines =>
    refine stops_value ?_ (spec_any _)
    unfold stateJobRun
    cases stateRow P.customPuaRemove lines none with
    | error e => trivial
    | ok row => cases row with
      | none => trivial
      | some row => exact stops_putDltState_paused hcl row
  | putDltState row => exact stops_value (stops_putDltState_paused hcl row) (spec_any _)
  | getStoredState name => exact stops_value (stops_getStoredState_paused hcl name) (spec_any _)
  | sendChunk c => exact stops_value (stops_client_sendChunk raisesOn_paused hcl c) (spec_any _)
  | completeLoad loadId => exact stops_value (stops_completeLoad_paused hcl loadId) (spec_any _)

/-- The conflict that a paused pid answers with. -/
theorem told_paused : Told "paused" (conflictReply P "paused") := ⟨_, rfl, rfl, rfl⟩

end

/-! ## Paused pids stay paused -/

/-- **When a paused pid stays paused.** In every run, with any number of requests in flight: between
the pause and a later moment the pid stays paused, its claims are refused and its data are not
written by who comes to a claim, just if no request that had its lock at the pause has released it.
And every call that is told that its pid is paused has raised a terminal failure. -/
theorem paused_iff (P : Runtime) :
    (∀ (es : List SysEvent) (n m : ℕ) (pid : String), es[n]? = some (.pause pid) →
      ((sAt P es n).srv.pids pid).isSome → n < m → (StaysPaused P es n m pid ↔ NoneReleased P es n m pid)) ∧
    ∀ (es : List Event) (n : ℕ), ∀ r ∈ (wAt P es n).calls, ∀ x ∈ r.log, x.answer = conflictReply P "paused" →
      ∃ detail, r.result = some (.error (.destinationTerminal detail)) := by
  refine ⟨fun es n m pid hev hpid hnm => ⟨fun h => ?_, staysPaused hev hpid⟩, fun es n r hr x hx hans => ?_⟩
  · exact noneReleased_of_paused hev h.paused hnm.le
  · have hs := (world_inv P es n).sound r hr
    -- the call is where its program is, after what it was answered
    obtain ⟨⟨res, cl⟩, hret, e, ⟨detail, rfl⟩, rfl⟩ :=
      (stops_paused hs.http r.call).ends hs.conv (List.mem_map_of_mem hx) (hans ▸ told_paused)
    refine ⟨detail, ?_⟩
    unfold CallRun.result
    rw [hret]

/-! ### A chunk that is under way -/

/-- A pid is registered, and paused when a chunk of it has made `k` steps. The chunk makes its other
steps, and then another one arrives. -/
def pausingRun (k : ℕ) : List SysEvent :=
  [.spawn (.register "shop" "shop") none, .tick 0 (clockAt 1700000000000), .spawn (.ingest (tailChunk "0" 1)) none] ++
    List.replicate k (.tick 1 (clockAt 1700000000000)) ++ [.pause "0123456789abcdefghijklmnopq"] ++
    List.replicate (11 - k) (.tick 1 (clockAt 1700000000000)) ++
    [.spawn (.ingest (tailChunk "1" 2)) none] ++ List.replicate 11 (.tick 2 (clockAt 1700000000000))

/-- Paused before the chunk has claimed it, the pid stays so. -/
theorem paused_iff_idle : StaysPaused .plain (pausingRun 1) 4 27 "0123456789abcdefghijklmnopq" := by
  refine ((paused_iff .plain).1 (pausingRun 1) 4 27 _ rfl (by decide) (by decide)).2 fun t th ht hh => ?_
  have hth : (sAt .plain (pausingRun 1) 4).threads = [
      .once (.register "shop" "shop") (some (registered .plain "0123456789abcdefghijklmnopq" "shop" true)),
      .ingest (tailChunk "0" 1) none .claim] := rfl
  rw [hth] at ht
  obtain ⟨v, hv⟩ := hh
  have hmem := List.mem_of_getElem? ht
  simp only [List.mem_cons, List.not_mem_nil, or_false] at hmem
  rcases hmem with rfl | rfl <;> cases hv

/-- **A chunk unpauses its pid**: it has claimed it when it is paused, and its release sets it back.
The next chunk claims it, is committed and acknowledged. -/
theorem unpausing_release :
    (pausingRun 2)[5]? = some (.pause "0123456789abcdefghijklmnopq") ∧
    ((sAt .plain (pausingRun 2) 5).srv.pids "0123456789abcdefghijklmnopq").isSome ∧
    (∃ th, (sAt .plain (pausingRun 2) 18).threads[2]? = some th ∧ th.Holder "0123456789abcdefghijklmnopq") ∧
    (sAt .plain (pausingRun 2) 27).srv.segments.length = 2 ∧
    (∃ th, (sAt .plain (pausingRun 2) 27).threads[2]? = some th ∧ th.request = .ingest (tailChunk "1" 2) ∧
      ∃ rsp, th.answer .plain = some (.reply rsp) ∧ rsp.status = 200) ∧
    ¬ StaysPaused .plain (pausingRun 2) 5 27 "0123456789abcdefghijklmnopq" := by
  refine ⟨rfl, by decide, ⟨_, rfl, 4, rfl⟩, rfl, ⟨_, rfl, rfl, _, rfl, rfl⟩, fun h => ?_⟩
  obtain ⟨item, hitem, hpaused⟩ := h.paused 15 (by decide) (by decide)
  have hlistening : ((sAt .plain (pausingRun 2) 15).srv.pids "0123456789abcdefghijklmnopq").map PidItem.fsmState =
      some .listening := rfl
  rw [hitem, Option.map_some, hpaused] at hlistening
  cases hlistening

end Matterbeam
