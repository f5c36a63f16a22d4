import Mathlib.Tactic.IntervalCases
import Matterbeam.Proof.Tail

/-!
# A closed load

`complete_load` closes a load without taking the entry lock, so a chunk that has passed its
closed check by then goes on to its commit. When no chunk of the load is that far, the load
stays closed.

* `entered`: a chunk that is being answered with a success is in the ledger.
* `IngestStep.shut`: what a step of a chunk can do once its load is closed.
* `shut_inv`: where the chunks of the load are, ever after.
* `closed_load`: **a closed load stays closed**, if it was idle when it was closed.
-/

namespace Matterbeam

open Function

/-! ## Answers and the ledger -/

/-- A chunk that is past its ledger write is in the ledger. -/
def Thread.Entered (srv : Server) : Thread → Prop
  | ingest rq _ (.reply _ _) => srv.ledger rq.lkey ≠ none
  | ingest rq _ (.release _ out) => out = .terminal "load_closed" ∨ (∃ r, out = .crashed r) ∨ srv.ledger rq.lkey ≠ none
  | _ => True

/-- Chunks stay in the ledger. -/
theorem Thread.step_ledger (P : Runtime) (inp : Inputs) {srv : Server} (th : Thread) {lkey : String}
    (h : srv.ledger lkey ≠ none) : (th.step P inp srv).1.ledger lkey ≠ none := by
  cases th with
  | ingest rq crash pc =>
    have hstep := (IngestPc.step_spec rq crash inp srv pc).facts
    change (pc.step rq crash inp srv).1.ledger lkey ≠ none
    generalize (pc.step rq crash inp srv).1 = srv' at *
    generalize (pc.step rq crash inp srv).2 = pc' at *
    cases hstep with
    | same hs => rwa [hs.ledger]
    | commit => exact h
    | mark => exact h
    | record =>
      -- the only step that writes the ledger adds to it
      by_cases hk : lkey = rq.lkey
      · subst hk
        simp [Server.addLedger]
      · refine ne_of_eq_of_ne ?_ h
        exact update_of_ne hk _ srv.ledger
  | put pid doc pc => rwa [← (PutPc.step_spec pid doc srv pc).facts.ledger] at h
  | once rq answer => cases answer with
    | none => rwa [← (onceStep_spec P inp srv rq).facts.ledger] at h
    | some a => exact h

theorem IngestStep.entered {rq : IngestRequest} {crash : Option CrashPoint} {inp : Inputs} {srv srv' : Server}
    {pc pc' : IngestPc} (h : IngestStep rq crash inp srv pc srv' pc')
    (he : (Thread.ingest rq crash pc).Entered srv) : (Thread.ingest rq crash pc').Entered srv' := by
  cases h with
  | late => exact Or.inl rfl
  | unhashable => exact Or.inr (Or.inl ⟨_, rfl⟩)
  | crashMark => exact Or.inr (Or.inl ⟨_, rfl⟩)
  | crashRecord => exact Or.inr (Or.inl ⟨_, rfl⟩)
  | recorded =>
    unfold Thread.Entered Server.addLedger
    simp
  | crashReply => exact Or.inr (Or.inl ⟨_, rfl⟩)
  | replied => exact Or.inr (Or.inr he)
  | _ => trivial

theorem Thread.Entered.mono {srv srv' : Server} {th : Thread} (h : th.Entered srv)
    (hl : ∀ lkey, srv.ledger lkey ≠ none → srv'.ledger lkey ≠ none) : th.Entered srv' := by
  cases th with
  | ingest rq crash pc =>
    cases pc with
    | reply v r => exact hl _ h
    | release v out => exact h.imp id (Or.imp id (hl _))
    | _ => trivial
  | _ => trivial

section

variable {P : Runtime} {es : List SysEvent}

/-- **A chunk that is being answered with a success is in the ledger.** -/
theorem entered {n t : ℕ} {th : Thread} (h : (sAt P es n).threads[t]? = some th) : th.Entered (sAt P es n).srv := by
  refine (thread_rule (G := fun _ => True) (I := fun srv th => th.Entered srv) trivial ?_ ?_ ?_ n).2 h
  · intro srv pid _
    exact ⟨trivial, fun th hth => hth.mono fun lkey hl => by rwa [(SameFacts.pause srv pid).ledger]⟩
  · intro srv rq crash _ _
    cases rq <;> trivial
  · intro srv th inp _ _ hth
    refine ⟨trivial, ?_, fun th' _ _ hth' => hth'.mono fun lkey hl => Thread.step_ledger P inp th hl⟩
    cases th with
    | ingest rq crash pc => exact (IngestPc.step_spec rq crash inp srv pc).entered hth
    | put pid doc pc => trivial
    | once rq answer => cases answer <;> trivial

end

/-! ## Chunks of a closed load -/

/-- The chunk has found its load open, and is on its way to the ledger. -/
def IngestPc.underway : IngestPc → Bool
  | prepare _ => true
  | filter _ _ => true
  | «begin» _ _ => true
  | commit _ _ _ => true
  | mark _ _ _ _ => true
  | record _ _ _ _ => true
  | _ => false

/-- The pid is registered, no chunk of the load is between its closed check and its ledger write,
and none is yet to be answered with a crash that kept it from the ledger. -/
structure LoadIdle (s : Sys) (pid loadId : String) : Prop where
  registered : (s.srv.pids pid).isSome
  none_underway : ∀ rq crash pc, Thread.ingest rq crash pc ∈ s.threads → rq.pid = pid → rq.loadId = loadId →
    pc.underway = false
  none_crashed : ∀ rq crash v r, Thread.ingest rq crash (.release v (.crashed r)) ∈ s.threads → rq.pid = pid →
    rq.loadId = loadId → s.srv.ledger rq.lkey ≠ none

/-- The ways a chunk is turned away by a conflict. -/
def Outcome.Refused (out : Outcome) : Prop :=
  out = contention ∨ out = terminal "paused" ∨ out = terminal "load_closed"

/-- Where a chunk of a closed load can be. It is `old` if it was answered, or in the ledger, when
the load was closed, and `found` if it was found in the ledger later. -/
def IngestPc.Shut (old found : Prop) : IngestPc → Prop
  | check => True
  | claim => True
  | closed _ => True
  | reply _ _ => old
  | release _ out => out = .terminal "load_closed" ∨ old
  | done out => out.Refused ∨ found ∨ old
  | _ => False

theorem IngestPc.Shut.mono {old found found' : Prop} {pc : IngestPc} (h : pc.Shut old found) (hf : found → found') :
    pc.Shut old found' := by
  cases pc with
  | done out => exact h.imp id (Or.imp hf id)
  | _ => exact h

/-- How many steps a chunk of a closed load has to go. -/
def IngestPc.toGo : IngestPc → ℕ
  | check => 4
  | claim => 3
  | closed _ => 2
  | reply _ _ => 2
  | release _ _ => 1
  | _ => 0

/-- **What a step of a chunk can do once its load is closed**: it brings the chunk nearer to its
answer, which is a conflict unless the chunk is in the ledger. -/
theorem IngestStep.shut {rq : IngestRequest} {crash : Option CrashPoint} {inp : Inputs} {srv srv' : Server}
    {pc pc' : IngestPc} {old found : Prop} (h : IngestStep rq crash inp srv pc srv' pc')
    (hclosed : (rq.pid, rq.loadId) ∈ srv.closedLoads) (hpid : (srv.pids rq.pid).isSome)
    (hfound : pc = .check → srv.ledger rq.lkey ≠ none → found) (hs : pc.Shut old found) :
    pc'.Shut old found ∧ pc'.toGo ≤ pc.toGo - 1 := by
  cases h with
  | hit hl => exact ⟨Or.inr (Or.inl (hfound rfl (by rw [hl]; simp))), Nat.zero_le _⟩
  | miss => exact ⟨trivial, le_rfl⟩
  | claimed => exact ⟨trivial, le_rfl⟩
  -- turned away by the claim: the pid is there, so it is contention or a pause
  | refused c hout =>
    refine ⟨Or.inl ?_, Nat.zero_le _⟩
    rcases hout with he | ⟨he, -⟩ | ⟨hnone, -⟩
    · exact Or.inl he
    · exact Or.inr (Or.inl he)
    · rw [hnone] at hpid
      cases hpid
  | late => exact ⟨Or.inl rfl, le_rfl⟩
  | opened hopen => exact absurd hclosed hopen
  | crashReply => exact ⟨Or.inr hs, le_rfl⟩
  | replied => exact ⟨Or.inr hs, le_rfl⟩
  | released =>
    refine ⟨?_, Nat.zero_le _⟩
    rcases hs with he | hold
    · exact Or.inl (Or.inr (Or.inr he))
    · exact Or.inr (Or.inr hold)
  | ended => exact ⟨hs, Nat.zero_le _⟩
  -- a chunk of a closed load is never at the other points
  | _ => exact hs.elim

/-- Closed loads stay closed. -/
theorem Thread.step_closedLoads (P : Runtime) (inp : Inputs) {srv : Server} (th : Thread) {x : String × String}
    (h : x ∈ srv.closedLoads) : x ∈ (th.step P inp srv).1.closedLoads := by
  cases th with
  | ingest rq crash pc =>
    have hrolls := (IngestPc.step_spec rq crash inp srv pc).rolls
    change x ∈ (pc.step rq crash inp srv).1.closedLoads
    rwa [hrolls.closedLoads]
  | put pid doc pc =>
    have hrolls := (PutPc.step_spec pid doc srv pc).rolls
    change x ∈ (pc.step pid doc srv).1.closedLoads
    rwa [hrolls.closedLoads]
  | once rq answer => cases answer with
    | none =>
      have hstep := onceStep_spec P inp srv rq
      change x ∈ (onceStep P inp srv rq).1.closedLoads
      generalize (onceStep P inp srv rq).1 = srv' at *
      generalize (onceStep P inp srv rq).2 = answer at *
      cases hstep with
      | closed => exact List.mem_cons_of_mem _ h
      | _ => exact h
    | some a => exact h

/-! ## After the load is closed -/

/-- The segments of a load. -/
def segmentsOfLoad (segments : List Segment) (pid loadId : String) : List Segment :=
  segments.filter fun seg => seg.request.pid = pid ∧ seg.request.loadId = loadId

/-- A step adds a segment to a load only from a chunk of that load at its commit. -/
theorem Thread.step_segmentsOfLoad (P : Runtime) (inp : Inputs) (srv : Server) {th : Thread} {pid loadId : String}
    (h : ∀ rq crash v b ms, th = .ingest rq crash (.commit v b ms) → rq.pid = pid → rq.loadId ≠ loadId) :
    segmentsOfLoad (th.step P inp srv).1.segments pid loadId = segmentsOfLoad srv.segments pid loadId := by
  rcases Thread.step_commit P inp srv th with he | ⟨rq, crash, v, b, ms, noise, hth, -, -, he⟩
  · rw [he]
  · have hload := h rq crash v b ms hth
    unfold segmentsOfLoad
    rw [he, List.filter_append, List.filter_cons_of_neg, List.filter_nil, List.append_nil]
    rw [decide_eq_true_eq]
    exact fun ⟨hp, hl⟩ => hload hp hl

section

variable (P : Runtime) (es : List SysEvent)

/-- The chunk of thread `t` was answered, or was in the ledger, at the moment `n`. -/
def OldAt (n t : ℕ) (rq : IngestRequest) : Prop :=
  (∃ th, (sAt P es n).threads[t]? = some th ∧ th.answer P ≠ none) ∨ (sAt P es n).srv.ledger rq.lkey ≠ none

/-- The chunk of thread `t` was looked up in the ledger between two moments, and was there. -/
def FoundInLedger (n m t : ℕ) (rq : IngestRequest) : Prop :=
  ∃ k, n ≤ k ∧ k < m ∧ ∃ crash inp, es[k]? = some (.tick t inp) ∧
    (sAt P es k).threads[t]? = some (.ingest rq crash .check) ∧ (sAt P es k).srv.ledger rq.lkey ≠ none

/-- What holds at `m` of a load that was closed at `n`. -/
structure ShutInv (n m : ℕ) (pid loadId : String) : Prop where
  closed : (pid, loadId) ∈ (sAt P es m).srv.closedLoads
  registered : ((sAt P es m).srv.pids pid).isSome
  segments : segmentsOfLoad (sAt P es m).srv.segments pid loadId = segmentsOfLoad (sAt P es n).srv.segments pid loadId
  chunks : ∀ (t : ℕ) rq crash pc, (sAt P es m).threads[t]? = some (Thread.ingest rq crash pc) → rq.pid = pid → rq.loadId = loadId →
    pc.Shut (OldAt P es n t rq) (FoundInLedger P es n m t rq)

variable {P es}

theorem FoundInLedger.mono {n m m' t : ℕ} {rq : IngestRequest} (h : FoundInLedger P es n m t rq) (hm : m ≤ m') :
    FoundInLedger P es n m' t rq := by
  obtain ⟨k, hn, hk, hrest⟩ := h
  exact ⟨k, hn, by omega, hrest⟩

/-- **The moment the load is closed.** -/
theorem ShutInv.start {n t : ℕ} {inp : Inputs} {pid loadId : String} (hev : es[n]? = some (.tick t inp))
    (hth : (sAt P es n).threads[t]? = some (.once (.completeLoad pid loadId) none))
    (hidle : LoadIdle (sAt P es n) pid loadId) : ShutInv P es n (n + 1) pid loadId := by
  obtain ⟨hn, he⟩ := List.getElem?_eq_some_iff.1 hev
  have hsys : sAt P es (n + 1) = ⟨(sAt P es n).srv.completeLoad pid loadId, (sAt P es n).threads.set t
      (.once (.completeLoad pid loadId) (some (jsonReply P 200 (.obj [("status", .str "ok")]))))⟩ := by
    rw [sAt_succ hn, he]
    simp only [Sys.step, hth]
    rfl
  refine ⟨?_, ?_, ?_, fun t' rq crash pc ht' hp hl => ?_⟩
  · rw [hsys]
    exact List.mem_cons_self
  · rw [hsys]
    exact hidle.registered
  · rw [hsys]
    rfl
  · -- the thread that closes the load is no chunk
    rw [hsys] at ht'
    rcases set_cases (List.getElem?_eq_some_iff.1 hth).1 ht' with ⟨-, he⟩ | ⟨-, ht'⟩
    · cases he
    have hmem := List.mem_of_getElem? ht'
    have hent := entered ht'
    have hund := hidle.none_underway rq crash pc hmem hp hl
    cases pc with
    | check => trivial
    | claim => trivial
    | closed v => trivial
    -- past its ledger write, the chunk is in the ledger
    | reply v r => exact Or.inr hent
    | release v out =>
      rcases hent with hcl | ⟨r, rfl⟩ | hled
      · exact Or.inl hcl
      · exact Or.inr (Or.inr (hidle.none_crashed rq crash v r hmem hp hl))
      · exact Or.inr (Or.inr hled)
    | done out => exact Or.inr (Or.inr (Or.inl ⟨_, ht', by simp [Thread.answer]⟩))
    | _ => cases hund

/-- **The load stays shut** from one moment to the next. -/
theorem ShutInv.succ {n m : ℕ} {pid loadId : String} (h : ShutInv P es n m pid loadId) (hnm : n ≤ m)
    (hm : m < es.length) : ShutInv P es n (m + 1) pid loadId := by
  have hcases := Sys.step_cases P (sAt P es m) es[m]
  rw [← sAt_succ hm] at hcases
  rcases hcases with ⟨rq₀, crash₀, hev, he⟩ | ⟨t₀, inp, th, hev, ht, he⟩ | ⟨p, -, he⟩ | ⟨-, he⟩
  · refine ⟨by rw [he]; exact h.closed, by rw [he]; exact h.registered, by rw [he]; exact h.segments, ?_⟩
    intro t rq crash pc ht hp hl
    rw [he] at ht
    rcases concat_cases ht with ht | ⟨-, hstart⟩
    · exact (h.chunks t rq crash pc ht hp hl).mono fun hf => hf.mono (by omega)
    · -- a chunk that has just arrived
      cases rq₀ <;> cases hstart
      trivial
  · -- a thread makes a step
    have hkeep : ((th.step P inp (sAt P es m).srv).1.pids pid).isSome := by
      rcases Thread.step_isSome P inp (sAt P es m).srv th pid with hp | ⟨-, hp⟩
      · rw [hp]; exact h.registered
      · exact hp
    refine ⟨by rw [he]; exact Thread.step_closedLoads P inp th h.closed, by rw [he]; exact hkeep, ?_, ?_⟩
    · rw [he, ← h.segments]
      -- a chunk of the load is not at its commit
      refine Thread.step_segmentsOfLoad P inp _ fun rq crash v b ms hth hp hl => ?_
      exact h.chunks t₀ rq crash _ (hth ▸ ht) hp hl
    · intro t rq crash pc ht' hp hl
      rw [he] at ht'
      rcases set_cases (List.getElem?_eq_some_iff.1 ht).1 ht' with ⟨rfl, hth⟩ | ⟨-, ht'⟩
      · -- its own step
        cases th with
        | ingest rq' crash' pc' =>
          cases hth
          have hold := h.chunks t rq crash pc' ht hp hl
          refine ((IngestPc.step_spec rq crash inp _ pc').shut (hp ▸ hl ▸ h.closed) (hp ▸ h.registered) ?_
            (hold.mono fun hf => hf.mono (Nat.le_succ m))).1
          rintro rfl hled
          exact ⟨m, hnm, Nat.lt_succ_self m, crash, inp, by rw [List.getElem?_eq_getElem hm, hev], ht, hled⟩
        | put p doc pc' => cases hth
        | once q answer => cases answer <;> cases hth
      · exact (h.chunks t rq crash pc ht' hp hl).mono fun hf => hf.mono (by omega)
  · -- the pid is paused: nothing that the invariant speaks of changes
    have hs := SameFacts.pause (sAt P es m).srv p
    have hclosed := (SameRolls.pause (sAt P es m).srv p).closedLoads
    refine ⟨by rw [he, hclosed]; exact h.closed, by rw [he, Server.isSome_pause]; exact h.registered,
      by rw [he, hs.segments]; exact h.segments, fun t rq crash pc ht hp hl => ?_⟩
    rw [he] at ht
    exact (h.chunks t rq crash pc ht hp hl).mono fun hf => hf.mono (by omega)
  · refine ⟨by rw [he]; exact h.closed, by rw [he]; exact h.registered, by rw [he]; exact h.segments, ?_⟩
    intro t rq crash pc ht hp hl
    rw [he] at ht
    exact (h.chunks t rq crash pc ht hp hl).mono fun hf => hf.mono (by omega)

/-- **The load stays shut** ever after. -/
theorem shut_inv {n t : ℕ} {inp : Inputs} {pid loadId : String} (hev : es[n]? = some (.tick t inp))
    (hth : (sAt P es n).threads[t]? = some (.once (.completeLoad pid loadId) none))
    (hidle : LoadIdle (sAt P es n) pid loadId) {m : ℕ} (hm : n < m) : ShutInv P es n m pid loadId := by
  induction m, hm using Nat.le_induction with
  | base => exact .start hev hth hidle
  | succ m hm ih =>
    by_cases hlen : m < es.length
    · exact ih.succ (by omega) hlen
    · have he : sAt P es (m + 1) = sAt P es m :=
        (sAt_of_length_le (by omega)).trans (sAt_of_length_le (by omega)).symm
      refine ⟨by rw [he]; exact ih.closed, by rw [he]; exact ih.registered, by rw [he]; exact ih.segments, ?_⟩
      intro t rq crash pc ht hp hl
      rw [he] at ht
      exact (ih.chunks t rq crash pc ht hp hl).mono fun hf => hf.mono (by omega)

/-- The event is a step of thread `t`. -/
def SysEvent.ticks (t : ℕ) : SysEvent → Bool
  | tick t' _ => t' = t
  | _ => false

theorem SysEvent.ticks_iff {t : ℕ} {e : SysEvent} : e.ticks t = true ↔ ∃ inp, e = .tick t inp := by
  cases e <;> simp [ticks]

/-- How many steps thread `t` makes between two moments. -/
def ticksOf (es : List SysEvent) (t n m : ℕ) : ℕ := ((es.take m).drop n).countP (SysEvent.ticks t)

theorem ticksOf_succ {t n m : ℕ} (hnm : n ≤ m) (hm : m < es.length) :
    ticksOf es t n (m + 1) = ticksOf es t n m + if es[m].ticks t then 1 else 0 := by
  unfold ticksOf
  rw [List.take_add_one, List.getElem?_eq_getElem hm, Option.toList_some, List.drop_append_of_le_length (by simp; omega),
    List.countP_append, List.countP_singleton]

/-- **A chunk of a closed load comes nearer to its answer** with every step it makes. -/
theorem toGo_le {n m t : ℕ} {inp : Inputs} {pid loadId : String} (hev : es[n]? = some (.tick t inp))
    (hth : (sAt P es n).threads[t]? = some (.once (.completeLoad pid loadId) none))
    (hidle : LoadIdle (sAt P es n) pid loadId) {k t' : ℕ} (hnk : n < k) (hkm : k ≤ m)
    {rq : IngestRequest} (hp : rq.pid = pid) (hl : rq.loadId = loadId) {th : Thread}
    (hk : (sAt P es k).threads[t']? = some th) {crash : Option CrashPoint} {pc : IngestPc}
    (hm : (sAt P es m).threads[t']? = some (.ingest rq crash pc)) :
    pc.toGo = 0 ∨ pc.toGo + ticksOf es t' k m ≤ 4 := by
  have hfour : ∀ pc : IngestPc, pc.toGo ≤ 4 := fun pc => by cases pc <;> simp [IngestPc.toGo]
  induction m, hkm using Nat.le_induction generalizing pc with
  | base =>
    have h0 : ticksOf es t' k k = 0 := by simp [ticksOf]
    have := hfour pc
    omega
  | succ m hkm ih =>
    by_cases hlen : m < es.length
    · obtain ⟨th₀, h₀, hrq, -⟩ := thread_mono hkm hk
      rw [ticksOf_succ hkm hlen]
      rw [sAt_succ hlen] at hm
      rcases Sys.step_thread (P := P) (e := es[m]) h₀ with ⟨inp', he, -, hstep⟩ | ⟨hne, hstep⟩
      · -- its own step
        rw [hstep, Option.some.injEq] at hm
        rw [if_pos (SysEvent.ticks_iff.2 ⟨inp', he⟩)]
        cases th₀ with
        | ingest rq' crash' pc' =>
          cases hm
          have hshut := shut_inv hev hth hidle (m := m) (by omega)
          have hold : pc'.Shut (OldAt P es n t' rq) True :=
            (hshut.chunks t' rq crash pc' h₀ hp hl).mono fun _ => trivial
          obtain ⟨-, hle⟩ := (IngestPc.step_spec rq crash inp' _ pc').shut (hp ▸ hl ▸ hshut.closed)
            (hp ▸ hshut.registered) (fun _ _ => trivial) hold
          rcases ih h₀ with hz | hle'
          · left
            omega
          · omega
        | put p doc pc' => cases hm
        | once q answer => cases answer <;> cases hm
      · -- a step of anything else
        rw [hstep, Option.some.injEq] at hm
        subst hm
        rw [if_neg fun h => hne (SysEvent.ticks_iff.1 h)]
        exact ih h₀
    · -- the run is over
      have he : sAt P es (m + 1) = sAt P es m :=
        (sAt_of_length_le (by omega)).trans (sAt_of_length_le (by omega)).symm
      have ht : ticksOf es t' k (m + 1) = ticksOf es t' k m := by
        unfold ticksOf
        rw [List.take_of_length_le (by omega), List.take_of_length_le (by omega)]
      rw [he] at hm
      rw [ht]
      exact ih hm

/-- **A closed load stays closed**, if it was idle when `complete_load` took effect, at the moment `n`:
no segment is added to it any more, and every chunk of it that was neither answered nor in the ledger
then, and is not found in the ledger later, is answered with a conflict within four of its steps. -/
theorem closed_load (P : Runtime) (es : List SysEvent) {n t : ℕ} {inp : Inputs} {pid loadId : String}
    (hev : es[n]? = some (.tick t inp))
    (hth : (sAt P es n).threads[t]? = some (.once (.completeLoad pid loadId) none))
    (hidle : LoadIdle (sAt P es n) pid loadId) {m : ℕ} (hm : n < m) :
    segmentsOfLoad (sAt P es m).srv.segments pid loadId = segmentsOfLoad (sAt P es n).srv.segments pid loadId ∧
    ∀ (t' : ℕ) (th : Thread) (rq : IngestRequest), (sAt P es m).threads[t']? = some th → th.request = .ingest rq →
      rq.pid = pid → rq.loadId = loadId → ¬ OldAt P es n t' rq → ¬ FoundInLedger P es n m t' rq →
      (∀ a, th.answer P = some a →
        ∃ reason ∈ ["lock_contention", "paused", "load_closed"], a = conflictReply P reason) ∧
      ∀ k th₀, n < k → k ≤ m → (sAt P es k).threads[t']? = some th₀ → 4 ≤ ticksOf es t' k m → th.answer P ≠ none := by
  have hshut := shut_inv hev hth hidle hm
  refine ⟨hshut.segments, fun t' th rq ht hq hp hl hold hfound => ?_⟩
  obtain ⟨crash, pc, rfl⟩ := ingest_of_request ht hq
  have hpc := hshut.chunks t' rq crash pc ht hp hl
  refine ⟨fun a ha => ?_, fun k th₀ hk hkm hthk hticks => ?_⟩
  · cases pc with
    | done out =>
      cases ha
      rcases hpc with (rfl | rfl | rfl) | hf | ho
      · exact ⟨_, by simp, rfl⟩
      · exact ⟨_, by simp, rfl⟩
      · exact ⟨_, by simp, rfl⟩
      · exact absurd hf hfound
      · exact absurd ho hold
    | _ => cases ha
  · -- four steps are enough to come to the end
    have hgo : pc.toGo = 0 := by
      rcases toGo_le hev hth hidle hk hkm hp hl hthk ht with hz | hle
      · exact hz
      · omega
    cases pc with
    | done out => simp [Thread.answer]
    | check => cases hgo
    | claim => cases hgo
    | closed v => cases hgo
    | reply v r => cases hgo
    | release v out => cases hgo
    | _ => exact hpc.elim

end

/-! ### A chunk that slips through -/

/-- A pid is registered, and the load `1.0` is closed when its chunk has made `k` steps, which
then makes the others. -/
def closingRun (k : ℕ) : List SysEvent :=
  [.spawn (.register "shop" "shop") none, .tick 0 (clockAt 1700000000000), .spawn (.ingest (tailChunk "0" 1)) none] ++
    List.replicate k (.tick 1 (clockAt 1700000000000)) ++
    [.spawn (.completeLoad "0123456789abcdefghijklmnopq" "1.0") none, .tick 2 (clockAt 1700000000000)] ++
    List.replicate (11 - k) (.tick 1 (clockAt 1700000000000))

/-- Closed while its chunk waits for the closed check, the load is idle. -/
theorem loadIdle_closingRun : LoadIdle (sAt .plain (closingRun 2) 6) "0123456789abcdefghijklmnopq" "1.0" := by
  have hth : (sAt .plain (closingRun 2) 6).threads = [
      .once (.register "shop" "shop") (some (registered .plain "0123456789abcdefghijklmnopq" "shop" true)),
      .ingest (tailChunk "0" 1) none (.closed 2),
      .once (.completeLoad "0123456789abcdefghijklmnopq" "1.0") none] := rfl
  refine ⟨by decide, fun rq crash pc h _ _ => ?_, fun rq crash v r h _ _ => ?_⟩
  · rw [hth] at h
    simp only [List.mem_cons, Thread.ingest.injEq, reduceCtorEq, List.not_mem_nil, or_false, false_or] at h
    rw [h.2.2]
    rfl
  · rw [hth] at h
    simp at h

/-- The chunk of that run comes too late, and is told so. -/
theorem closed_load_late :
    segmentsOfLoad (sAt .plain (closingRun 2) 16).srv.segments "0123456789abcdefghijklmnopq" "1.0" = [] ∧
    ∃ th, (sAt .plain (closingRun 2) 16).threads[1]? = some th ∧ th.request = .ingest (tailChunk "0" 1) ∧
      ∃ a, th.answer .plain = some a ∧
        ∃ reason ∈ ["lock_contention", "paused", "load_closed"], a = conflictReply .plain reason := by
  have hnew : ¬ OldAt .plain (closingRun 2) 6 1 (tailChunk "0" 1) := by
    rintro (⟨th, hth, ha⟩ | hl)
    · cases hth
      exact ha rfl
    · exact hl rfl
  have hnone : ¬ FoundInLedger .plain (closingRun 2) 6 16 1 (tailChunk "0" 1) := by
    rintro ⟨k, hk, hk', crash, inp, -, -, hl⟩
    refine hl (?_ : (sAt .plain (closingRun 2) k).srv.ledger (tailChunk "0" 1).lkey = none)
    interval_cases k <;> rfl
  obtain ⟨hsegs, hchunks⟩ := closed_load .plain (closingRun 2) (n := 6) (m := 16) rfl rfl loadIdle_closingRun
    (by decide)
  obtain ⟨hans, -⟩ := hchunks 1 _ (tailChunk "0" 1) rfl rfl rfl rfl hnew hnone
  exact ⟨hsegs.trans rfl, _, rfl, rfl, _, rfl, hans _ rfl⟩

/-- **A chunk slips through**: it has passed the closed check when its load is closed, and is
committed and acknowledged after that. -/
theorem slipped_chunk :
    ("0123456789abcdefghijklmnopq", "1.0") ∈ (sAt .plain (closingRun 3) 8).srv.closedLoads ∧
    ((sAt .plain (closingRun 3) 8).srv.pids "0123456789abcdefghijklmnopq").isSome ∧
    (sAt .plain (closingRun 3) 8).srv.ledger (tailChunk "0" 1).lkey = none ∧
    segmentsOfLoad (sAt .plain (closingRun 3) 8).srv.segments "0123456789abcdefghijklmnopq" "1.0" = [] ∧
    (segmentsOfLoad (sAt .plain (closingRun 3) 16).srv.segments "0123456789abcdefghijklmnopq" "1.0").length = 1 ∧
    ∃ th, (sAt .plain (closingRun 3) 16).threads[1]? = some th ∧ th.request = .ingest (tailChunk "0" 1) ∧
      ∃ rsp, th.answer .plain = some (.reply rsp) ∧ rsp.status = 200 :=
  ⟨by decide, by decide, rfl, rfl, rfl, _, rfl, rfl, _, rfl, rfl⟩

end Matterbeam
