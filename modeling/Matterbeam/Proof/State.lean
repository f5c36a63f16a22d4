import Mathlib.Algebra.Order.Ring.Cast
import Matterbeam.Proof.Lock

/-!
# The dlt state of a pid is a register

The content of a pid's dlt state is the last document that was accepted, and a document is
accepted only above the version of the one it replaces: the check and the write are made
under one claim, and only the holder of the claim writes.

* `accepted`: the documents accepted so far, each with the thread that wrote it.
* `dltState_eq`: **the state is the last of them.**
* `accepted_sorted`: **their versions increase.**
* `write_ends`: a write that was accepted, or turned away as stale, leaves the stored version
  at its own or above.
-/

namespace Matterbeam

open Function

/-! ## The register -/

/-- The dlt state of a pid. -/
def Server.dltState (srv : Server) (pid : String) : Option Row := (srv.processState pid).dltState

/-- What the next step of a thread writes to the dlt state of a pid. -/
def Thread.writes (p : String) : Thread → Option Row
  | put pid doc (.write _) => if pid = p then some doc else none
  | _ => none

theorem Thread.writes_eq_some {p : String} {th : Thread} {doc : Row} :
    th.writes p = some doc ↔ ∃ v, th = .put p doc (.write v) := by
  constructor
  · intro h
    cases th with
    | put pid doc' pc => cases pc with
      | write v =>
        by_cases hp : pid = p
        · subst hp
          simp only [writes, if_true, Option.some.injEq] at h
          exact ⟨v, by rw [h]⟩
        · simp [writes, hp] at h
      | _ => cases h
    | _ => cases h
  · rintro ⟨v, rfl⟩
    simp [writes]

section

variable {srv srv' : Server}

theorem dltState_setDltState (pid : String) (doc : Row) (p : String) :
    (srv.setDltState pid doc).dltState p = if p = pid then some doc else srv.dltState p := by
  unfold Server.dltState Server.setDltState
  by_cases hp : p = pid
  · subst hp
    simp
  · simp [hp]

theorem dltState_setRtState (pid recordtypeId : String) (rt : RtState) (p : String) :
    (srv.setRtState pid recordtypeId rt).dltState p = srv.dltState p := by
  unfold Server.dltState Server.setRtState
  by_cases hp : p = pid
  · subst hp
    simp
  · simp [hp]

theorem dltState_trackJobArrival (pid recordtypeId jobId p : String) :
    (srv.trackJobArrival pid recordtypeId jobId).dltState p = srv.dltState p := by
  unfold Server.trackJobArrival
  dsimp only
  split_ifs
  · rfl
  · exact dltState_setRtState _ _ _ _
  · exact dltState_setRtState _ _ _ _

theorem dltState_allocWriterId (pid p : String) : (srv.allocWriterId pid).dltState p = srv.dltState p := by
  unfold Server.allocWriterId
  cases srv.pids pid <;> rfl

theorem dltState_release (pid : String) (v : ℕ) (p : String) : (srv.release pid v).dltState p = srv.dltState p := by
  rcases srv.release_cases pid v with ⟨item, -, -, he⟩ | ⟨-, he⟩
  · rw [he]
    rfl
  · rw [he]

theorem dltState_pause (pid p : String) : (srv.pause pid).dltState p = srv.dltState p := by
  unfold Server.pause
  cases srv.pids pid <;> rfl

theorem IngestStep.dltState {rq : IngestRequest} {crash : Option CrashPoint} {inp : Inputs} {pc pc' : IngestPc}
    (h : IngestStep rq crash inp srv pc srv' pc') (p : String) : srv'.dltState p = srv.dltState p := by
  cases h with
  | prepared => rw [dltState_trackJobArrival, dltState_allocWriterId]
  | recorded => exact dltState_setRtState _ _ _ _
  | released => exact dltState_release _ _ _
  | _ => rfl

theorem PutStep.dltState {pid : String} {doc : Row} {pc pc' : PutPc} (h : PutStep pid doc srv pc srv' pc')
    (p : String) : srv'.dltState p = ((Thread.put pid doc pc).writes p).or (srv.dltState p) := by
  cases h with
  | written =>
    rw [dltState_setDltState]
    by_cases hp : p = pid
    · subst hp
      simp [Thread.writes]
    · simp [Thread.writes, hp, Ne.symm hp]
  | released => exact dltState_release _ _ _
  | _ => rfl

theorem OnceStep.dltState {P : Runtime} {inp : Inputs} {rq : Request} {a : Option Answer}
    (h : OnceStep P inp srv rq srv' a) (p : String) : srv'.dltState p = srv.dltState p := by
  cases h <;> rfl

/-- **Only a write writes.** -/
theorem Thread.step_dltState (P : Runtime) (inp : Inputs) (srv : Server) (th : Thread) (p : String) :
    (th.step P inp srv).1.dltState p = (th.writes p).or (srv.dltState p) := by
  cases th with
  | ingest rq crash pc => exact (IngestPc.step_spec rq crash inp srv pc).dltState p
  | put pid doc pc => exact (PutPc.step_spec pid doc srv pc).dltState p
  | once rq answer => cases answer with
    | none => exact (onceStep_spec P inp srv rq).dltState p
    | some a => rfl

end

/-! ## Accepted documents -/

section

variable (P : Runtime) (es : List SysEvent) (pid : String)

/-- The document that event number `n` writes to the state of `pid`, and the thread it is of. -/
def writtenAt (n : ℕ) : Option (ℕ × Row) :=
  match es[n]? with
  | some (.tick t _) => (((sAt P es n).threads[t]?).bind (Thread.writes pid)).map fun doc => (t, doc)
  | _ => none

/-- The documents that were accepted for `pid` in the first `n` events, in order. -/
def accepted : ℕ → List (ℕ × Row)
  | 0 => []
  | n + 1 => accepted n ++ (writtenAt P es pid n).toList

end

section

variable {P : Runtime} {es : List SysEvent} {pid : String}

theorem writtenAt_eq_some {n t : ℕ} {doc : Row} (h : writtenAt P es pid n = some (t, doc)) :
    ∃ v, (sAt P es n).threads[t]? = some (.put pid doc (.write v)) := by
  unfold writtenAt at h
  cases he : es[n]? with
  | none => rw [he] at h; cases h
  | some e => cases e with
    | tick t' inp =>
      rw [he] at h
      obtain ⟨doc', hd, h⟩ := Option.map_eq_some_iff.1 h
      cases h
      obtain ⟨th, hth, hw⟩ := Option.bind_eq_some_iff.1 hd
      obtain ⟨v, rfl⟩ := Thread.writes_eq_some.1 hw
      exact ⟨v, hth⟩
    | _ => rw [he] at h; cases h

/-- An accepted document was written by a state write. -/
theorem exists_write {n t : ℕ} {doc : Row} (h : (t, doc) ∈ accepted P es pid n) :
    ∃ m v, m < n ∧ (sAt P es m).threads[t]? = some (.put pid doc (.write v)) := by
  induction n with
  | zero => cases h
  | succ n ih =>
    rcases List.mem_append.1 h with h | h
    · obtain ⟨m, v, hm, hth⟩ := ih h
      exact ⟨m, v, by omega, hth⟩
    · obtain ⟨v, hth⟩ := writtenAt_eq_some (Option.mem_toList.1 h)
      exact ⟨n, v, by omega, hth⟩

theorem accepted_mono {n m : ℕ} (h : n ≤ m) : accepted P es pid n <+: accepted P es pid m := by
  induction m, h using Nat.le_induction with
  | base => exact List.prefix_rfl
  | succ m _ ih => exact ih.trans (List.prefix_append _ _)

/-- An event and the state of a pid. -/
theorem dltState_succ {n : ℕ} (hn : n < es.length) : (sAt P es (n + 1)).srv.dltState pid =
    ((writtenAt P es pid n).map Prod.snd).or ((sAt P es n).srv.dltState pid) := by
  unfold writtenAt
  rw [sAt_succ hn, List.getElem?_eq_getElem hn]
  rcases Sys.step_cases P (sAt P es n) es[n] with ⟨rq, crash, hev, he⟩ | ⟨t, inp, th, hev, ht, he⟩ |
    ⟨p, hev, he⟩ | ⟨⟨t, inp, hev, ht⟩, he⟩
  · rw [he, hev]
    rfl
  · rw [he, hev]
    dsimp only
    rw [ht, Thread.step_dltState, Option.bind_some, Option.map_map]
    cases th.writes pid <;> rfl
  · rw [he, hev]
    exact dltState_pause _ _
  · rw [he, hev]
    dsimp only
    rw [ht]
    rfl

/-- **The state is the last document that was accepted.** -/
theorem dltState_eq (n : ℕ) :
    (sAt P es n).srv.dltState pid = (accepted P es pid n).getLast?.map Prod.snd := by
  induction n with
  | zero => rfl
  | succ n ih =>
    unfold accepted
    by_cases hn : n < es.length
    · rw [dltState_succ hn, ih]
      cases writtenAt P es pid n <;> simp
    · have hw : writtenAt P es pid n = none := by
        unfold writtenAt
        rw [List.getElem?_eq_none (by omega)]
      rw [sAt_of_length_le (n := n + 1) (by omega), ← sAt_of_length_le (n := n) (by omega), ih, hw]
      simp

end

/-! ## Versions -/

/-- The version of a document, when it is an integer. -/
def docVersion (doc : Row) : ℤ :=
  match doc.get? "version" with
  | some (.int v) => v
  | _ => 0

/-- The version is an integer. -/
def HasVersion (doc : Row) : Prop := ∃ v : ℤ, doc.get? "version" = some (.int v)

theorem HasVersion.get {doc : Row} (h : HasVersion doc) : doc.get? "version" = some (.int (docVersion doc)) := by
  obtain ⟨v, hv⟩ := h
  unfold docVersion
  rw [hv]

/-- **A write is stale** when there is a document of its version or above. -/
theorem staleVersion_eq {previous : Option Row} {doc : Row} (hp : ∀ cur ∈ previous, HasVersion cur)
    (hd : HasVersion doc) : Server.staleVersion previous doc =
      .ok (previous.any fun cur => docVersion doc ≤ docVersion cur) := by
  cases previous with
  | none => rfl
  | some cur =>
    have hc := (hp cur rfl).get
    have hne : cur.entries ≠ [] := by
      intro h
      unfold Dict.get? at hc
      rw [h] at hc
      cases hc
    have hle : (Json.int (docVersion doc)).pyLe (.int (docVersion cur)) =
        some (decide (docVersion doc ≤ docVersion cur)) := by
      unfold Json.pyLe Json.pyLt
      simp only [Json.num?, Option.map_some, Int.cast_lt, Option.some.injEq, Bool.not_eq_eq_eq_not]
      by_cases h : docVersion doc ≤ docVersion cur
      · simp [h, not_lt.2 h]
      · simp [h, not_le.1 h]
    unfold Server.staleVersion Row.item
    simp only [hne, if_false, hc, hd.get]
    simp only [Bind.bind, Except.bind, hle]
    rfl

/-- Every state write that arrives has an integer version. -/
def Versioned (es : List SysEvent) : Prop := ∀ pid doc, Arrives es (.putState pid doc) → HasVersion doc

/-- The stored version is at least that of the document. -/
def AtLeast (srv : Server) (pid : String) (doc : Row) : Prop :=
  ∃ cur, srv.dltState pid = some cur ∧ docVersion doc ≤ docVersion cur

/-- The write was accepted, or has lost to another one. -/
def Outcome.Compared (out : Outcome) : Prop := out = accepted ∨ out = terminal "stale_state_version"

/-- The write was turned away at its claim. -/
def Outcome.Unclaimed (out : Outcome) : Prop := out = contention ∨ out = terminal "paused" ∨ ∃ r, out = crashed r

/-- Where a state write is, its document fits the state: about to be written it is newer, and
once it was compared it is not. -/
def PutPc.Fits (pid : String) (doc : Row) (srv : Server) : PutPc → Prop
  | write _ => ∀ cur, srv.dltState pid = some cur → docVersion cur < docVersion doc
  | release _ out => out.Compared ∧ AtLeast srv pid doc
  | done out => out.Compared ∧ AtLeast srv pid doc ∨ out.Unclaimed
  | _ => True

def Thread.Fits (srv : Server) : Thread → Prop
  | put pid doc pc => HasVersion doc ∧ pc.Fits pid doc srv
  | _ => True

section

variable {srv srv' : Server} {es : List SysEvent} {P : Runtime}

/-- A step that writes a newer document, or none. -/
theorem AtLeast.mono {pid : String} {doc : Row} (h : AtLeast srv pid doc)
    (hsrv : ∀ cur, srv.dltState pid = some cur → ∃ cur', srv'.dltState pid = some cur' ∧ docVersion cur ≤ docVersion cur') :
    AtLeast srv' pid doc := by
  obtain ⟨cur, hcur, hle⟩ := h
  obtain ⟨cur', hcur', hle'⟩ := hsrv cur hcur
  exact ⟨cur', hcur', hle.trans hle'⟩

theorem PutPc.Fits.congr {pid : String} {doc : Row} {pc : PutPc} (h : pc.Fits pid doc srv)
    (hs : srv'.dltState pid = srv.dltState pid) : pc.Fits pid doc srv' := by
  cases pc with
  | write v => exact fun cur hcur => h cur (hs ▸ hcur)
  | release v out => exact ⟨h.1, h.2.mono fun cur hcur => ⟨cur, hs.trans hcur, le_rfl⟩⟩
  | done out => exact h.imp (fun h => ⟨h.1, h.2.mono fun cur hcur => ⟨cur, hs.trans hcur, le_rfl⟩⟩) id
  | _ => trivial

/-- **A step of a state write keeps its document fitting.** -/
theorem PutStep.fits {pid : String} {doc : Row} {pc pc' : PutPc} (h : PutStep pid doc srv pc srv' pc')
    (hG : ∀ cur, srv.dltState pid = some cur → HasVersion cur) (hd : HasVersion doc) (hI : pc.Fits pid doc srv) :
    pc'.Fits pid doc srv' := by
  have hprev : ∀ cur ∈ srv.dltState pid, HasVersion cur := fun cur hcur => hG cur hcur
  have hstale := staleVersion_eq hprev hd
  cases h with
  | claimed h hf hs => trivial
  | refused c h =>
    rcases h with rfl | ⟨rfl, -⟩ | ⟨-, r, rfl⟩
    · exact Or.inr (Or.inl rfl)
    · exact Or.inr (Or.inr (Or.inl rfl))
    · exact Or.inr (Or.inr (Or.inr ⟨r, rfl⟩))
  | stale h =>
    refine ⟨Or.inr rfl, ?_⟩
    -- the check has compared the document with the one that is stored
    have hany := Except.ok.inj (hstale.symm.trans h)
    cases hcur : srv.dltState pid with
    | none => rw [hcur] at hany; cases hany
    | some cur =>
      rw [hcur] at hany
      exact ⟨cur, hcur, by simpa using hany⟩
  | newer h =>
    intro cur hcur
    have hany := Except.ok.inj (hstale.symm.trans h)
    rw [hcur] at hany
    simpa using hany
  | raised h => cases hstale.symm.trans h
  | written =>
    refine ⟨Or.inl rfl, doc, ?_, le_rfl⟩
    rw [dltState_setDltState, if_pos rfl]
  | @released v out =>
    have hdone : (PutPc.done out).Fits pid doc srv := Or.inl hI
    exact hdone.congr (dltState_release _ _ _)
  | ended => exact hI

/-- A step that keeps the state, or replaces it by a newer document. -/
theorem Thread.Fits.frame {th th' : Thread} {inp : Inputs} (hth : th.Fits srv) (hap : th.Apart th')
    (h : th'.Fits srv) : th'.Fits (th.step P inp srv).1 := by
  cases th' with
  | put pid doc pc =>
    refine ⟨h.1, ?_⟩
    have hstep := Thread.step_dltState P inp srv th pid
    cases hw : th.writes pid with
    | none =>
      rw [hw, Option.none_or] at hstep
      exact h.2.congr hstep
    | some doc₀ =>
      rw [hw, Option.some_or] at hstep
      obtain ⟨v, rfl⟩ := Thread.writes_eq_some.1 hw
      -- the thread replaces the document by a newer one
      have hnew : ∀ cur, srv.dltState pid = some cur → ∃ cur',
          (Thread.step P inp srv (.put pid doc₀ (.write v))).1.dltState pid = some cur' ∧
            docVersion cur ≤ docVersion cur' := fun cur hcur => ⟨doc₀, hstep, (hth.2 cur hcur).le⟩
      cases pc with
      | write v' => exact absurd rfl (hap pid v v' rfl)
      | release v' out => exact ⟨h.2.1, h.2.2.mono hnew⟩
      | done out => exact h.2.imp (fun h => ⟨h.1, h.2.mono hnew⟩) id
      | _ => trivial
  | _ => trivial

/-- **Documents fit the state**, in every state of every run. -/
theorem state_inv (hes : Versioned es) (n : ℕ) :
    (∀ pid cur, (sAt P es n).srv.dltState pid = some cur → HasVersion cur) ∧
    ∀ {t : ℕ} {th : Thread}, (sAt P es n).threads[t]? = some th → th.Fits (sAt P es n).srv := by
  refine thread_rule (G := fun srv => ∀ pid cur, srv.dltState pid = some cur → HasVersion cur)
    (I := fun srv th => th.Fits srv) (fun pid cur h => by cases h) ?_ ?_ ?_ n
  · intro srv pid hG
    refine ⟨fun p cur hcur => hG p cur (by rwa [dltState_pause] at hcur), fun th hI => ?_⟩
    cases th with
    | put p doc pc => exact ⟨hI.1, hI.2.congr (dltState_pause _ _)⟩
    | _ => trivial
  · intro srv rq crash hmem hG
    cases rq with
    | putState pid doc => exact ⟨hes pid doc ⟨crash, hmem⟩, trivial⟩
    | _ => trivial
  · intro srv th inp _ hG hI
    refine ⟨fun p cur hcur => ?_, ?_, fun th' hap _ hI' => hI.frame hap hI'⟩
    · rw [Thread.step_dltState] at hcur
      cases hw : th.writes p with
      | none => exact hG p cur (by rwa [hw, Option.none_or] at hcur)
      | some doc =>
        rw [hw, Option.some_or] at hcur
        cases hcur
        obtain ⟨v, rfl⟩ := Thread.writes_eq_some.1 hw
        exact hI.1
    · cases th with
      | put pid doc pc =>
        exact ⟨hI.1, (PutPc.step_spec pid doc srv pc).fits (hG pid) hI.1 hI.2⟩
      | ingest rq crash pc => trivial
      | once rq answer => cases answer <;> trivial

variable {pid : String}

/-- **The versions of the accepted documents increase.** -/
theorem accepted_sorted (hes : Versioned es) (n : ℕ) :
    (accepted P es pid n).Pairwise fun w w' => docVersion w.2 < docVersion w'.2 := by
  induction n with
  | zero => exact .nil
  | succ n ih =>
    unfold accepted
    cases hw : writtenAt P es pid n with
    | none => simpa using ih
    | some w =>
      obtain ⟨t, doc⟩ := w
      obtain ⟨v, hth⟩ := writtenAt_eq_some hw
      have hfits := ((state_inv hes n).2 hth).2
      refine List.pairwise_append.2 ⟨ih, List.pairwise_singleton _ _, fun w hm w' hm' => ?_⟩
      rw [Option.mem_toList.1 hm' |> Option.some.inj |> Eq.symm]
      -- the new document is above the last one, and that is above all the others
      obtain ⟨l, last, hl⟩ := List.eq_nil_or_concat' (accepted P es pid n) |>.resolve_left (List.ne_nil_of_mem hm)
      have hlast : docVersion last.2 < docVersion doc := hfits last.2 (by rw [dltState_eq, hl]; simp)
      rw [hl] at hm ih
      rcases List.mem_append.1 hm with hm | hm
      · exact ((List.pairwise_append.1 ih).2.2 w hm last (by simp)).trans hlast
      · rwa [List.mem_singleton.1 hm]

/-- **The stored version never goes down.** -/
theorem atLeast_mono (hes : Versioned es) {n m : ℕ} (hnm : n ≤ m) {doc : Row}
    (h : AtLeast (sAt P es n).srv pid doc) : AtLeast (sAt P es m).srv pid doc := by
  refine h.mono fun cur hcur => ?_
  have hsorted : (accepted P es pid m).Pairwise fun w w' => docVersion w.2 < docVersion w'.2 := accepted_sorted hes m
  obtain ⟨l, hl⟩ : accepted P es pid n <+: accepted P es pid m := accepted_mono hnm
  rw [dltState_eq] at hcur
  rw [dltState_eq, ← hl]
  rw [← hl] at hsorted
  rcases List.eq_nil_or_concat' l with rfl | ⟨l', last, rfl⟩
  · exact ⟨cur, by simpa using hcur, le_rfl⟩
  · obtain ⟨w, hw, rfl⟩ := Option.map_eq_some_iff.1 hcur
    refine ⟨last.2, by simp, ((List.pairwise_append.1 hsorted).2.2 w (List.mem_of_getLast? hw) last (by simp)).le⟩

/-- **How a state write ends**: compared, it leaves the stored version at its own or above from
then on; or it was turned away at its claim. -/
theorem write_ends (hes : Versioned es) {n t : ℕ} {doc : Row} {out : Outcome}
    (h : (sAt P es n).threads[t]? = some (.put pid doc (.done out))) :
    (out.Compared ∧ ∀ m, n ≤ m → AtLeast (sAt P es m).srv pid doc) ∨ out.Unclaimed :=
  ((state_inv hes n).2 h).2.imp (fun h => ⟨h.1, fun _ hnm => atLeast_mono hes hnm h.2⟩) id

/-- **A state write that crashed** found its pid unregistered. -/
theorem write_crashed (hes : Versioned es) {n t : ℕ} {doc : Row} {repr : String}
    (h : (sAt P es n).threads[t]? = some (.put pid doc (.done (.crashed repr)))) :
    ∃ m, m < n ∧ (sAt P es m).threads[t]? = some (.put pid doc .claim) ∧ (sAt P es m).srv.pids pid = none := by
  obtain ⟨m, inp, th₀, hm, -, hth, hne, he⟩ := exists_tick (C := (· = .put pid doc (.done (.crashed repr))))
    (fun crash rq => by cases rq <;> simp [Thread.start]) h rfl
  refine ⟨m, hm, ?_⟩
  cases th₀ with
  | put pid₀ doc₀ pc =>
    have hfits := ((state_inv hes m).2 hth).2
    have hstep := PutPc.step_spec pid₀ doc₀ (sAt P es m).srv pc
    simp only [Thread.step, Thread.put.injEq] at he
    obtain ⟨rfl, rfl, he⟩ := he
    rw [he] at hstep
    generalize (pc.step pid₀ doc₀ (sAt P es m).srv).1 = srv' at hstep
    cases hstep with
    | refused c h =>
      rcases h with h | ⟨h, -⟩ | ⟨hnone, -⟩
      · cases h
      · cases h
      · exact ⟨hth, hnone⟩
    | released => rcases hfits.1 with h | h <;> cases h
    | ended => exact absurd rfl hne
  | ingest rq crash pc => cases he
  | once rq answer => cases answer <;> cases he

end

end Matterbeam
