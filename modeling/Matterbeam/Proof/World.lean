import Matterbeam.Model.World
import Matterbeam.Proof.Calls
import Matterbeam.Proof.Trace

/-!
# Executions of clients and server

A world's run makes the server's system run: `World.trace` lists the server's events.
What the calls have been answered is what the server's threads answered.

* `World.step_spec`: the ways an event can go.
* `wAt_sys`: **the system of a world is a system of its own run**, so what holds of every
  run of the system holds here.
* `world_inv`: every call has talked to the server and is where its program says, and
  every thread was sent by a call.
-/

namespace Matterbeam

open Prog

/-- What the call has asked and been answered. -/
def CallRun.talk (r : CallRun) : List (Request × Answer) := r.log.map fun x => (x.request, x.answer)

/-- The call's program, from its start. -/
def CallRun.program (P : Runtime) (r : CallRun) :
    Prog Request Answer (Except PyError Val × JobClient Request Answer) :=
  r.call.prog P r.active r.start

/-! ## Steps -/

/-- The client of a program that has returned is as the program left it. -/
def settleClient (clients : List (JobClient Request Answer)) (c : ℕ) :
    Prog Request Answer (Except PyError Val × JobClient Request Answer) → List (JobClient Request Answer)
  | .ret (_, cl) => clients.set c cl
  | .call _ _ => clients

/-- The ways an event can go. -/
inductive WorldStep (P : Runtime) (w : World) : Event → List SysEvent → World → Prop
  | opened (config : Config) (schemaName : String) (n : ℕ) :
      WorldStep P w (.newClient config schemaName n) []
        { w with clients := w.clients ++
          [{ transport := HttpTransport.transport P ⟨n⟩, config := config, schemaName := schemaName }] }
  | called {c : ℕ} {active : Option String} {op : Call} {cl : JobClient Request Answer}
      (hc : w.clients[c]? = some cl) (hidle : ∀ r ∈ w.calls, r.client = c → r.result.isNone = false) :
      WorldStep P w (.call c active op) []
        { w with
          clients := settleClient w.clients c (op.prog P active cl)
          calls := w.calls ++
            [{ client := c, call := op, active := active, start := cl, prog := op.prog P active cl }] }
  | sent {j : ℕ} {crash : Option CrashPoint} {r : CallRun} {q : Request}
      {k : Answer → Prog Request Answer (Except PyError Val × JobClient Request Answer)}
      (hj : w.calls[j]? = some r) (hp : r.prog = .call q k) (hl : r.live = true) (hw : r.wait = none) :
      WorldStep P w (.send j crash) [.spawn q crash]
        { w with
          sys := Sys.step P w.sys (.spawn q crash)
          calls := w.calls.set j { r with wait := some w.sys.threads.length } }
  | received {j t : ℕ} {r : CallRun} {q : Request} {th : Thread} {a : Answer}
      {k : Answer → Prog Request Answer (Except PyError Val × JobClient Request Answer)}
      (hj : w.calls[j]? = some r) (hp : r.prog = .call q k) (hl : r.live = true) (hw : r.wait = some t)
      (ht : w.sys.threads[t]? = some th) (ha : th.answer P = some a) :
      WorldStep P w (.recv j) [] (w.proceed j r ⟨q, a, some t⟩ (k a))
  | lost {j : ℕ} {r : CallRun} {q : Request}
      {k : Answer → Prog Request Answer (Except PyError Val × JobClient Request Answer)}
      (hj : w.calls[j]? = some r) (hp : r.prog = .call q k) (hl : r.live = true) :
      WorldStep P w (.lose j) [] (w.proceed j r ⟨q, .broken, r.wait⟩ (k .broken))
  | abandoned {j : ℕ} {r : CallRun} (hj : w.calls[j]? = some r) :
      WorldStep P w (.abandon j) [] { w with calls := w.calls.set j { r with abandoned := true } }
  | ticked (t : ℕ) (inp : Inputs) :
      WorldStep P w (.tick t inp) [.tick t inp] { w with sys := Sys.step P w.sys (.tick t inp) }
  | paused (pid : String) :
      WorldStep P w (.pause pid) [.pause pid] { w with sys := Sys.step P w.sys (.pause pid) }
  | idle (e : Event) : WorldStep P w e [] w

/-- The server's part in an event. -/
def World.sysEvents (w : World) : Event → List SysEvent
  | .send j crash =>
    match w.calls[j]? with
    | some r =>
      match r.prog, r.live, r.wait with
      | .call q _, true, none => [.spawn q crash]
      | _, _, _ => []
    | none => []
  | .tick t inp => [.tick t inp]
  | .pause pid => [.pause pid]
  | _ => []

/-- **Every event goes one of these ways.** -/
theorem World.step_spec (P : Runtime) (w : World) (e : Event) :
    WorldStep P w e (w.sysEvents e) (World.step P w e) := by
  cases e with
  | newClient config schemaName n => exact .opened config schemaName n
  | call c active op =>
    dsimp only [World.step, World.sysEvents]
    cases hc : w.clients[c]? with
    | none => exact .idle _
    | some cl =>
      dsimp only
      split
      · exact .idle _
      · rename_i hidle
        -- the client has no call under way
        refine .called hc fun r hr hrc => ?_
        by_contra hn
        refine hidle (List.any_eq_true.2 ⟨r, hr, ?_⟩)
        simpa [hrc] using hn
  | send j crash =>
    dsimp only [World.step, World.sysEvents]
    cases hj : w.calls[j]? with
    | none => exact .idle _
    | some r =>
      dsimp only
      cases hp : r.prog with
      | ret a => exact .idle _
      | call q k =>
        cases hl : r.live with
        | false => exact .idle _
        | true =>
          cases hw : r.wait with
          | none =>
            have h := @WorldStep.sent P w j crash _ _ _ hj hp hl hw
            rw [hp] at h
            exact h
          | some t => exact .idle _
  | recv j =>
    dsimp only [World.step, World.sysEvents]
    cases hj : w.calls[j]? with
    | none => exact .idle _
    | some r =>
      dsimp only
      cases hp : r.prog with
      | ret a => exact .idle _
      | call q k =>
        cases hl : r.live with
        | false => exact .idle _
        | true =>
          cases hw : r.wait with
          | none => exact .idle _
          | some t =>
            dsimp only
            cases ha : (w.sys.threads[t]?).bind (Thread.answer P) with
            | none => exact .idle _
            | some a =>
              obtain ⟨th, ht, ha⟩ := Option.bind_eq_some_iff.1 ha
              exact .received hj hp hl hw ht ha
  | lose j =>
    dsimp only [World.step, World.sysEvents]
    cases hj : w.calls[j]? with
    | none => exact .idle _
    | some r =>
      dsimp only
      cases hp : r.prog with
      | ret a => exact .idle _
      | call q k =>
        cases hl : r.live with
        | false => exact .idle _
        | true => exact .lost hj hp hl
  | abandon j =>
    dsimp only [World.step, World.sysEvents]
    cases hj : w.calls[j]? with
    | none => exact .idle _
    | some r => exact .abandoned hj
  | tick t inp => exact .ticked t inp
  | pause pid => exact .paused pid

/-! ## The system's run -/

variable {P : Runtime} {es : List Event}

/-- The system after an event. -/
theorem WorldStep.sys {w w' : World} {e : Event} {ses : List SysEvent} (h : WorldStep P w e ses w') :
    w'.sys = Sys.run P ses w.sys := by
  cases h <;> rfl

/-- The server's events in a run. -/
def World.trace (P : Runtime) : List Event → World → List SysEvent
  | [], _ => []
  | e :: es, w => w.sysEvents e ++ World.trace P es (World.step P w e)

theorem World.trace_append (es es' : List Event) (w : World) :
    World.trace P (es ++ es') w = World.trace P es w ++ World.trace P es' (World.run P es w) := by
  induction es generalizing w with
  | nil => rfl
  | cons e es ih => simp only [List.cons_append, World.trace, ih, List.append_assoc, World.run, List.foldl_cons]

theorem World.run_sys (es : List Event) (w : World) :
    (World.run P es w).sys = Sys.run P (World.trace P es w) w.sys := by
  induction es generalizing w with
  | nil => rfl
  | cons e es ih =>
    change (World.run P es (World.step P w e)).sys = Sys.run P (w.sysEvents e ++ _) w.sys
    rw [ih, (World.step_spec P w e).sys]
    unfold Sys.run
    rw [List.foldl_append]

/-- The server's events in a run from the empty world. -/
def sysTrace (P : Runtime) (es : List Event) : List SysEvent := World.trace P es {}

/-- How many of them there are in the first `n` events. -/
def sysTime (P : Runtime) (es : List Event) (n : ℕ) : ℕ := (sysTrace P (es.take n)).length

theorem sysTrace_take (es : List Event) (n : ℕ) :
    sysTrace P (es.take n) = (sysTrace P es).take (sysTime P es n) := by
  have h : sysTrace P es = sysTrace P (es.take n) ++ World.trace P (es.drop n) (wAt P es n) := by
    conv_lhs => rw [← List.take_append_drop n es]
    exact World.trace_append _ _ _
  rw [h, sysTime, List.take_left]

/-- **The system of a world is a system of its own run.** -/
theorem wAt_sys (es : List Event) (n : ℕ) : (wAt P es n).sys = sAt P (sysTrace P es) (sysTime P es n) := by
  unfold wAt sAt
  rw [World.run_sys, ← sysTrace_take]
  rfl

theorem sysTime_le {n m : ℕ} (h : n ≤ m) : sysTime P es n ≤ sysTime P es m := by
  have ht : (es.take m).take n = es.take n := by rw [List.take_take, min_eq_left h]
  have := sysTrace_take (P := P) (es.take m) n
  rw [ht] at this
  unfold sysTime
  rw [this, List.length_take]
  exact min_le_right _ _

/-! ## Traces -/

theorem wAt_succ {n : ℕ} (hn : n < es.length) : wAt P es (n + 1) = World.step P (wAt P es n) es[n] := by
  simp only [wAt, World.run]
  rw [List.take_add_one, List.getElem?_eq_getElem hn, Option.toList_some, List.foldl_append]
  rfl

theorem wAt_of_length_le {n : ℕ} (hn : es.length ≤ n) : wAt P es n = wAt P es es.length := by
  simp [wAt, List.take_of_length_le hn]

/-- **An invariant of the world**, carried along a run. -/
theorem World.invariant {I : World → Prop} (h0 : I {})
    (hstep : ∀ n (hn : n < es.length), I (wAt P es n) → I (World.step P (wAt P es n) es[n])) :
    ∀ n, I (wAt P es n) := by
  have hle : ∀ n, n ≤ es.length → I (wAt P es n) := by
    intro n
    induction n with
    | zero => intro _; exact h0
    | succ n ih =>
      intro hn
      rw [wAt_succ (by omega)]
      exact hstep n (by omega) (ih (by omega))
  intro n
  rcases Nat.le_total n es.length with h | h
  · exact hle n h
  · rw [wAt_of_length_le h]; exact hle _ le_rfl

/-! ## Calls and threads -/

/-- The call has sent the request that became thread `t`. -/
def CallRun.Sent (r : CallRun) (t : ℕ) (q : Request) : Prop :=
  (∃ x ∈ r.log, x.thread = some t ∧ x.request = q) ∨ (r.wait = some t ∧ ∃ k, r.prog = .call q k)

/-- The call is where its program says, and its replies are those of the server's threads. -/
structure CallRun.Sound (P : Runtime) (sys : Sys) (r : CallRun) : Prop where
  http : IsHttp P r.start
  conv : Conv (r.program P) r.talk r.prog
  exchange : ∀ x ∈ r.log, ∀ t, x.thread = some t → ∃ th, sys.threads[t]? = some th ∧ th.request = x.request
  answered : ∀ x ∈ r.log, ∀ rsp, x.answer = .reply rsp → ∃ t th, x.thread = some t ∧
    sys.threads[t]? = some th ∧ th.answer P = some x.answer
  waiting : ∀ t, r.wait = some t → ∃ th k, sys.threads[t]? = some th ∧ r.prog = .call th.request k

/-- The calls are sound, and every thread was sent by just one of them. -/
structure WorldInv (P : Runtime) (w : World) : Prop where
  clients : ∀ cl ∈ w.clients, IsHttp P cl
  sound : ∀ r ∈ w.calls, r.Sound P w.sys
  sent : ∀ {t : ℕ} {th : Thread}, w.sys.threads[t]? = some th → ∃ r ∈ w.calls, r.Sent t th.request
  unique : ∀ {j j' t : ℕ} {r r' : CallRun} {q q' : Request}, w.calls[j]? = some r → w.calls[j']? = some r' →
    r.Sent t q → r'.Sent t q' → j = j'

/-- The threads of `s` are in `s'`, with their requests and answers. -/
def SysLe (P : Runtime) (s s' : Sys) : Prop := ∀ {t : ℕ} {th : Thread}, s.threads[t]? = some th →
  ∃ th', s'.threads[t]? = some th' ∧ th'.request = th.request ∧ ∀ a, th.answer P = some a → th' = th

theorem CallRun.Sound.mono {sys sys' : Sys} {r : CallRun} (h : r.Sound P sys) (hle : SysLe P sys sys') :
    r.Sound P sys' := by
  refine ⟨h.http, h.conv, fun x hx t ht => ?_, fun x hx rsp hr => ?_, fun t ht => ?_⟩
  · obtain ⟨th, hth, hq⟩ := h.exchange x hx t ht
    obtain ⟨th', hth', hq', -⟩ := hle hth
    exact ⟨th', hth', hq'.trans hq⟩
  · obtain ⟨t, th, ht, hth, ha⟩ := h.answered x hx rsp hr
    obtain ⟨th', hth', -, hans⟩ := hle hth
    obtain rfl := hans _ ha
    exact ⟨t, th', ht, hth', ha⟩
  · obtain ⟨th, k, hth, hp⟩ := h.waiting t ht
    obtain ⟨th', hth', hq, -⟩ := hle hth
    exact ⟨th', k, hth', hq ▸ hp⟩

/-- A call that has just begun. -/
theorem CallRun.Sound.begun {sys : Sys} {cl : JobClient Request Answer} (hcl : IsHttp P cl) (c : ℕ) (op : Call)
    (active : Option String) :
    CallRun.Sound P sys
      { client := c, call := op, active := active, start := cl, prog := op.prog P active cl } :=
  ⟨hcl, .nil _, by simp, by simp, by simp⟩

/-- A call goes on with an answer. -/
theorem CallRun.Sound.proceed {sys : Sys} {r : CallRun} (h : r.Sound P sys) {q : Request} {a : Answer}
    {k : Answer → Prog Request Answer (Except PyError Val × JobClient Request Answer)} (hp : r.prog = .call q k)
    (ha : ∀ rsp, a = .reply rsp → ∃ t th, r.wait = some t ∧ sys.threads[t]? = some th ∧ th.answer P = some a) :
    CallRun.Sound P sys { r with log := r.log ++ [⟨q, a, r.wait⟩], prog := k a, wait := none } := by
  refine ⟨h.http, ?_, ?_, ?_, by simp⟩
  · have hc := h.conv
    rw [hp] at hc
    have hl : CallRun.talk { r with log := r.log ++ [⟨q, a, r.wait⟩], prog := k a, wait := none } =
        r.talk ++ [(q, a)] := by simp [CallRun.talk]
    rw [hl]
    exact hc.snoc a
  · intro x hx t ht
    rcases List.mem_append.1 hx with hx | hx
    · exact h.exchange x hx t ht
    · rw [List.mem_singleton.1 hx] at ht ⊢
      obtain ⟨th, k', hth, hp'⟩ := h.waiting t ht
      rw [hp] at hp'
      cases hp'
      exact ⟨th, hth, rfl⟩
  · intro x hx rsp hr
    rcases List.mem_append.1 hx with hx | hx
    · exact h.answered x hx rsp hr
    · rw [List.mem_singleton.1 hx] at hr ⊢
      exact ha rsp hr

/-- A call stays with what it has sent. -/
theorem CallRun.sent_proceed {r : CallRun} {t : ℕ} {q₀ q : Request} (a : Answer)
    {k : Answer → Prog Request Answer (Except PyError Val × JobClient Request Answer)} (hp : r.prog = .call q k) :
    CallRun.Sent { r with log := r.log ++ [⟨q, a, r.wait⟩], prog := k a, wait := none } t q₀ ↔ r.Sent t q₀ := by
  constructor
  · rintro (⟨x, hx, ht, hq⟩ | ⟨hw, -⟩)
    · rcases List.mem_append.1 hx with hx | hx
      · exact Or.inl ⟨x, hx, ht, hq⟩
      · rw [List.mem_singleton.1 hx] at ht hq
        exact Or.inr ⟨ht, k, hq ▸ hp⟩
    · cases hw
  · rintro (⟨x, hx, ht, hq⟩ | ⟨hw, k', hp'⟩)
    · exact Or.inl ⟨x, List.mem_append_left _ hx, ht, hq⟩
    · rw [hp] at hp'
      cases hp'
      exact Or.inl ⟨_, List.mem_append_right _ (List.mem_singleton.2 rfl), hw, rfl⟩

/-- What a call has sent is there. -/
theorem CallRun.Sound.thread {sys : Sys} {r : CallRun} (h : r.Sound P sys) {t : ℕ} {q : Request} (hs : r.Sent t q) :
    ∃ th, sys.threads[t]? = some th ∧ th.request = q := by
  rcases hs with ⟨x, hx, ht, rfl⟩ | ⟨hw, k, hp⟩
  · exact h.exchange x hx t ht
  · obtain ⟨th, k', hth, hp'⟩ := h.waiting t hw
    rw [hp] at hp'
    cases hp'
    exact ⟨th, hth, rfl⟩

/-- A call is replaced by what it has become. -/
theorem WorldInv.set {w : World} (h : WorldInv P w) {j : ℕ} {r r' : CallRun} (hj : w.calls[j]? = some r)
    {clients : List (JobClient Request Answer)} (hcl : ∀ cl ∈ clients, IsHttp P cl) (hr : r'.Sound P w.sys)
    (hsent : ∀ t q, r'.Sent t q ↔ r.Sent t q) : WorldInv P ⟨w.sys, clients, w.calls.set j r'⟩ := by
  obtain ⟨hlt, -⟩ := List.getElem?_eq_some_iff.1 hj
  have hold : ∀ {i t : ℕ} {r₁ : CallRun} {q : Request}, (w.calls.set j r')[i]? = some r₁ → r₁.Sent t q →
      ∃ r₀, w.calls[i]? = some r₀ ∧ r₀.Sent t q := by
    intro i t r₁ q hi hs
    rcases set_cases hlt hi with ⟨rfl, rfl⟩ | ⟨-, hi⟩
    · exact ⟨r, hj, (hsent t q).1 hs⟩
    · exact ⟨r₁, hi, hs⟩
  refine ⟨hcl, fun r₀ hr₀ => ?_, fun {t th} ht => ?_, fun h₁ h₂ hs₁ hs₂ => ?_⟩
  · rcases List.mem_or_eq_of_mem_set hr₀ with hm | rfl
    · exact h.sound r₀ hm
    · exact hr
  · obtain ⟨r₀, hr₀, hs⟩ := h.sent ht
    obtain ⟨i, hi⟩ := List.mem_iff_getElem?.1 hr₀
    by_cases hij : i = j
    · subst hij
      rw [hj] at hi
      cases hi
      exact ⟨r', List.mem_set hlt r', (hsent t _).2 hs⟩
    · refine ⟨r₀, List.mem_iff_getElem?.2 ⟨i, ?_⟩, hs⟩
      rw [List.getElem?_set_ne (Ne.symm hij)]
      exact hi
  · obtain ⟨r₁, hr₁, hs₁⟩ := hold h₁ hs₁
    obtain ⟨r₂, hr₂, hs₂⟩ := hold h₂ hs₂
    exact h.unique hr₁ hr₂ hs₁ hs₂

/-- The client that a program leaves is one over the HTTP transport. -/
theorem isHttp_settle {clients : List (JobClient Request Answer)} (h : ∀ cl ∈ clients, IsHttp P cl) {c : ℕ}
    {prog : Prog Request Answer (Except PyError Val × JobClient Request Answer)} {cl₀ : JobClient Request Answer}
    (hcl : IsHttp P cl₀) {φ : Request → Prop} (hspec : prog.Spec φ fun x => SameClient cl₀ x.2) :
    ∀ cl ∈ settleClient clients c prog, IsHttp P cl := by
  intro cl hm
  cases prog with
  | ret x =>
    rcases List.mem_or_eq_of_mem_set hm with hm | rfl
    · exact h cl hm
    · exact SameClient.isHttp hspec hcl
  | call q k => exact h cl hm

theorem World.proceed_eq (w : World) (j : ℕ) (r : CallRun) (x : Exchange)
    (prog : Prog Request Answer (Except PyError Val × JobClient Request Answer)) :
    w.proceed j r x prog = ⟨w.sys, settleClient w.clients r.client prog,
      w.calls.set j { r with log := r.log ++ [x], prog := prog, wait := none }⟩ := by
  cases prog <;> rfl

/-- What a call's program goes on to ask, and what it leaves of its client. -/
theorem CallRun.Sound.spec {sys : Sys} {r : CallRun} (h : r.Sound P sys) :
    (∀ x ∈ r.log, Asks P r.start.config r.call x.request) ∧
      r.prog.Spec (Asks P r.start.config r.call) fun x => SameClient r.start x.2 := by
  have hspec : (r.call.prog P r.active r.start).Spec (Asks P r.start.config r.call) fun x => SameClient r.start x.2 :=
    spec_prog h.http r.call
  obtain ⟨h₁, h₂⟩ := hspec.conv h.conv
  exact ⟨fun x hx => h₁ (x.request, x.answer) (List.mem_map_of_mem hx), h₂⟩

theorem WorldInv.proceed {w : World} (h : WorldInv P w) {j : ℕ} {r : CallRun} {q : Request} {a : Answer}
    {k : Answer → Prog Request Answer (Except PyError Val × JobClient Request Answer)}
    (hj : w.calls[j]? = some r) (hp : r.prog = .call q k)
    (ha : ∀ rsp, a = .reply rsp → ∃ t th, r.wait = some t ∧ w.sys.threads[t]? = some th ∧ th.answer P = some a) :
    WorldInv P (w.proceed j r ⟨q, a, r.wait⟩ (k a)) := by
  have hr := h.sound r (List.mem_of_getElem? hj)
  have hspec := hr.spec.2
  rw [hp] at hspec
  rw [World.proceed_eq]
  exact h.set hj (isHttp_settle h.clients hr.http (hspec.2 a)) (hr.proceed hp ha) fun t q₀ => CallRun.sent_proceed a hp

/-- The server does something on its own. -/
theorem WorldInv.sys {w : World} (h : WorldInv P w) {e : SysEvent} (hle : SysLe P w.sys (Sys.step P w.sys e))
    (he : ∀ rq crash, e ≠ .spawn rq crash) : WorldInv P { w with sys := Sys.step P w.sys e } := by
  refine ⟨h.clients, fun r hr => (h.sound r hr).mono hle, fun {t th} ht => ?_, h.unique⟩
  rcases Sys.thread_cases ht with ⟨rq, crash, hs, -⟩ | ⟨inp, th₀, -, ht₀, rfl, -⟩ | ⟨-, ht₀⟩
  · exact absurd hs (he rq crash)
  · rw [Thread.step_request]
    exact h.sent ht₀
  · exact h.sent ht₀

/-- A call is added. It has sent nothing. -/
theorem WorldInv.called {w : World} (h : WorldInv P w) {c : ℕ} {active : Option String} {op : Call}
    {cl : JobClient Request Answer} (hc : w.clients[c]? = some cl) :
    WorldInv P { w with
      clients := settleClient w.clients c (op.prog P active cl)
      calls := w.calls ++
        [{ client := c, call := op, active := active, start := cl, prog := op.prog P active cl }] } := by
  have hcl := h.clients cl (List.mem_of_getElem? hc)
  have hold : ∀ {i t : ℕ} {r : CallRun} {q : Request},
      (w.calls ++ [{ client := c, call := op, active := active, start := cl, prog := op.prog P active cl }])[i]? =
        some r → r.Sent t q → w.calls[i]? = some r := by
    intro i t r q hi hs
    rcases concat_cases hi with hi | ⟨-, rfl⟩
    · exact hi
    · rcases hs with ⟨x, hx, -⟩ | ⟨hw, -⟩
      · cases hx
      · cases hw
  refine ⟨isHttp_settle h.clients hcl (spec_prog hcl op), fun r hr => ?_, fun ht => ?_,
    fun h₁ h₂ hs₁ hs₂ => h.unique (hold h₁ hs₁) (hold h₂ hs₂) hs₁ hs₂⟩
  · rcases List.mem_append.1 hr with hr | hr
    · exact h.sound r hr
    · rw [List.mem_singleton.1 hr]
      exact .begun hcl c op active
  · obtain ⟨r, hr, hs⟩ := h.sent ht
    exact ⟨r, List.mem_append_left _ hr, hs⟩

/-- A call sends what it asks, as a new thread. -/
theorem WorldInv.sends {w : World} (h : WorldInv P w) (hle : ∀ e, SysLe P w.sys (Sys.step P w.sys e)) {j : ℕ}
    {crash : Option CrashPoint} {r : CallRun} {q : Request}
    {k : Answer → Prog Request Answer (Except PyError Val × JobClient Request Answer)} (hj : w.calls[j]? = some r)
    (hp : r.prog = .call q k) (hw : r.wait = none) :
    WorldInv P { w with
      sys := Sys.step P w.sys (.spawn q crash)
      calls := w.calls.set j { r with wait := some w.sys.threads.length } } := by
  have hth : (Sys.step P w.sys (.spawn q crash)).threads[w.sys.threads.length]? = some (Thread.start crash q) := by
    change (w.sys.threads ++ [Thread.start crash q])[w.sys.threads.length]? = _
    rw [List.getElem?_append_right le_rfl, Nat.sub_self]
    rfl
  have hr := (h.sound r (List.mem_of_getElem? hj)).mono (hle (.spawn q crash))
  have hr' : CallRun.Sound P (Sys.step P w.sys (.spawn q crash)) { r with wait := some w.sys.threads.length } := by
    -- the thread it waits for is the new one
    refine ⟨hr.http, hr.conv, hr.exchange, hr.answered, fun t ht => ?_⟩
    cases ht
    exact ⟨_, k, hth, by rw [Thread.start_request]; exact hp⟩
  obtain ⟨hlt, -⟩ := List.getElem?_eq_some_iff.1 hj
  -- only this call has sent the new thread, and it has sent no other besides
  have hold : ∀ {i t : ℕ} {r₁ : CallRun} {q₁ : Request},
      (w.calls.set j { r with wait := some w.sys.threads.length })[i]? = some r₁ → r₁.Sent t q₁ →
        (t = w.sys.threads.length ∧ i = j) ∨
          (t < w.sys.threads.length ∧ ∃ r₀, w.calls[i]? = some r₀ ∧ r₀.Sent t q₁) := by
    intro i t r₁ q₁ hi hs
    have hlt' : ∀ {r₀ : CallRun}, w.calls[i]? = some r₀ → r₀.Sent t q₁ → t < w.sys.threads.length := by
      intro r₀ h₀ hs₀
      obtain ⟨th, hth, -⟩ := (h.sound r₀ (List.mem_of_getElem? h₀)).thread hs₀
      exact (List.getElem?_eq_some_iff.1 hth).1
    rcases set_cases hlt hi with ⟨rfl, rfl⟩ | ⟨-, hi⟩
    · rcases hs with hs | ⟨hw', -⟩
      · have hs' : r.Sent t q₁ := Or.inl hs
        exact Or.inr ⟨hlt' hj hs', r, hj, hs'⟩
      · exact Or.inl ⟨(Option.some.inj hw').symm, rfl⟩
    · exact Or.inr ⟨hlt' hi hs, r₁, hi, hs⟩
  refine ⟨h.clients, fun r₀ hr₀ => ?sound, fun {t th} ht => ?sent, fun h₁ h₂ hs₁ hs₂ => ?unique⟩
  case sound =>
    rcases List.mem_or_eq_of_mem_set hr₀ with hm | rfl
    · exact (h.sound r₀ hm).mono (hle _)
    · exact hr'
  case sent =>
    rcases Sys.thread_cases ht with ⟨rq, crash', he, rfl, rfl⟩ | ⟨inp, th₀, he, -⟩ | ⟨-, ht⟩
    · cases he
      exact ⟨_, List.mem_set hlt _, Or.inr ⟨rfl, k, by rw [Thread.start_request]; exact hp⟩⟩
    · cases he
    · obtain ⟨r₀, hr₀, hs⟩ := h.sent ht
      obtain ⟨i, hi⟩ := List.mem_iff_getElem?.1 hr₀
      by_cases hij : i = j
      · -- what the call itself has sent before is in its log
        subst hij
        rw [hj] at hi
        cases hi
        refine ⟨_, List.mem_set hlt _, hs.imp id fun h => ?_⟩
        rw [hw] at h
        cases h.1
      · refine ⟨r₀, List.mem_iff_getElem?.2 ⟨i, ?_⟩, hs⟩
        rw [List.getElem?_set_ne (Ne.symm hij)]
        exact hi
  case unique =>
    rcases hold h₁ hs₁ with ⟨ht₁, rfl⟩ | ⟨ht₁, r₁, hr₁, hs₁⟩
    · rcases hold h₂ hs₂ with ⟨-, rfl⟩ | ⟨ht₂, -⟩
      · rfl
      · omega
    · rcases hold h₂ hs₂ with ⟨ht₂, -⟩ | ⟨-, r₂, hr₂, hs₂⟩
      · omega
      · exact h.unique hr₁ hr₂ hs₁ hs₂

/-- **The world's invariant.** -/
theorem world_inv (P : Runtime) (es : List Event) : ∀ n, WorldInv P (wAt P es n) := by
  refine World.invariant ⟨by simp, by simp, by simp, by simp⟩ fun n hn ih => ?_
  have hstep := World.step_spec P (wAt P es n) es[n]
  generalize wAt P es n = w at *
  generalize World.step P w es[n] = w' at *
  generalize w.sysEvents es[n] = ses at *
  generalize es[n] = e at *
  have hle : ∀ e, SysLe P w.sys (Sys.step P w.sys e) := fun e {t th} ht => Sys.thread_after e ht
  cases hstep with
  | opened config schemaName m =>
    refine ⟨fun cl hcl => ?_, ih.sound, ih.sent, ih.unique⟩
    rcases List.mem_append.1 hcl with hcl | hcl
    · exact ih.clients cl hcl
    · rw [List.mem_singleton.1 hcl]
      exact ⟨⟨m⟩, rfl⟩
  | called hc hidle => exact ih.called hc
  | sent hj hp hl hw => exact ih.sends hle hj hp hw
  | received hj hp hl hw ht ha =>
    have := ih.proceed hj hp fun rsp _ => ⟨_, _, hw, ht, ha⟩
    rwa [hw] at this
  | lost hj hp hl => exact ih.proceed hj hp fun rsp hr => by cases hr
  | @abandoned j r hj =>
    have hr := ih.sound r (List.mem_of_getElem? hj)
    exact ih.set hj ih.clients ⟨hr.http, hr.conv, hr.exchange, hr.answered, hr.waiting⟩ fun t q => Iff.rfl
  | ticked t inp => exact ih.sys (hle _) fun rq crash he => by cases he
  | paused pid => exact ih.sys (hle _) fun rq crash he => by cases he
  | idle => exact ih

/-- A reply in a call's log is the answer of a thread that it has sent. -/
theorem thread_of_reply {n : ℕ} {r : CallRun} (hr : r ∈ (wAt P es n).calls) {q : Request} {rsp : Response}
    (h : (q, Answer.reply rsp) ∈ r.talk) : ∃ (t : ℕ) (th : Thread), r.Sent t q ∧
      (wAt P es n).sys.threads[t]? = some th ∧ th.request = q ∧ th.answer P = some (.reply rsp) := by
  obtain ⟨x, hx, he⟩ := List.mem_map.1 h
  have hs := (world_inv P es n).sound r hr
  obtain ⟨hq, ha⟩ := Prod.mk.inj he
  obtain ⟨t, th, ht, hth, hans⟩ := hs.answered x hx rsp ha
  obtain ⟨th', hth', hreq⟩ := hs.exchange x hx t ht
  rw [hth] at hth'
  cases hth'
  exact ⟨t, th, Or.inl ⟨x, hx, ht, hq⟩, hth, hreq.trans hq, hans.trans (congrArg some ha)⟩

/-! ## Calls over time -/

/-- The `i`th request of the call is `q`, and became thread `t`. -/
def CallRun.SentAt (r : CallRun) (i t : ℕ) (q : Request) : Prop :=
  (∃ x, r.log[i]? = some x ∧ x.thread = some t ∧ x.request = q) ∨
    (i = r.log.length ∧ r.wait = some t ∧ ∃ k, r.prog = .call q k)

theorem CallRun.sent_iff {r : CallRun} {t : ℕ} {q : Request} : r.Sent t q ↔ ∃ i, r.SentAt i t q := by
  constructor
  · rintro (⟨x, hx, h⟩ | h)
    · obtain ⟨i, hi⟩ := List.mem_iff_getElem?.1 hx
      exact ⟨i, Or.inl ⟨x, hi, h⟩⟩
    · exact ⟨_, Or.inr ⟨rfl, h⟩⟩
  · rintro ⟨i, ⟨x, hi, h⟩ | ⟨-, h⟩⟩
    · exact Or.inl ⟨x, List.mem_of_getElem? hi, h⟩
    · exact Or.inr h

/-- Where the call was when it sent a request. -/
theorem CallRun.SentAt.conv {sys : Sys} {r : CallRun} (hr : r.Sound P sys) {i t : ℕ} {q : Request}
    (h : r.SentAt i t q) : i ≤ r.log.length ∧ ∃ k, Conv (r.program P) (r.talk.take i) (.call q k) := by
  rcases h with ⟨x, hi, -, rfl⟩ | ⟨rfl, -, k, hp⟩
  · obtain ⟨hlt, hx⟩ := List.getElem?_eq_some_iff.1 hi
    have hconv := hr.conv
    rw [← List.take_append_drop i r.talk] at hconv
    obtain ⟨p, h₁, h₂⟩ := hconv.split
    have hd : r.talk.drop i = (x.request, x.answer) :: r.talk.drop (i + 1) := by
      rw [List.drop_eq_getElem_cons (by simpa [talk] using hlt)]
      simp [talk, hx]
    rw [hd] at h₂
    cases h₂ with
    | call _ k _ _ => exact ⟨hlt.le, k, h₁⟩
  · refine ⟨le_rfl, k, ?_⟩
    have hconv := hr.conv
    rw [hp] at hconv
    rwa [List.take_of_length_le (by simp [talk])]

/-- The call has gone on to be `r'`. -/
structure CallRun.Le (r r' : CallRun) : Prop where
  call : r'.call = r.call
  active : r'.active = r.active
  start : r'.start = r.start
  log : r.log <+: r'.log
  sent : ∀ i t q, r.SentAt i t q → r'.SentAt i t q

theorem CallRun.Le.refl (r : CallRun) : r.Le r := ⟨rfl, rfl, rfl, List.prefix_rfl, fun _ _ _ h => h⟩

theorem CallRun.Le.trans {r r' r'' : CallRun} (h : r.Le r') (h' : r'.Le r'') : r.Le r'' :=
  ⟨h'.call.trans h.call, h'.active.trans h.active, h'.start.trans h.start, h.log.trans h'.log,
    fun i t q hs => h'.sent i t q (h.sent i t q hs)⟩

/-- A call after an event. -/
theorem WorldStep.calls {w w' : World} {e : Event} {ses : List SysEvent} (h : WorldStep P w e ses w') {j : ℕ}
    {r : CallRun} (hj : w.calls[j]? = some r) : ∃ r', w'.calls[j]? = some r' ∧ r.Le r' := by
  -- a call is kept, or replaced by what it has become
  have hset : ∀ {i : ℕ} {r₀ r₁ : CallRun}, w.calls[i]? = some r₀ → r₀.Le r₁ →
      ∃ r', (w.calls.set i r₁)[j]? = some r' ∧ r.Le r' := by
    intro i r₀ r₁ hi hle
    by_cases hij : j = i
    · subst hij
      rw [hj] at hi
      cases hi
      exact ⟨r₁, List.getElem?_set_self (List.getElem?_eq_some_iff.1 hj).1, hle⟩
    · exact ⟨r, (List.getElem?_set_ne (Ne.symm hij)).trans hj, .refl r⟩
  have hproceed : ∀ {i : ℕ} {r₀ : CallRun} {q : Request} {a : Answer}
      {k : Answer → Prog Request Answer (Except PyError Val × JobClient Request Answer)},
      w.calls[i]? = some r₀ → r₀.prog = .call q k →
        ∃ r', (w.proceed i r₀ ⟨q, a, r₀.wait⟩ (k a)).calls[j]? = some r' ∧ r.Le r' := by
    intro i r₀ q a k hi hp
    rw [World.proceed_eq]
    refine hset hi ⟨rfl, rfl, rfl, List.prefix_append _ _, fun m t q₀ hs => ?_⟩
    rcases hs with ⟨x, hx, h⟩ | ⟨rfl, hw, k', hp'⟩
    · exact Or.inl ⟨x, (List.getElem?_append_left (List.getElem?_eq_some_iff.1 hx).1).trans hx, h⟩
    · rw [hp] at hp'
      cases hp'
      exact Or.inl ⟨_, by rw [List.getElem?_append_right le_rfl, Nat.sub_self]; rfl, hw, rfl⟩
  cases h with
  | called hc hidle =>
    exact ⟨r, (List.getElem?_append_left (List.getElem?_eq_some_iff.1 hj).1).trans hj, .refl r⟩
  | sent hi hp hl hw =>
    refine hset hi ⟨rfl, rfl, rfl, List.prefix_rfl, fun m t q hs => hs.imp id fun h => ?_⟩
    rw [hw] at h
    cases h.2.1
  | received hi hp hl hw ht ha => exact hw ▸ hproceed hi hp
  | lost hi hp hl => exact hproceed hi hp
  | abandoned hi => exact hset hi ⟨rfl, rfl, rfl, List.prefix_rfl, fun _ _ _ hs => hs⟩
  | _ => exact ⟨r, hj, .refl r⟩

/-- **Calls stay**, and go on. -/
theorem calls_mono {n m : ℕ} (hnm : n ≤ m) {j : ℕ} {r : CallRun} (hj : (wAt P es n).calls[j]? = some r) :
    ∃ r', (wAt P es m).calls[j]? = some r' ∧ r.Le r' := by
  induction m with
  | zero =>
    obtain rfl : n = 0 := by omega
    exact ⟨r, hj, .refl r⟩
  | succ m ih =>
    rcases Nat.eq_or_lt_of_le hnm with rfl | hlt
    · exact ⟨r, hj, .refl r⟩
    obtain ⟨r', hr', hle⟩ := ih (by omega)
    by_cases hm : m < es.length
    · rw [wAt_succ hm]
      obtain ⟨r'', hr'', hle'⟩ := (World.step_spec P (wAt P es m) es[m]).calls hr'
      exact ⟨r'', hr'', hle.trans hle'⟩
    · rw [wAt_of_length_le (n := m + 1) (by omega), ← wAt_of_length_le (n := m) (by omega)]
      exact ⟨r', hr', hle⟩

/-! ## The system's time -/

theorem sysTime_succ {n : ℕ} (hn : n < es.length) :
    sysTime P es (n + 1) = sysTime P es n + ((wAt P es n).sysEvents es[n]).length := by
  unfold sysTime sysTrace
  rw [List.take_add_one, List.getElem?_eq_getElem hn, Option.toList_some, World.trace_append, List.length_append]
  simp only [World.trace, List.append_nil]
  rfl

theorem sysEvents_length (w : World) (e : Event) : (w.sysEvents e).length ≤ 1 := by
  have h := World.step_spec .plain w e
  generalize w.sysEvents e = ses at *
  generalize World.step .plain w e = w' at *
  cases h <;> simp

/-- Every moment of the system is a moment of the world. -/
theorem exists_sysTime {n m : ℕ} (hn : n ≤ es.length) (hm : m ≤ sysTime P es n) :
    ∃ k, k ≤ n ∧ sysTime P es k = m := by
  induction n with
  | zero =>
    have h0 : sysTime P es 0 = 0 := rfl
    exact ⟨0, le_rfl, by omega⟩
  | succ n ih =>
    rcases Nat.lt_or_ge (sysTime P es n) m with hlt | hge
    · refine ⟨n + 1, le_rfl, ?_⟩
      have hlt' : n < es.length := by omega
      have h₁ := sysTime_succ (P := P) hlt'
      have h₂ := sysEvents_length (wAt P es n) es[n]
      omega
    · obtain ⟨k, hk, he⟩ := ih (by omega) hge
      exact ⟨k, by omega, he⟩

/-- **What holds of the world holds of its system**, at every moment. -/
theorem exists_wAt (es : List Event) (m : ℕ) : ∃ n, n ≤ es.length ∧ sAt P (sysTrace P es) m = (wAt P es n).sys := by
  have hlen : sysTime P es es.length = (sysTrace P es).length := by unfold sysTime; rw [List.take_length]
  rcases Nat.le_total m (sysTrace P es).length with h | h
  · obtain ⟨n, hn, he⟩ := exists_sysTime (P := P) le_rfl (hlen ▸ h)
    exact ⟨n, hn, by rw [wAt_sys, he]⟩
  · exact ⟨es.length, le_rfl, by rw [wAt_sys, hlen, sAt_of_length_le h]⟩

end Matterbeam
