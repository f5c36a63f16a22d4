import Matterbeam.Proof.World

/-!
# The calls of one client

A client has one call under way at a time. The next one begins with the client as the last
one has left it.

* `ClientInv`: the calls of a client follow one another.
* `client_inv`: **a call begins with what the last call on its client has left.**
-/

namespace Matterbeam

open Prog

/-- The `j'`th call is the next one on the client of the `j`th. -/
structure World.Next (w : World) (j j' : ℕ) (r r' : CallRun) : Prop where
  lt : j < j'
  first : w.calls[j]? = some r
  second : w.calls[j']? = some r'
  client : r'.client = r.client
  between : ∀ i r₁, j < i → i < j' → w.calls[i]? = some r₁ → r₁.client ≠ r.client

/-- The calls of a client follow one another, and each begins with what the last one has left. -/
structure ClientInv (w : World) : Prop where
  bound : ∀ r ∈ w.calls, r.client < w.clients.length
  done : ∀ {j j' : ℕ} {r r' : CallRun}, j < j' → w.calls[j]? = some r → w.calls[j']? = some r' → r'.client = r.client →
    r.result.isNone = false
  left : ∀ {j : ℕ} {r : CallRun}, w.calls[j]? = some r → (∀ i r₁, j < i → w.calls[i]? = some r₁ → r₁.client ≠ r.client) →
    ∀ v cl, r.prog = .ret (v, cl) → w.clients[r.client]? = some cl
  next : ∀ {j j' : ℕ} {r r' : CallRun}, w.Next j j' r r' → ∃ v, r.prog = .ret (v, r'.start)

theorem settleClient_length (clients : List (JobClient Request Answer)) (c : ℕ)
    (prog : Prog Request Answer (Except PyError Val × JobClient Request Answer)) :
    (settleClient clients c prog).length = clients.length := by
  cases prog with
  | ret x => exact List.length_set
  | call q k => rfl

/-- A call is replaced by what it has become; it was still under way if its program has changed. -/
theorem ClientInv.set {w : World} (h : ClientInv w) {j : ℕ} {r r' : CallRun} (hj : w.calls[j]? = some r)
    (hclient : r'.client = r.client) (hstart : r'.start = r.start) {clients : List (JobClient Request Answer)}
    (hprog : (r'.prog = r.prog ∧ clients = w.clients) ∨
      (r.result.isNone = true ∧ clients = settleClient w.clients r.client r'.prog)) {sys : Sys} :
    ClientInv ⟨sys, clients, w.calls.set j r'⟩ := by
  have hlt := (List.getElem?_eq_some_iff.1 hj).1
  have hlen : clients.length = w.clients.length := by
    rcases hprog with ⟨-, rfl⟩ | ⟨-, rfl⟩
    · rfl
    · exact settleClient_length _ _ _
  -- calls before and after the replacement have the same clients and starts
  have hold : ∀ {i : ℕ} {r₁ : CallRun}, (w.calls.set j r')[i]? = some r₁ →
      (i = j ∧ r₁ = r') ∨ (i ≠ j ∧ w.calls[i]? = some r₁) := set_cases hlt
  have hnew : ∀ {i : ℕ} {r₁ : CallRun}, w.calls[i]? = some r₁ →
      ∃ r₂, (w.calls.set j r')[i]? = some r₂ ∧ r₂.client = r₁.client := by
    intro i r₁ hi
    by_cases hij : i = j
    · subst hij
      rw [hj] at hi
      cases hi
      exact ⟨r', List.getElem?_set_self hlt, hclient⟩
    · exact ⟨r₁, (List.getElem?_set_ne (Ne.symm hij)).trans hi, rfl⟩
  have hback : ∀ {i : ℕ} {r₁ : CallRun}, (w.calls.set j r')[i]? = some r₁ →
      ∃ r₀, w.calls[i]? = some r₀ ∧ r₁.client = r₀.client ∧ r₁.start = r₀.start := by
    intro i r₁ hi
    rcases hold hi with ⟨rfl, rfl⟩ | ⟨-, hi⟩
    · exact ⟨r, hj, hclient, hstart⟩
    · exact ⟨r₁, hi, rfl, rfl⟩
  refine ⟨fun r₁ hr₁ => ?bound, fun {i i' r₁ r₂} hii h₁ h₂ hc => ?done, fun {i r₁} hi hlast v cl hp => ?left,
    fun {i i' r₁ r₂} hn => ?next⟩
  case bound =>
    rw [hlen]
    rcases List.mem_or_eq_of_mem_set hr₁ with hr₁ | rfl
    · exact h.bound r₁ hr₁
    · exact hclient ▸ h.bound r (List.mem_of_getElem? hj)
  case done =>
    obtain ⟨r₀, h₀, hc₀, -⟩ := hback h₂
    rcases hold h₁ with ⟨rfl, rfl⟩ | ⟨-, h₁⟩
    · have hd := h.done hii hj h₀ (by rw [← hc₀, hc, hclient])
      -- a call with a later one on its client has a result, so its program is the old one
      rcases hprog with ⟨hp, -⟩ | ⟨hl, -⟩
      · unfold CallRun.result at hd ⊢
        rw [hp]
        exact hd
      · rw [hl] at hd
        cases hd
    · exact h.done hii h₁ h₀ (hc₀ ▸ hc)
  case left =>
    have hlast' : ∀ i' r₂, i < i' → w.calls[i']? = some r₂ → r₂.client ≠ r₁.client := by
      intro i' r₂ hii h₂
      obtain ⟨r₃, h₃, hc₃⟩ := hnew h₂
      exact hc₃ ▸ hlast i' r₃ hii h₃
    rcases hold hi with ⟨rfl, rfl⟩ | ⟨hij, hi₀⟩
    · rw [hclient] at hlast' ⊢
      rcases hprog with ⟨hp', rfl⟩ | ⟨-, rfl⟩
      · -- the call that is replaced is the last of its client, and `settleClient` has put there what it left
        exact h.left hj hlast' v cl (hp'.symm.trans hp)
      · rw [hp]
        exact List.getElem?_set_self (h.bound r (List.mem_of_getElem? hj))
    · have hleft := h.left hi₀ hlast' v cl hp
      rcases hprog with ⟨-, rfl⟩ | ⟨hl, rfl⟩
      · exact hleft
      · -- a call of the same client would be under way before a later one
        have hne : r.client ≠ r₁.client := by
          intro hc
          rcases Nat.lt_or_gt_of_ne hij with hlt' | hgt
          · exact hlast' j r hlt' hj hc
          · have hd := h.done hgt hj hi₀ hc.symm
            rw [hl] at hd
            cases hd
        cases hp' : r'.prog with
        | ret x => exact (List.getElem?_set_ne hne).trans hleft
        | call q k => exact hleft
  case next =>
    obtain ⟨r₀, h₀, hc₀, hs₀⟩ := hback hn.second
    rw [hs₀]
    have hbetween : ∀ k r₃, i < k → k < i' → w.calls[k]? = some r₃ → r₃.client ≠ r₁.client := by
      intro k r₃ hk hk' h₃
      obtain ⟨r₄, h₄, hc₄⟩ := hnew h₃
      exact hc₄ ▸ hn.between k r₄ hk hk' h₄
    rcases hold hn.first with ⟨rfl, rfl⟩ | ⟨-, h₁⟩
    · rw [hclient] at hbetween
      obtain ⟨v, hv⟩ := h.next ⟨hn.lt, hj, h₀, by rw [← hc₀, hn.client, hclient], hbetween⟩
      rcases hprog with ⟨hp, -⟩ | ⟨hl, -⟩
      · exact ⟨v, hp.trans hv⟩
      · unfold CallRun.result at hl
        rw [hv] at hl
        cases hl
    · exact h.next ⟨hn.lt, h₁, h₀, hc₀ ▸ hn.client, hbetween⟩

/-- A call is added, on a client that has none under way. -/
theorem ClientInv.called {P : Runtime} {w : World} (h : ClientInv w) {c : ℕ} {active : Option String} {op : Call}
    {cl : JobClient Request Answer} (hc : w.clients[c]? = some cl)
    (hidle : ∀ r ∈ w.calls, r.client = c → r.result.isNone = false) :
    ClientInv { w with
      clients := settleClient w.clients c (op.prog P active cl)
      calls := w.calls ++
        [{ client := c, call := op, active := active, start := cl, prog := op.prog P active cl }] } := by
  have hlt : ∀ {i : ℕ} {r : CallRun}, w.calls[i]? = some r → i < w.calls.length :=
    fun hi => (List.getElem?_eq_some_iff.1 hi).1
  have hin : ∀ {i : ℕ} {r r₀ : CallRun}, w.calls[i]? = some r → (w.calls ++ [r₀])[i]? = some r :=
    fun hi => (List.getElem?_append_left (hlt hi)).trans hi
  refine ⟨fun r hr => ?bound, fun {j j' r r'} hjj hj hj' hcl => ?done, fun {j r} hj hlast v cl' hp => ?left,
    fun {j j' r r'} hn => ?next⟩
  case bound =>
    rw [settleClient_length]
    rcases List.mem_append.1 hr with hr | hr
    · exact h.bound r hr
    · rw [List.mem_singleton.1 hr]
      exact (List.getElem?_eq_some_iff.1 hc).1
  case done =>
    rcases concat_cases hj' with hj' | ⟨rfl, rfl⟩
    · rcases concat_cases hj with hj | ⟨rfl, -⟩
      · -- two calls that were there before
        exact h.done hjj hj hj' hcl
      · have := hlt hj'
        omega
    · rcases concat_cases hj with hj | ⟨rfl, -⟩
      · exact hidle r (List.mem_of_getElem? hj) hcl.symm
      · omega
  case left =>
    rcases concat_cases hj with hj | ⟨rfl, rfl⟩
    · have hne : c ≠ r.client := hlast w.calls.length _ (hlt hj) (List.getElem?_concat_length ..)
      have hleft := h.left hj (fun i r₁ hi h₁ => hlast i r₁ hi (hin h₁)) v cl' hp
      cases hp' : op.prog P active cl with
      | ret x => exact (List.getElem?_set_ne hne).trans hleft
      | call q k => exact hleft
    · change op.prog P active cl = _ at hp
      change (settleClient w.clients c (op.prog P active cl))[c]? = _
      rw [hp]
      exact List.getElem?_set_self (List.getElem?_eq_some_iff.1 hc).1
  case next =>
    rcases concat_cases hn.first with hj | ⟨rfl, -⟩
    · rcases concat_cases hn.second with hj' | ⟨rfl, rfl⟩
      · exact h.next ⟨hn.lt, hj, hj', hn.client, fun i r₁ hi hi' h₁ => hn.between i r₁ hi hi' (hin h₁)⟩
      · -- the client is as the last call has left it
        have hcl : c = r.client := hn.client
        have hdone := hidle r (List.mem_of_getElem? hj) hcl.symm
        cases hp : r.prog with
        | call q k =>
          unfold CallRun.result at hdone
          rw [hp] at hdone
          cases hdone
        | ret x =>
          have hleft := h.left hj (fun i r₁ hi h₁ => hn.between i r₁ hi (hlt h₁) (hin h₁)) x.1 x.2 hp
          rw [← hcl, hc] at hleft
          exact ⟨x.1, by rw [Option.some.inj hleft]⟩
    · have hle := (List.getElem?_eq_some_iff.1 hn.second).1
      have := hn.lt
      rw [List.length_append, List.length_singleton] at hle
      omega

/-- **A call begins with what the last call on its client has left.** -/
theorem client_inv (P : Runtime) (es : List Event) : ∀ n, ClientInv (wAt P es n) := by
  have hinit : ClientInv {} := by
    refine ⟨by simp, ?_, ?_, ?_⟩
    · rintro j j' r r' - hj
      simp at hj
    · rintro j r hj
      simp at hj
    · rintro j j' r r' hn
      simpa using hn.first
  refine World.invariant hinit fun n hn ih => ?_
  have hstep := World.step_spec P (wAt P es n) es[n]
  generalize wAt P es n = w at *
  generalize World.step P w es[n] = w' at *
  generalize w.sysEvents es[n] = ses at *
  generalize es[n] = e at *
  have hsys : ∀ sys, ClientInv { w with sys := sys } := by
    intro sys
    exact ⟨ih.bound, ih.done, ih.left, fun h => ih.next ⟨h.lt, h.first, h.second, h.client, h.between⟩⟩
  -- a call that asks or is answered has no result yet
  have hlive : ∀ {r : CallRun}, r.live = true → r.result.isNone = true := by
    intro r hl
    unfold CallRun.live at hl
    rw [Bool.and_eq_true] at hl
    exact hl.2
  cases hstep with
  | opened config schemaName m =>
    refine ⟨fun r hr => ?_, ih.done, fun {j r} hj hlast v cl hp => ?_, fun h =>
      ih.next ⟨h.lt, h.first, h.second, h.client, h.between⟩⟩
    · have := ih.bound r hr
      rw [List.length_append]
      omega
    · have hb := ih.bound r (List.mem_of_getElem? hj)
      exact (List.getElem?_append_left hb).trans (ih.left hj hlast v cl hp)
  | called hc hidle => exact ih.called hc hidle
  | @sent j crash r q k hj hp hl hw => refine ih.set hj ?_ ?_ (Or.inl ⟨?_, ?_⟩) <;> rfl
  | received hj hp hl hw ht ha =>
    rw [World.proceed_eq]
    refine ih.set hj ?_ ?_ (Or.inr ⟨hlive hl, ?_⟩) <;> rfl
  | lost hj hp hl =>
    rw [World.proceed_eq]
    refine ih.set hj ?_ ?_ (Or.inr ⟨hlive hl, ?_⟩) <;> rfl
  | @abandoned j r hj => refine ih.set hj ?_ ?_ (Or.inl ⟨?_, ?_⟩) <;> rfl
  | ticked t inp => exact hsys _
  | paused pid => exact hsys _
  | idle => exact ih

end Matterbeam
