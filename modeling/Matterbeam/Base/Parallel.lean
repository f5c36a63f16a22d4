import Mathlib.Data.List.Induction
import Mathlib.Logic.Function.Basic
import Matterbeam.Base.Prog

/-!
# Programs side by side

Programs share a handler and take turns, and the state may also change from outside. Each of them
relies on what the others may do to the state, and guarantees what it does itself.

* `Safe`: whatever happens that a program relies on, it keeps to its guarantee, and ends well.
* `safe_request`, `safe_bind`, `safe_bind_ok`: the rules for programs, with and without failures.
* `parallel`: **the rule of parallel composition**: programs that are safe alone are safe together,
  if each of them relies only on what the others guarantee.
-/

universe u

namespace Prog

variable {Q A α β ε : Type u} {σ ξ ι ζ : Type*}

/-- What programs that share a state agree on. `handle` answers a question, with the help of what is
drawn; a draw happens that is `Ok`. Each step keeps `Inv`. -/
structure Shared (Q A : Type u) (σ ξ : Type*) where
  handle : ξ → σ → Q → σ × A
  Ok : σ → ξ → Q → Prop
  Inv : σ → Prop

/-- What one program relies on, and what it guarantees. -/
structure Pact (σ : Type*) where
  rely : σ → σ → Prop
  guar : σ → σ → Prop

/-- What is relied on may happen in any number of steps. -/
structure Pact.Lawful (c : Pact σ) : Prop where
  refl : ∀ s, c.rely s s
  trans : ∀ {s s' s''}, c.rely s s' → c.rely s' s'' → c.rely s s''

variable (S : Shared Q A σ ξ) (c : Pact σ)

/-! ## One program -/

/-- Whatever happens that the program relies on, it keeps to its guarantee, and if it returns, then
with `ψ`, for good. -/
def Safe (ψ : α → σ → Prop) : Prog Q A α → σ → Prop
  | ret a, s => ∀ s', S.Inv s' → c.rely s s' → ψ a s'
  | call q k, s => ∀ s', S.Inv s' → c.rely s s' → ∀ x, S.Ok s' x q →
      c.guar s' (S.handle x s' q).1 ∧ S.Inv (S.handle x s' q).1 ∧
        (k (S.handle x s' q).2).Safe ψ (S.handle x s' q).1

variable {S c} {ψ : α → σ → Prop} {χ : β → σ → Prop} {s s' : σ}

/-- A program stays safe. -/
theorem Safe.stable (hc : c.Lawful) {p : Prog Q A α} (hp : p.Safe S c ψ s) (h : c.rely s s') : p.Safe S c ψ s' := by
  cases p with
  | ret a => exact fun s'' hI hr => hp s'' hI (hc.trans h hr)
  | call q k => exact fun s'' hI hr x hx => hp s'' hI (hc.trans h hr) x hx

/-- **The rule of composition.** -/
theorem safe_bind (hc : c.Lawful) {p : Prog Q A α} {f : α → Prog Q A β} (hI : S.Inv s) (hp : p.Safe S c ψ s)
    (hf : ∀ a s', S.Inv s' → ψ a s' → (f a).Safe S c χ s') : (p >>= f).Safe S c χ s := by
  induction p generalizing s with
  | ret a => exact hf a s hI (hp s hI (hc.refl s))
  | call q k ih =>
    intro s' hI' hr x hx
    obtain ⟨hg, hI'', hk⟩ := hp s' hI' hr x hx
    exact ⟨hg, hI'', ih _ hI'' hk⟩

/-! ## Programs that may fail -/

/-- How a program ended that may fail. -/
def Ended (ψ : α → σ → Prop) (fail : ε → Prop) (r : Except ε α) (s : σ) : Prop :=
  (∀ a, r = .ok a → ψ a s) ∧ ∀ e, r = .error e → fail e

variable {fail : ε → Prop}

theorem ended_ok {a : α} (h : ψ a s) : Ended ψ fail (.ok a) s :=
  ⟨fun b hb => Except.ok.inj hb ▸ h, fun e he => by cases he⟩

theorem ended_error {e : ε} (h : fail e) : Ended ψ fail (.error e) s :=
  ⟨fun a ha => (by cases ha), fun e' he => Except.error.inj he ▸ h⟩

/-- The rule of composition, for programs that may fail. -/
theorem safe_bind_ok (hc : c.Lawful) {p : ExceptT ε (Prog Q A) α} {f : α → ExceptT ε (Prog Q A) β} (hI : S.Inv s)
    (hp : p.run.Safe S c (Ended ψ fail) s) (hf : ∀ a s', S.Inv s' → ψ a s' → (f a).run.Safe S c (Ended χ fail) s') :
    (p >>= f).run.Safe S c (Ended χ fail) s := by
  refine safe_bind (f := ExceptT.bindCont f) hc hI hp fun r s' hI' hr => ?_
  cases r with
  | ok a => exact hf a s' hI' (hr.1 a rfl)
  | error e => exact fun s'' _ _ => ended_error (hr.2 e rfl)

/-- A program that returns something that stays good. -/
theorem safe_return {a : α} (h : ∀ s', S.Inv s' → c.rely s s' → ψ a s') :
    (return a : ExceptT ε (Prog Q A) α).run.Safe S c (Ended ψ fail) s :=
  fun s' hI hr => ended_ok (h s' hI hr)

/-- A program that fails. -/
theorem safe_throw {e : ε} (h : fail e) : (throw e : ExceptT ε (Prog Q A) α).run.Safe S c (Ended ψ fail) s :=
  fun _ _ _ => ended_error h

/-! ## Many programs -/

/-- A program has its turn, or something happens outside. -/
inductive Event (ι ξ ζ : Type*)
  | turn (i : ι) (x : ξ)
  | outside (z : ζ)

variable (handle : ξ → σ → Q → σ × A) (out : ζ → σ → σ)

/-- The state and the programs, after an event. -/
def Event.step [DecidableEq ι] (w : σ × (ι → Prog Q A α)) : Event ι ξ ζ → σ × (ι → Prog Q A α)
  | turn i x => match w.2 i with
    | ret _ => w
    | call q k => ((handle x w.1 q).1, Function.update w.2 i (k (handle x w.1 q).2))
  | outside z => (out z w.1, w.2)

theorem step_ret [DecidableEq ι] {w : σ × (ι → Prog Q A α)} {i : ι} {a : α} (h : w.2 i = ret a) (x : ξ) :
    Event.step handle out w (.turn i x) = w := by
  simp only [Event.step, h]

theorem step_call [DecidableEq ι] {w : σ × (ι → Prog Q A α)} {i : ι} {q : Q} {k : A → Prog Q A α} (h : w.2 i = call q k)
    (x : ξ) : Event.step handle out w (.turn i x) =
      ((handle x w.1 q).1, Function.update w.2 i (k (handle x w.1 q).2)) := by
  simp only [Event.step, h]

/-- The state and the programs, after events. -/
def sideBySide [DecidableEq ι] (w : σ × (ι → Prog Q A α)) (es : List (Event ι ξ ζ)) : σ × (ι → Prog Q A α) :=
  es.foldl (Event.step handle out) w

/-- All draws of a run happen. -/
def Drawn [DecidableEq ι] (Ok : σ → ξ → Q → Prop) (w : σ × (ι → Prog Q A α)) (es : List (Event ι ξ ζ)) : Prop :=
  ∀ n i x q k, es[n]? = some (.turn i x) → (sideBySide handle out w (es.take n)).2 i = call q k →
    Ok (sideBySide handle out w (es.take n)).1 x q

variable {handle out}

/-- The draw of an event happens. -/
def Event.Happens (Ok : σ → ξ → Q → Prop) (w : σ × (ι → Prog Q A α)) : Event ι ξ ζ → Prop
  | turn i x => match w.2 i with
    | ret _ => True
    | call q _ => Ok w.1 x q
  | outside _ => True

instance decidableHappens (Ok : σ → ξ → Q → Prop) [∀ s x q, Decidable (Ok s x q)] (w : σ × (ι → Prog Q A α)) (e : Event ι ξ ζ) : Decidable (e.Happens Ok w) :=
  match e with
  | .turn i x => match hi : w.2 i with
    | ret _ => .isTrue (by simp only [Event.Happens, hi])
    | call q _ => decidable_of_iff (Ok w.1 x q) (by simp only [Event.Happens, hi])
  | .outside _ => .isTrue trivial

/-- The draws of a run happen one after the other. -/
theorem drawn_cons [DecidableEq ι] {Ok : σ → ξ → Q → Prop} {w : σ × (ι → Prog Q A α)} {e : Event ι ξ ζ}
    {es : List (Event ι ξ ζ)} :
    Drawn handle out Ok w (e :: es) ↔ e.Happens Ok w ∧ Drawn handle out Ok (e.step handle out w) es := by
  constructor
  · intro h
    refine ⟨?_, fun n i x q k hn hi => h (n + 1) i x q k hn hi⟩
    cases e with
    | turn i x =>
      cases hi : w.2 i with
      | ret a => simp only [Event.Happens, hi]
      | call q k =>
        simp only [Event.Happens, hi]
        exact h 0 i x q k rfl hi
    | outside z => trivial
  · rintro ⟨he, hes⟩ n i x q k hn hi
    cases n with
    | zero =>
      obtain rfl := Option.some.inj hn
      have hi : w.2 i = call q k := hi
      simp only [Event.Happens, hi] at he
      exact he
    | succ n => exact hes n i x q k hn hi

instance decidableDrawn [DecidableEq ι] (Ok : σ → ξ → Q → Prop) [∀ s x q, Decidable (Ok s x q)] :
    (w : σ × (ι → Prog Q A α)) → (es : List (Event ι ξ ζ)) → Decidable (Drawn handle out Ok w es)
  | w, [] => .isTrue fun n i x q k hn => by cases hn
  | w, e :: es =>
    have := decidableDrawn Ok (e.step handle out w) es
    decidable_of_iff _ drawn_cons.symm

variable {pact : ι → Pact σ} {post : ι → α → σ → Prop}

/-- All programs are safe. -/
structure AllSafe (S : Shared Q A σ ξ) (pact : ι → Pact σ) (post : ι → α → σ → Prop) (w : σ × (ι → Prog Q A α)) : Prop where
  inv : S.Inv w.1
  safe : ∀ i, (w.2 i).Safe S (pact i) (post i) w.1

/-- **The rule of parallel composition.** -/
theorem parallel [DecidableEq ι] {w : σ × (ι → Prog Q A α)} {es : List (Event ι ξ ζ)} (hlaw : ∀ i, (pact i).Lawful)
    (hpact : ∀ i j, i ≠ j → ∀ s s', S.Inv s → S.Inv s' → (pact j).guar s s' → (pact i).rely s s')
    (hout : ∀ z s, S.Inv s → S.Inv (out z s) ∧ ∀ i, (pact i).rely s (out z s)) (hdrawn : Drawn S.handle out S.Ok w es)
    (h : AllSafe S pact post w) : AllSafe S pact post (sideBySide S.handle out w es) := by
  induction es using List.reverseRecOn with
  | nil => exact h
  | append_singleton es e ih =>
    have ih := ih fun n i x q k hn hi => by
      have hlt := (List.getElem?_eq_some_iff.1 hn).1
      have hd := hdrawn n i x q k ((List.getElem?_append_left hlt).trans hn)
      rw [List.take_append_of_le_length (Nat.le_of_lt hlt)] at hd
      exact hd hi
    have hlast := fun i x q k (he : e = .turn i x) => hdrawn es.length i x q k (he ▸ List.getElem?_concat_length)
    rw [List.take_left] at hlast
    rw [sideBySide, List.foldl_append, List.foldl_cons, List.foldl_nil, ← sideBySide]
    generalize sideBySide S.handle out w es = v at ih hlast
    cases e with
    | turn i x =>
      cases hi : v.2 i with
      | ret a =>
        rw [step_ret S.handle out hi]
        exact ih
      | call q k =>
        rw [step_call S.handle out hi]
        have hown := ih.safe i
        rw [hi] at hown
        obtain ⟨hg, hI, hk⟩ := hown v.1 ih.inv ((hlaw i).refl _) x (hlast i x q k rfl hi)
        refine ⟨hI, fun j => ?_⟩
        dsimp only
        by_cases hj : j = i
        · subst hj
          rw [Function.update_self]
          exact hk
        · rw [Function.update_of_ne hj]
          exact (ih.safe j).stable (hlaw j) (hpact j i hj _ _ ih.inv hI hg)
    | outside z =>
      obtain ⟨hI, hr⟩ := hout z v.1 ih.inv
      exact ⟨hI, fun i => (ih.safe i).stable (hlaw i) (hr i)⟩

/-- A program that has ended did so well. -/
theorem AllSafe.ended {w : σ × (ι → Prog Q A α)} (h : AllSafe S pact post w) (hlaw : ∀ i, (pact i).Lawful) {i : ι} {a : α}
    (hi : w.2 i = ret a) : post i a w.1 := by
  have hsafe := h.safe i
  rw [hi] at hsafe
  exact hsafe w.1 h.inv ((hlaw i).refl _)

end Prog
