import Mathlib.Data.List.Basic
import Mathlib.Data.Nat.Notation
import Mathlib.Tactic.Common

/-!
# Request-response programs

A `Prog Q A α` is a program that asks questions in `Q`, gets answers in `A` and
returns an `α`. It says nothing about who answers.

* `Conv p l p'`: after the exchanges `l`, the program `p` has become `p'`.
* `Talk p l a`: the exchanges `l` are a whole run of `p`, which returns `a`.
* `exec`: the run against a handler with a state; `execFor`: the same, broken off
  after a number of exchanges.
* `Spec φ ψ p`: whatever it is answered, `p` asks only questions in `φ` and returns only
  values in `ψ`.
* `StopsOn bad fail p`: a bad answer to a question ends `p` at once, with a value in `fail`.
* `Ends φ ψ fail p`: the same for a program that may fail, and if it does, then with `fail`.
* `talk_bind`, `exec_bind`, `spec_bind`, `stopsOn_bind`, `ends_bind`: each of them over
  sequential composition.
-/

universe u

/-- A program asking `Q`, answered in `A`, returning an `α`. -/
inductive Prog (Q A α : Type u) : Type u
  | ret (a : α)
  | call (q : Q) (k : A → Prog Q A α)

namespace Prog

variable {Q A α β σ : Type u}

/-- Run `p`, then `f` on what it returned. -/
def bind : Prog Q A α → (α → Prog Q A β) → Prog Q A β
  | ret a, f => f a
  | call q k, f => call q fun a => (k a).bind f

instance : Monad (Prog Q A) where
  pure := ret
  bind := bind

@[simp] theorem ret_bind (a : α) (f : α → Prog Q A β) : (ret a >>= f) = f a := rfl

@[simp] theorem call_bind (q : Q) (k : A → Prog Q A α) (f : α → Prog Q A β) :
    (call q k >>= f) = call q fun a => k a >>= f := rfl

@[simp] theorem pure_eq (a : α) : (pure a : Prog Q A α) = ret a := rfl

theorem bind_assoc (p : Prog Q A α) (f : α → Prog Q A β) {γ : Type u} (g : β → Prog Q A γ) :
    (p >>= f) >>= g = p >>= fun a => f a >>= g := by
  induction p with
  | ret a => rfl
  | call q k ih =>
    rw [call_bind, call_bind, call_bind]
    congr 1
    funext a
    exact ih a

/-- The program that asks once and returns the answer. -/
def ask (q : Q) : Prog Q A A := call q ret

@[simp] theorem ask_bind (q : Q) (f : A → Prog Q A β) : (ask q >>= f) = call q f := rfl

/-! ## Exchanges -/

/-- `Conv p l p'`: the exchanges `l` take `p` to `p'`. -/
inductive Conv : Prog Q A α → List (Q × A) → Prog Q A α → Prop
  | nil (p : Prog Q A α) : Conv p [] p
  | call (q : Q) (k : A → Prog Q A α) (a : A) {l : List (Q × A)} {p' : Prog Q A α} :
      Conv (k a) l p' → Conv (.call q k) ((q, a) :: l) p'

/-- The exchanges `l` are a whole run of `p`, returning `a`. -/
def Talk (p : Prog Q A α) (l : List (Q × A)) (a : α) : Prop := Conv p l (ret a)

theorem Conv.snoc {p : Prog Q A α} {l : List (Q × A)} {q : Q} {k : A → Prog Q A α}
    (h : Conv p l (.call q k)) (a : A) : Conv p (l ++ [(q, a)]) (k a) := by
  generalize hp : Prog.call q k = p' at h
  induction h with
  | nil p => subst hp; exact .call q k a (.nil _)
  | call q' k' a' _ ih => exact .call q' k' a' (ih hp)

/-- The exchanges of a run can be cut anywhere. -/
theorem Conv.split {p p' : Prog Q A α} {l₁ l₂ : List (Q × A)} (h : Conv p (l₁ ++ l₂) p') :
    ∃ p₁, Conv p l₁ p₁ ∧ Conv p₁ l₂ p' := by
  induction l₁ generalizing p with
  | nil => exact ⟨p, .nil p, h⟩
  | cons x l₁ ih =>
    cases h with
    | call q k a h =>
      obtain ⟨p₁, h₁, h₂⟩ := ih h
      exact ⟨p₁, .call q k a h₁, h₂⟩

theorem Conv.append {p p₁ p' : Prog Q A α} {l₁ l₂ : List (Q × A)} (h₁ : Conv p l₁ p₁) (h₂ : Conv p₁ l₂ p') :
    Conv p (l₁ ++ l₂) p' := by
  induction h₁ with
  | nil p => exact h₂
  | call q k a _ ih => exact .call q k a (ih h₂)

/-- The exchanges decide where a program is. -/
theorem Conv.det {p p₁ p₂ : Prog Q A α} {l : List (Q × A)} (h₁ : Conv p l p₁) (h₂ : Conv p l p₂) : p₁ = p₂ := by
  induction h₁ with
  | nil p => cases h₂; rfl
  | call q k a _ ih => cases h₂ with | call _ _ _ h₂ => exact ih h₂

@[simp] theorem talk_ret {a b : α} {l : List (Q × A)} :
    Talk (ret a) l b ↔ l = [] ∧ b = a := by
  constructor
  · intro h; cases h; exact ⟨rfl, rfl⟩
  · rintro ⟨rfl, rfl⟩; exact .nil _

@[simp] theorem talk_call {q : Q} {k : A → Prog Q A α} {l : List (Q × A)} {b : α} :
    Talk (call q k) l b ↔ ∃ a l', l = (q, a) :: l' ∧ Talk (k a) l' b := by
  constructor
  · intro h; cases h with | call _ _ a h => exact ⟨a, _, rfl, h⟩
  · rintro ⟨a, l', rfl, h⟩; exact .call q k a h

/-- **Runs of a composition** are a run of the first part, then one of the second. -/
theorem talk_bind {p : Prog Q A α} {f : α → Prog Q A β} {l : List (Q × A)} {b : β} :
    Talk (p >>= f) l b ↔ ∃ l₁ l₂ a, l = l₁ ++ l₂ ∧ Talk p l₁ a ∧ Talk (f a) l₂ b := by
  induction p generalizing l with
  | ret a =>
    simp only [ret_bind, talk_ret]
    exact ⟨fun h => ⟨[], l, a, rfl, ⟨rfl, rfl⟩, h⟩, by rintro ⟨_, _, _, rfl, ⟨rfl, rfl⟩, h⟩; exact h⟩
  | call q k ih =>
    simp only [call_bind, talk_call, ih]
    constructor
    · rintro ⟨a, l', rfl, l₁, l₂, c, rfl, h₁, h₂⟩
      exact ⟨(q, a) :: l₁, l₂, c, rfl, ⟨a, l₁, rfl, h₁⟩, h₂⟩
    · rintro ⟨_, l₂, c, rfl, ⟨a, l₁, rfl, h₁⟩, h₂⟩
      exact ⟨a, l₁ ++ l₂, rfl, l₁, l₂, c, rfl, h₁, h₂⟩

/-- **Where a composition is** when it asks: in its first part, or in its second. -/
theorem conv_bind {p : Prog Q A α} {f : α → Prog Q A β} {l : List (Q × A)} {q : Q} {k : A → Prog Q A β}
    (h : Conv (p >>= f) l (call q k)) :
    (∃ k', Conv p l (call q k')) ∨
      ∃ l₁ l₂ a, l = l₁ ++ l₂ ∧ Talk p l₁ a ∧ Conv (f a) l₂ (call q k) := by
  induction p generalizing l with
  | ret a => exact Or.inr ⟨[], l, a, rfl, .nil _, h⟩
  | call q₀ k₀ ih =>
    rw [call_bind] at h
    cases h with
    | nil => exact Or.inl ⟨k₀, .nil _⟩
    | call _ _ a h =>
      rcases ih a h with ⟨k', h'⟩ | ⟨l₁, l₂, b, rfl, h₁, h₂⟩
      · exact Or.inl ⟨k', .call q₀ k₀ a h'⟩
      · exact Or.inr ⟨(q₀, a) :: l₁, l₂, b, rfl, .call q₀ k₀ a h₁, h₂⟩

/-! ## What a program asks and returns -/

/-- Whatever the program is answered, it asks only questions that satisfy `φ`, and if it
returns, then with `ψ`. -/
def Spec (φ : Q → Prop) (ψ : α → Prop) : Prog Q A α → Prop
  | ret a => ψ a
  | call q k => φ q ∧ ∀ a, (k a).Spec φ ψ

variable {φ : Q → Prop}

@[simp] theorem spec_ret {ψ : α → Prop} {a : α} : (ret a : Prog Q A α).Spec φ ψ ↔ ψ a := Iff.rfl

@[simp] theorem spec_call {ψ : α → Prop} {q : Q} {k : A → Prog Q A α} :
    (call q k).Spec φ ψ ↔ φ q ∧ ∀ a, (k a).Spec φ ψ := Iff.rfl

/-- **The rule of composition.** -/
theorem spec_bind {ψ : α → Prop} {χ : β → Prop} {p : Prog Q A α} {f : α → Prog Q A β} (hp : p.Spec φ ψ)
    (hf : ∀ a, ψ a → (f a).Spec φ χ) : (p >>= f).Spec φ χ := by
  induction p with
  | ret a => exact hf a hp
  | call q k ih => exact ⟨hp.1, fun a => ih a (hp.2 a)⟩

/-- **The rule of consequence.** -/
theorem Spec.imp {φ' : Q → Prop} {ψ ψ' : α → Prop} {p : Prog Q A α} (hp : p.Spec φ ψ) (hφ : ∀ q, φ q → φ' q)
    (hψ : ∀ a, ψ a → ψ' a) : p.Spec φ' ψ' := by
  induction p with
  | ret a => exact hψ a hp
  | call q k ih => exact ⟨hφ q hp.1, fun a => ih a (hp.2 a)⟩

/-- What a program has asked, and what it goes on to do. -/
theorem Spec.conv {ψ : α → Prop} {p p' : Prog Q A α} {l : List (Q × A)} (hp : p.Spec φ ψ) (h : Conv p l p') :
    (∀ x ∈ l, φ x.1) ∧ p'.Spec φ ψ := by
  induction h with
  | nil p => exact ⟨by simp, hp⟩
  | call q k a _ ih =>
    obtain ⟨h₁, h₂⟩ := ih (hp.2 a)
    exact ⟨List.forall_mem_cons.2 ⟨hp.1, h₁⟩, h₂⟩

/-- A bad answer to a question ends the program at once, with a value in `fail`. -/
def StopsOn (bad : Q → A → Prop) (fail : α → Prop) : Prog Q A α → Prop
  | ret _ => True
  | call q k => ∀ a, (k a).StopsOn bad fail ∧ (bad q a → ∃ v, k a = ret v ∧ fail v)

variable {bad : Q → A → Prop}

theorem stopsOn_bind {F ψ : α → Prop} {F' : β → Prop} {p : Prog Q A α} {f : α → Prog Q A β}
    (hp : p.StopsOn bad F) (hψ : p.Spec φ ψ) (hf : ∀ a, ψ a → (f a).StopsOn bad F')
    (hfail : ∀ a, F a → ∃ v, f a = ret v ∧ F' v) : (p >>= f).StopsOn bad F' := by
  induction p with
  | ret a => exact hf a hψ
  | call q k ih =>
    refine fun a => ⟨ih a (hp a).1 (hψ.2 a), fun hb => ?_⟩
    obtain ⟨v, hk, hv⟩ := (hp a).2 hb
    obtain ⟨w, hw, hw'⟩ := hfail v hv
    refine ⟨w, ?_, hw'⟩
    change k a >>= f = ret w
    rw [hk, ret_bind, hw]

theorem StopsOn.imp {bad' : Q → A → Prop} {fail fail' : α → Prop} {p : Prog Q A α} (hp : p.StopsOn bad fail)
    (hbad : ∀ q a, bad' q a → bad q a) (hfail : ∀ v, fail v → fail' v) : p.StopsOn bad' fail' := by
  induction p with
  | ret a => trivial
  | call q k ih =>
    refine fun a => ⟨ih a (hp a).1, fun hb => ?_⟩
    obtain ⟨v, hk, hv⟩ := (hp a).2 (hbad q a hb)
    exact ⟨v, hk, hfail v hv⟩

/-- Where there is no bad answer to what a program asks, nothing has to be shown. -/
theorem Spec.stopsOn {fail ψ : α → Prop} {p : Prog Q A α} (hp : p.Spec φ ψ) (hbad : ∀ q a, φ q → ¬ bad q a) :
    p.StopsOn bad fail := by
  induction p with
  | ret a => trivial
  | call q k ih => exact fun a => ⟨ih a (hp.2 a), fun hb => absurd hb (hbad q a hp.1)⟩

/-- **A program that got a bad answer** has ended, as it should. -/
theorem StopsOn.ends {fail : α → Prop} {p p' : Prog Q A α} {l : List (Q × A)} (hp : p.StopsOn bad fail)
    (h : Conv p l p') {x : Q × A} (hx : x ∈ l) (hb : bad x.1 x.2) : ∃ v, p' = ret v ∧ fail v := by
  induction h with
  | nil p => cases hx
  | call q k a h ih =>
    rcases List.mem_cons.1 hx with rfl | hx
    · obtain ⟨v, hk, hv⟩ := (hp a).2 hb
      rw [hk] at h
      cases h
      exact ⟨v, rfl, hv⟩
    · exact ih (hp a).1 hx

/-- A program that still asks, or has not failed, has had no bad answer. -/
theorem StopsOn.conv {fail : α → Prop} {p p' : Prog Q A α} {l : List (Q × A)} (hp : p.StopsOn bad fail)
    (h : Conv p l p') (hp' : ∀ v, p' = ret v → ¬ fail v) : ∀ x ∈ l, ¬ bad x.1 x.2 := by
  intro x hx hb
  obtain ⟨v, hv, hf⟩ := hp.ends h hx hb
  exact hp' v hv hf

/-! ## Running against a handler -/

variable (h : σ → Q → σ × A)

/-- The run of a program against a handler: the last state and what was returned. -/
def exec : Prog Q A α → σ → σ × α
  | ret a, s => (s, a)
  | call q k, s => (k (h s q).2).exec (h s q).1

/-- The state after the first `n` exchanges of a run (or all of them, if fewer). -/
def execFor : ℕ → Prog Q A α → σ → σ
  | 0, _, s => s
  | _ + 1, ret _, s => s
  | n + 1, call q k, s => (k (h s q).2).execFor n (h s q).1

@[simp] theorem exec_ret (a : α) (s : σ) : (ret a : Prog Q A α).exec h s = (s, a) := rfl

@[simp] theorem exec_call (q : Q) (k : A → Prog Q A α) (s : σ) :
    (call q k).exec h s = (k (h s q).2).exec h (h s q).1 := rfl

/-- **The run of a composition.** -/
theorem exec_bind (p : Prog Q A α) (f : α → Prog Q A β) (s : σ) :
    (p >>= f).exec h s = (f (p.exec h s).2).exec h (p.exec h s).1 := by
  induction p generalizing s with
  | ret a => rfl
  | call q k ih => exact ih _ _

theorem Spec.exec {ψ : α → Prop} {p : Prog Q A α} (hp : p.Spec φ ψ) (s : σ) : ψ (p.exec h s).2 := by
  induction p generalizing s with
  | ret a => exact hp
  | call q k ih => exact ih _ (hp.2 _) _

/-! ## Programs that may fail -/

variable {ε : Type u}

/-- What a program that may fail returns, or how it fails. -/
def Ends (φ : Q → Prop) (ψ : α → Prop) (fail : ε → Prop) (p : ExceptT ε (Prog Q A) α) : Prop :=
  Spec φ (fun r : Except ε α => match r with | .ok a => ψ a | .error e => fail e) p.run

theorem ends_ret {ψ : α → Prop} {fail : ε → Prop} {r : Except ε α} :
    Ends φ ψ fail (ExceptT.mk (ret r : Prog Q A (Except ε α))) ↔ (∀ a, r = .ok a → ψ a) ∧ ∀ e, r = .error e → fail e := by
  cases r with
  | ok a =>
    refine ⟨fun h => ⟨fun b hb => Except.ok.inj hb ▸ h, fun e he => ?_⟩, fun h => h.1 a rfl⟩
    cases he
  | error e =>
    refine ⟨fun h => ⟨fun b hb => ?_, fun e he => Except.error.inj he ▸ h⟩, fun h => h.2 e rfl⟩
    cases hb

/-- **The rule of composition**, for programs that may fail. -/
theorem ends_bind {ψ : α → Prop} {χ : β → Prop} {fail : ε → Prop} {p : ExceptT ε (Prog Q A) α}
    {f : α → ExceptT ε (Prog Q A) β} (hp : Ends φ ψ fail p) (hf : ∀ a, ψ a → Ends φ χ fail (f a)) :
    Ends φ χ fail (p >>= f) := by
  refine spec_bind (f := ExceptT.bindCont f) hp fun r hr => ?_
  cases r with
  | ok a => exact hf a hr
  | error e => exact hr

/-- The run of a composition ends where its first part fails. -/
theorem exec_bind_error {p : ExceptT ε (Prog Q A) α} {s s' : σ} {e : ε} (hp : p.run.exec h s = (s', .error e))
    (f : α → ExceptT ε (Prog Q A) β) : (p >>= f).run.exec h s = (s', .error e) := by
  change (p.run >>= ExceptT.bindCont f).exec h s = _
  rw [exec_bind, hp]
  rfl

theorem exec_bind_ok {p : ExceptT ε (Prog Q A) α} {s s' : σ} {a : α} (hp : p.run.exec h s = (s', .ok a))
    (f : α → ExceptT ε (Prog Q A) β) : (p >>= f).run.exec h s = (f a).run.exec h s' := by
  change (p.run >>= ExceptT.bindCont f).exec h s = _
  rw [exec_bind, hp]
  rfl

end Prog
