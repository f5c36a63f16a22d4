import Mathlib.Data.Nat.Notation
import Mathlib.Order.Basic
import Mathlib.Tactic.Common
import Mathlib.Tactic.Ring

/-!
# Decimal strings and their order

* `repr_lt_repr`: numbers with equally many decimal digits compare as strings as
  they compare as numbers.
* `string_append_lt`: between strings of one length, what follows does not matter.
* `join a w b`: the number written as the digits of `a` followed by those of `b`,
  padded to width `w`; `repr_join` says that it begins with `a`.
-/

namespace Decimal

theorem list_append_lt {α : Type*} [LT α] {l₁ l₂ : List α} (hlen : l₁.length = l₂.length)
    (h : l₁ < l₂) (m₁ m₂ : List α) : l₁ ++ m₁ < l₂ ++ m₂ := by
  induction h with
  | nil => simp at hlen
  | rel hab => exact List.Lex.rel hab
  | cons _ ih => exact List.Lex.cons (ih (by simpa using hlen))

/-- Between strings of one length, what follows does not matter. -/
theorem string_append_lt {s t : String} (hlen : s.length = t.length) (h : s < t) (u v : String) :
    s ++ u < t ++ v := by
  rw [String.lt_iff, String.toList_append, String.toList_append]
  exact list_append_lt (by rwa [String.length_toList, String.length_toList]) (String.lt_iff.1 h) _ _

theorem digitChar_lt : ∀ b < 10, ∀ a < b, Nat.digitChar a < Nat.digitChar b := by decide

theorem length_repr_of_ge {n : ℕ} (h : 10 ≤ n) : n.repr.length = (n / 10).repr.length + 1 := by
  rw [Nat.repr_of_ge h, String.length_append, String.length_singleton]

theorem two_le_length_repr {n : ℕ} : 2 ≤ n.repr.length ↔ 10 ≤ n := by
  have := Nat.length_repr_le_iff (n := n) (k := 1) (by omega)
  omega

/-- **Numbers with equally many digits compare as strings as they do as numbers.** -/
theorem repr_lt_repr {a b : ℕ} (hab : a < b) (hlen : a.repr.length = b.repr.length) :
    a.repr < b.repr := by
  induction b using Nat.strong_induction_on generalizing a with
  | _ b ih =>
    by_cases hb : b < 10
    · rw [Nat.repr_of_lt hb, Nat.repr_of_lt (by omega), String.lt_iff]
      simpa using List.Lex.rel (digitChar_lt b hb a hab)
    · have hb : 10 ≤ b := by omega
      have ha : 10 ≤ a := two_le_length_repr.1 (hlen ▸ two_le_length_repr.2 hb)
      have hl : (a / 10).repr.length = (b / 10).repr.length := by
        rw [length_repr_of_ge ha, length_repr_of_ge hb] at hlen; omega
      rw [Nat.repr_of_ge ha, Nat.repr_of_ge hb]
      rcases Nat.lt_or_ge (a / 10) (b / 10) with h | h
      · exact string_append_lt hl (ih _ (by omega) h hl) _ _
      · -- the leading digits agree, so the last digit decides
        have he : a / 10 = b / 10 := by omega
        rw [he, String.lt_iff, String.toList_append, String.toList_append]
        apply List.append_left_lt
        simpa using List.Lex.rel (digitChar_lt (b % 10) (by omega) (a % 10) (by omega))

/-- A decimal has only digits in it. -/
theorem notMem_repr {c : Char} (hc : c.isDigit = false) (n : ℕ) : c ∉ n.repr.toList := by
  intro h
  rw [Nat.toList_repr] at h
  rw [Nat.isDigit_of_mem_toDigits (by decide) (by decide) h] at hc
  cases hc

/-- Numbers with one decimal are one number. -/
theorem repr_inj {a b : ℕ} (h : a.repr = b.repr) : a = b := by
  rcases Nat.lt_trichotomy a b with hlt | he | hlt
  · exact absurd (h ▸ repr_lt_repr hlt (congrArg String.length h)) (String.lt_irrefl _)
  · exact he
  · exact absurd (h ▸ repr_lt_repr hlt (congrArg String.length h.symm)) (String.lt_irrefl _)

theorem list_lt_append {α : Type*} [LT α] {l₁ l₂ : List α} (h : l₁ < l₂) (m : List α) : l₁ < l₂ ++ m := by
  induction h with
  | nil => exact List.Lex.nil
  | rel hab => exact List.Lex.rel hab
  | cons _ ih => exact List.Lex.cons ih

/-- A positive number is written with a first digit above `0`. -/
theorem zero_lt_repr {n : ℕ} (h : 0 < n) : "0" < n.repr := by
  induction n using Nat.strong_induction_on with
  | _ n ih =>
    by_cases hn : n < 10
    · have hd : '0' < Nat.digitChar n := digitChar_lt n hn 0 h
      rw [Nat.repr_of_lt hn, String.lt_iff]
      simpa using List.Lex.rel hd
    · rw [Nat.repr_of_ge (by omega), String.lt_iff, String.toList_append]
      exact list_lt_append (String.lt_iff.1 (ih (n / 10) (by omega) (by omega))) _

/-- Before a separator that is below all that the second list has, the order is that of the lists. -/
theorem list_sep_lt {α : Type*} [LT α] {l₁ l₂ : List α} {sep : α} (h : l₁ < l₂) (hsep : ∀ a ∈ l₂, sep < a) (m₁ m₂ : List α) :
    l₁ ++ sep :: m₁ < l₂ ++ sep :: m₂ := by
  induction h with
  | nil => exact List.Lex.rel (hsep _ List.mem_cons_self)
  | rel hab => exact List.Lex.rel hab
  | cons _ ih => exact List.Lex.cons (ih fun a ha => hsep a (List.mem_cons_of_mem _ ha))

/-- Before a dot, decimals compare as they do alone. -/
theorem repr_dot_lt {a b : ℕ} (h : a.repr < b.repr) (u v : String) : a.repr ++ "." ++ u < b.repr ++ "." ++ v := by
  rw [String.lt_iff] at h ⊢
  simp only [String.toList_append, List.append_assoc]
  refine list_sep_lt h (fun c hc => ?_) _ _
  have hd : c.isDigit = true := by
    by_contra hd
    exact notMem_repr (Bool.not_eq_true _ ▸ hd) _ hc
  simp only [Char.isDigit, Bool.and_eq_true, decide_eq_true_eq] at hd
  exact Char.lt_def.2 (UInt32.lt_of_lt_of_le (by decide : '.'.val < '0'.val) hd.1)

theorem length_repr_eq {n k : ℕ} (h₁ : 10 ^ k ≤ n) (h₂ : n < 10 ^ (k + 1)) : n.repr.length = k + 1 := by
  have hle := (Nat.length_repr_le_iff (n := n) (k := k + 1) (by omega)).2 h₂
  rcases Nat.eq_zero_or_pos k with h0 | hk
  · subst h0; have := Nat.length_repr_pos (n := n); omega
  · have hge := (Nat.length_repr_le_iff (n := n) (k := k) hk).not.2 (by omega)
    omega

/-- The number whose digits are those of `a` followed by those of `b`, padded to width `w`. -/
def join (a w b : ℕ) : ℕ := a * 10 ^ max w b.repr.length + b

theorem repr_mul_pow_add {a b m : ℕ} (ha : 0 < a) (hb : b < 10 ^ m) :
    ∃ s, (a * 10 ^ m + b).repr = a.repr ++ s := by
  induction m generalizing b with
  | zero =>
    obtain rfl : b = 0 := by simpa using hb
    exact ⟨"", by simp⟩
  | succ m ih =>
    obtain ⟨s, hs⟩ := ih (b := b / 10) (by rw [pow_succ] at hb; omega)
    have hp : a * 10 ^ (m + 1) = a * 10 ^ m * 10 := by ring
    have hpos : 0 < a * 10 ^ m := Nat.mul_pos ha (Nat.pow_pos (by decide))
    have hdiv : (a * 10 ^ (m + 1) + b) / 10 = a * 10 ^ m + b / 10 := by omega
    rw [Nat.repr_of_ge (by omega), hdiv, hs, String.append_assoc]
    exact ⟨_, rfl⟩

/-- A number below the width is padded to it. -/
theorem join_of_lt {a w b : ℕ} (hw : 0 < w) (hb : b < 10 ^ w) : join a w b = a * 10 ^ w + b := by
  have hlen := (Nat.length_repr_le_iff hw).2 hb
  unfold join
  rw [max_eq_left hlen]

/-- **Joined numbers begin with the first.** -/
theorem repr_join {a : ℕ} (ha : 0 < a) (w b : ℕ) : ∃ s, (join a w b).repr = a.repr ++ s := by
  have hpos : 0 < max w b.repr.length := lt_max_of_lt_right Nat.length_repr_pos
  exact repr_mul_pow_add ha ((Nat.length_repr_le_iff hpos).1 (le_max_right _ _))

theorem le_join (a w b : ℕ) : a ≤ join a w b :=
  (Nat.le_mul_of_pos_right a (Nat.pow_pos (by decide))).trans (Nat.le_add_right _ _)

end Decimal
