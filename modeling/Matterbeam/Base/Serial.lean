import Mathlib.Data.List.Induction
import Mathlib.Data.Nat.Notation
import Mathlib.Order.Nat
import Mathlib.Tactic.Common

/-!
# Sections behind a lock

A datum is behind a lock: only the section that holds the lock changes it, in many small
steps, and others make theirs in between. When a section, from where it takes the lock to
where it leaves it, makes of the datum what one job makes of it in one go, a run is a
sequence of whole jobs.

* `run`: the datum after a list of jobs.
* `Turn`: what one step of a run may do to the datum and to the lock.
* `exists_history`: **a run is serial**: whenever the lock is free, the datum is what the
  jobs that are over make of the first one, in the order in which they left the lock, and
  each job was answered as it is in that order.
-/

namespace Serial

variable {σ ρ ι l : Type*}

/-! ## Jobs, one after another -/

/-- The datum after the jobs, one after another. -/
def run (serve : ι → σ → σ × ρ) (js : List ι) (s : σ) : σ := js.foldl (fun s j => (serve j s).1) s

variable {serve : ι → σ → σ × ρ}

@[simp] theorem run_nil (s : σ) : run serve [] s = s := rfl

theorem run_append (js js' : List ι) (s : σ) : run serve (js ++ js') s = run serve js' (run serve js s) := by
  unfold run
  rw [List.foldl_append]

theorem run_concat (js : List ι) (j : ι) (s : σ) : run serve (js ++ [j]) s = (serve j (run serve js s)).1 :=
  run_append js [j] s

/-! ## Histories -/

/-- The jobs of a history that were over before `n`. A history lists jobs, each with the time at
which it was over. -/
def before (h : List (ℕ × ι)) (n : ℕ) : List ι := (h.filter fun x => x.1 < n).map Prod.snd

theorem before_concat_of_le (h : List (ℕ × ι)) {m n : ℕ} (j : ι) (hn : n ≤ m) :
    before (h ++ [(m, j)]) n = before h n := by
  unfold before
  rw [List.filter_append]
  simp [Nat.not_lt.2 hn]

theorem before_concat_of_lt (h : List (ℕ × ι)) {m n : ℕ} (j : ι) (hn : m < n) :
    before (h ++ [(m, j)]) n = before h n ++ [j] := by
  unfold before
  rw [List.filter_append]
  simp [hn]

/-- Nothing is over between the last job and now. -/
theorem before_of_bound {h : List (ℕ × ι)} {m n : ℕ} (hb : ∀ x ∈ h, x.1 < m) (hn : m ≤ n) : before h n = before h m := by
  unfold before
  rw [List.filter_congr fun x hx => ?_]
  have hlt := hb x hx
  simp [hlt, hlt.trans_le hn]

/-- What one step of a run may do to the datum `d` and to the lock, which is free or held by a
section in the local state `l`. `Doing d₀ d l` says that a section that found the datum `d₀`
has made it `d` and is in `l` now. -/
inductive Turn (serve : ι → σ → σ × ρ) (Doing : σ → σ → l → Prop) (Over : ι → ρ → Prop) :
    σ → Option l → σ → Option l → Prop
  | idle {d : σ} {o : Option l} : Turn serve Doing Over d o d o
  | take {d : σ} {x : l} (h : Doing d d x) : Turn serve Doing Over d none d (some x)
  | work {d d' : σ} {x x' : l} (h : ∀ d₀, Doing d₀ d x → Doing d₀ d' x') :
      Turn serve Doing Over d (some x) d' (some x')
  | leave {d : σ} {x : l} (h : ∀ d₀, Doing d₀ d x → ∃ j, (serve j d₀).1 = d ∧ Over j (serve j d₀).2) :
      Turn serve Doing Over d (some x) d none

/-- A serial history of the first `N` steps of a run. -/
structure History (serve : ι → σ → σ × ρ) (Over : ℕ → ι → ρ → Prop) (data : ℕ → σ) (lock : ℕ → Option l) (N : ℕ)
    (h : List (ℕ × ι)) : Prop where
  /-- The jobs are over one after another. -/
  order : h.Pairwise fun x y => x.1 < y.1
  bound : ∀ x ∈ h, x.1 < N
  /-- Each job was answered as it is in the serial order. -/
  ended : ∀ x ∈ h, Over x.1 x.2 (serve x.2 (run serve (before h x.1) (data 0))).2
  /-- Every section that left the lock is there. -/
  whole : ∀ m < N, lock m ≠ none → lock (m + 1) = none → ∃ j, (m, j) ∈ h
  /-- Whenever the lock is free, the datum is what the jobs made of it. -/
  data : ∀ n ≤ N, lock n = none → data n = run serve (before h n) (data 0)

section

variable {Doing : σ → σ → l → Prop} {Over : ℕ → ι → ρ → Prop} {data : ℕ → σ} {lock : ℕ → Option l} {N : ℕ}

/-- A step that leaves no lock. -/
theorem History.same {h : List (ℕ × ι)} (H : History serve Over data lock N h)
    (hwhole : lock N ≠ none → lock (N + 1) ≠ none) (hdata : lock (N + 1) = none → lock N = none ∧ data (N + 1) = data N) :
    History serve Over data lock (N + 1) h where
  order := H.order
  bound x hx := Nat.lt_succ_of_lt (H.bound x hx)
  ended := H.ended
  whole m hm hl hl' := by
    rcases Nat.lt_succ_iff_lt_or_eq.1 hm with hm | rfl
    · exact H.whole m hm hl hl'
    · exact absurd hl' (hwhole hl)
  data n hn hl := by
    rcases Nat.le_succ_iff.1 hn with hn | rfl
    · exact H.data n hn hl
    · obtain ⟨hl', hd⟩ := hdata hl
      rw [hd, H.data N le_rfl hl', before_of_bound H.bound (Nat.le_succ N)]

/-- A step at which a job is over. -/
theorem History.concat {h : List (ℕ × ι)} (H : History serve Over data lock N h) {j : ι}
    (hj : (serve j (run serve (before h N) (data 0))).1 = data (N + 1))
    (hover : Over N j (serve j (run serve (before h N) (data 0))).2) :
    History serve Over data lock (N + 1) (h ++ [(N, j)]) where
  order := by
    refine List.pairwise_append.2 ⟨H.order, List.pairwise_singleton _ _, fun x hx y hy => ?_⟩
    rw [List.mem_singleton.1 hy]
    exact H.bound x hx
  bound x hx := by
    rcases List.mem_append.1 hx with hx | hx
    · exact Nat.lt_succ_of_lt (H.bound x hx)
    · rw [List.mem_singleton.1 hx]
      exact Nat.lt_succ_self N
  ended x hx := by
    rcases List.mem_append.1 hx with hx | hx
    · rw [before_concat_of_le _ _ (H.bound x hx).le]
      exact H.ended x hx
    · rw [List.mem_singleton.1 hx, before_concat_of_le _ _ le_rfl]
      exact hover
  whole m hm hl hl' := by
    rcases Nat.lt_succ_iff_lt_or_eq.1 hm with hm | rfl
    · obtain ⟨j', hj'⟩ := H.whole m hm hl hl'
      exact ⟨j', List.mem_append_left _ hj'⟩
    · exact ⟨j, by simp⟩
  data n hn hl := by
    rcases Nat.le_succ_iff.1 hn with hn | rfl
    · rw [before_concat_of_le _ _ hn]
      exact H.data n hn hl
    · rw [before_concat_of_lt _ _ (Nat.lt_succ_self N), before_of_bound H.bound (Nat.le_succ N), run_concat, hj]

/-- **A run is serial.** -/
theorem exists_history (h0 : lock 0 = none)
    (hturn : ∀ n < N, Turn serve Doing (Over n) (data n) (lock n) (data (n + 1)) (lock (n + 1))) :
    ∃ h, History serve Over data lock N h := by
  -- a section that holds the lock found the datum that the jobs before it left
  suffices H : ∃ h, History serve Over data lock N h ∧
      ∀ x, lock N = some x → Doing (run serve (before h N) (data 0)) (data N) x by
    obtain ⟨h, hh, -⟩ := H
    exact ⟨h, hh⟩
  induction N with
  | zero =>
    refine ⟨[], ⟨List.Pairwise.nil, by simp, by simp, by omega, fun n hn _ => ?_⟩, fun x hx => ?_⟩
    · obtain rfl : n = 0 := by omega
      rfl
    · rw [h0] at hx
      cases hx
  | succ N ih =>
    obtain ⟨h, H, hdoing⟩ := ih fun n hn => hturn n (by omega)
    have hturn := hturn N (by omega)
    have hbefore : before h (N + 1) = before h N := before_of_bound H.bound (Nat.le_succ N)
    generalize hd : data N = d at hturn hdoing
    generalize hd' : data (N + 1) = d' at hturn
    generalize hl : lock N = o at hturn hdoing
    generalize hl' : lock (N + 1) = o' at hturn
    cases hturn with
    | idle =>
      refine ⟨h, H.same (by rw [hl, hl']; exact id) (by rw [hl, hl', hd, hd']; exact fun h => ⟨h, rfl⟩), ?_⟩
      rw [hbefore]
      exact hdoing
    | take ht =>
      refine ⟨h, H.same (by rw [hl]; simp) (by rw [hl']; simp), fun x hx => ?_⟩
      cases hx
      rw [hbefore, ← H.data N le_rfl hl, hd]
      exact ht
    | work hw =>
      refine ⟨h, H.same (by rw [hl']; simp) (by rw [hl']; simp), fun x hx => ?_⟩
      cases hx
      rw [hbefore]
      exact hw _ (hdoing _ rfl)
    | leave hv =>
      obtain ⟨j, hj, hover⟩ := hv _ (hdoing _ rfl)
      refine ⟨h ++ [(N, j)], H.concat (hj.trans hd'.symm) hover, fun x hx => ?_⟩
      cases hx

end

end Serial
