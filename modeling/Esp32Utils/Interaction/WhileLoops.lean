import Mathlib.Data.Nat.Basic

/-! # While loops

A loop is a condition and a body that may fail. A run of it has a bound on its iterations, and
a loop ends in a state when some run does. -/
namespace WhileLoops

/-- The body is for states that meet the condition; `none` is undefined behaviour. -/
structure Loop (σ : Type) where
  condition : σ → Bool
  body : σ → Option σ

variable {σ : Type} {L : Loop σ} {s t u : σ} {n m : ℕ}

/-- The state behind the loop; `none` when the body fails or the bound is used up. -/
def Loop.run (L : Loop σ) : ℕ → σ → Option σ
  | 0, s => if L.condition s then none else some s
  | n + 1, s => if L.condition s then (L.body s).bind (L.run n) else some s

def Loop.Ends (L : Loop σ) (s t : σ) : Prop := ∃ n, L.run n s = some t

theorem run_exit (h : L.condition s = false) : L.run n s = some s := by
  cases n with
  | zero => simp [Loop.run, h]
  | succ n => simp [Loop.run, h]

theorem run_step (h : L.condition s = true) (hb : L.body s = some u) :
    L.run (n + 1) s = L.run n u := by
  rw [Loop.run, if_pos h, hb, Option.bind_some]

theorem run_succ (h : L.run n s = some t) : L.run (n + 1) s = some t := by
  induction n generalizing s with
  | zero =>
    by_cases hc : L.condition s = true
    · simp [Loop.run, hc] at h
    · rw [Bool.not_eq_true] at hc
      rw [run_exit hc] at h ⊢
      exact h
  | succ n ih =>
    by_cases hc : L.condition s = true
    · cases hb : L.body s with
      | none => simp [Loop.run, hc, hb] at h
      | some u =>
        rw [run_step hc hb] at h ⊢
        exact ih h
    · rw [Bool.not_eq_true] at hc
      rw [run_exit hc] at h ⊢
      exact h

theorem run_mono (hnm : n ≤ m) (h : L.run n s = some t) : L.run m s = some t := by
  induction hnm with
  | refl => exact h
  | step _ ih => exact run_succ ih

theorem Loop.Ends.unique (ht : L.Ends s t) (hu : L.Ends s u) : t = u := by
  obtain ⟨n, hn⟩ := ht
  obtain ⟨m, hm⟩ := hu
  have hn' := run_mono (Nat.le_max_left n m) hn
  rw [run_mono (Nat.le_max_right n m) hm] at hn'
  exact (Option.some.inj hn').symm

/-- The rule for total correctness: a body that keeps the invariant and lowers the measure ends
within the measure. -/
theorem run_of_measure (I : σ → Prop) (μ : σ → ℕ)
    (hbody : ∀ s, I s → L.condition s = true → ∃ u, L.body s = some u ∧ I u ∧ μ u < μ s)
    (hs : I s) (hn : μ s ≤ n) : ∃ t, L.run n s = some t ∧ I t ∧ L.condition t = false := by
  induction n generalizing s with
  | zero =>
    by_cases hc : L.condition s = true
    · obtain ⟨u, -, -, hlt⟩ := hbody s hs hc
      omega
    · rw [Bool.not_eq_true] at hc
      exact ⟨s, run_exit hc, hs, hc⟩
  | succ n ih =>
    by_cases hc : L.condition s = true
    · obtain ⟨u, hu, hI, hlt⟩ := hbody s hs hc
      rw [run_step hc hu]
      exact ih hI (by omega)
    · rw [Bool.not_eq_true] at hc
      exact ⟨s, run_exit hc, hs, hc⟩

end WhileLoops
