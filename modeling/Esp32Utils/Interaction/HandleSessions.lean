import Mathlib.Data.List.Induction

/-! # Sessions on handles

A log of what is done with handles, and when it uses only open handles and closes each of
them once. -/
namespace HandleSessions

variable {H : Type} [DecidableEq H]

inductive Access (H : Type) where
  | opened (k : H)
  | used (k : H)
  | closed (k : H)
  deriving DecidableEq

omit [DecidableEq H] in
def IsOpen (log : List (Access H)) (k : H) : Prop := .opened k ∈ log ∧ .closed k ∉ log

/-- Only open handles are used and closed. -/
def Live (log : List (Access H)) : Prop :=
  ∀ before a rest, log = before ++ a :: rest →
    ∀ k, a = .used k ∨ a = .closed k → IsOpen before k

omit [DecidableEq H] in
theorem live_nil : Live ([] : List (Access H)) := by
  intro before a rest h
  exact absurd h (by simp)

structure Balanced (log : List (Access H)) : Prop where
  live : Live log
  closed : ∀ k, .opened k ∈ log → log.count (.closed k) = 1

theorem balanced_nil : Balanced ([] : List (Access H)) where
  live := live_nil
  closed _ h := absurd h List.not_mem_nil

section Growing

variable {log : List (Access H)} {a : Access H} {j k : H}

omit [DecidableEq H] in
theorem Live.concat (h : Live log) (ha : ∀ k, a = .used k ∨ a = .closed k → IsOpen log k) :
    Live (log ++ [a]) := by
  intro before b rest hlog
  rcases List.eq_nil_or_concat rest with rfl | ⟨rest, c, rfl⟩
  · obtain ⟨rfl, rfl⟩ := List.append_singleton_inj.mp hlog
    exact ha
  · rw [List.concat_eq_append, ← List.cons_append, ← List.append_assoc] at hlog
    obtain ⟨rfl, -⟩ := List.append_singleton_inj.mp hlog
    exact h _ _ _ rfl

omit [DecidableEq H] in
theorem Live.of_concat (h : Live (log ++ [a])) : Live log := by
  intro before b rest hlog
  apply h before b (rest ++ [a])
  rw [hlog, List.append_assoc, List.cons_append]

omit [DecidableEq H] in
theorem Live.opened_of_closed (h : Live log) (hk : .closed k ∈ log) : .opened k ∈ log := by
  obtain ⟨before, rest, rfl⟩ := List.append_of_mem hk
  exact List.mem_append_left _ (h _ _ _ rfl k (Or.inr rfl)).1

theorem Live.closed_once (h : Live log) (k : H) : log.count (.closed k) ≤ 1 := by
  induction log using List.reverseRecOn with
  | nil => exact Nat.zero_le 1
  | append_singleton log a ih =>
    have hlog := ih h.of_concat
    by_cases ha : a = .closed k
    · obtain ⟨-, hclosed⟩ := h log a [] rfl k (Or.inr ha)
      rw [List.count_append, List.count_eq_zero_of_not_mem hclosed, Nat.zero_add]
      exact List.count_le_length
    · rw [List.count_append, List.count_singleton, if_neg (by simpa using ha)]
      exact hlog

theorem Live.balanced (h : Live log) (hclosed : ∀ k, ¬ IsOpen log k) : Balanced log where
  live := h
  closed k hk := by
    have hmem : .closed k ∈ log := by
      by_contra hmem
      exact hclosed k ⟨hk, hmem⟩
    have hpos := List.count_pos_iff.mpr hmem
    have hone := h.closed_once k
    omega

omit [DecidableEq H] in
theorem isOpen_opened (h : Live log) (hk : .opened k ∉ log) :
    IsOpen (log ++ [.opened k]) j ↔ j = k ∨ IsOpen log j := by
  have hclosed : .closed k ∉ log := fun hc => hk (h.opened_of_closed hc)
  simp only [IsOpen, List.mem_append, List.mem_singleton, Access.opened.injEq, reduceCtorEq,
    or_false]
  constructor
  · rintro ⟨hj | hj, hc⟩
    · exact Or.inr ⟨hj, hc⟩
    · exact Or.inl hj
  · rintro (rfl | ⟨hj, hc⟩)
    · exact ⟨Or.inr rfl, hclosed⟩
    · exact ⟨Or.inl hj, hc⟩

omit [DecidableEq H] in
theorem isOpen_used : IsOpen (log ++ [.used k]) j ↔ IsOpen log j := by
  simp [IsOpen]

omit [DecidableEq H] in
theorem isOpen_closed : IsOpen (log ++ [.closed k]) j ↔ j ≠ k ∧ IsOpen log j := by
  simp only [IsOpen, List.mem_append, List.mem_singleton, Access.closed.injEq, reduceCtorEq,
    or_false, not_or]
  constructor
  · rintro ⟨hj, hc, hne⟩
    exact ⟨hne, hj, hc⟩
  · rintro ⟨hne, hj, hc⟩
    exact ⟨hj, hc, hne⟩

end Growing

def session (k : H) (n : ℕ) : List (Access H) :=
  .opened k :: (List.replicate n (.used k) ++ [.closed k])

section Session

variable {j k : H}

omit [DecidableEq H] in
theorem isOpen_uses {n : ℕ} : IsOpen (.opened k :: List.replicate n (.used k)) j ↔ j = k := by
  simp [IsOpen, List.mem_replicate]

omit [DecidableEq H] in
theorem live_uses (k : H) (n : ℕ) : Live (.opened k :: List.replicate n (.used k)) := by
  induction n with
  | zero =>
    apply live_nil.concat (a := .opened k)
    rintro j (hj | hj) <;> cases hj
  | succ n ih =>
    rw [List.replicate_succ', ← List.cons_append]
    apply ih.concat
    intro j hj
    obtain rfl : k = j := by simpa using hj
    exact isOpen_uses.mpr rfl

theorem balanced_session (k : H) (n : ℕ) : Balanced (session k n) := by
  have hlive : Live ((.opened k :: List.replicate n (.used k)) ++ [.closed k]) := by
    apply (live_uses k n).concat
    intro j hj
    obtain rfl : k = j := by simpa using hj
    exact isOpen_uses.mpr rfl
  apply hlive.balanced
  intro j hj
  obtain ⟨hne, hopen⟩ := isOpen_closed.mp hj
  exact hne (isOpen_uses.mp hopen)

end Session

end HandleSessions
