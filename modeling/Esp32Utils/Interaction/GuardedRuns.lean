import Mathlib.Data.List.Induction

/-! # Runs of a system whose steps meet a condition

A system takes one enabled step at a time, in any order. `Reached P h s`: the steps `h`
lead to `s`, each of them meeting the condition `P` where it is taken. -/
namespace GuardedRuns

structure System (State Event : Type) where
  initial : State
  Enabled : State → Event → Prop
  next : State → Event → State

variable {State Event : Type} {sys : System State Event} {P Q : State → Event → Prop}
  {h : List Event} {s : State}

inductive System.Reached (sys : System State Event) (P : State → Event → Prop) :
    List Event → State → Prop where
  | init : sys.Reached P [] sys.initial
  | step {h s e} : sys.Reached P h s → sys.Enabled s e → P s e →
      sys.Reached P (h ++ [e]) (sys.next s e)

abbrev System.Run (sys : System State Event) : List Event → State → Prop :=
  sys.Reached fun _ _ => True

/-- What holds at first and is kept by every step that meets the condition holds in every
state that such steps lead to. -/
theorem System.Reached.invariant {I : State → Prop} (hr : sys.Reached P h s) (hinit : I sys.initial)
    (hstep : ∀ s e, I s → sys.Enabled s e → P s e → I (sys.next s e)) : I s := by
  induction hr with
  | init => exact hinit
  | step _ he hp ih => exact hstep _ _ ih he hp

theorem System.Reached.mono (hr : sys.Reached P h s) (hPQ : ∀ s e, P s e → Q s e) :
    sys.Reached Q h s := by
  induction hr with
  | init => exact .init
  | step _ he hp ih => exact .step ih he (hPQ _ _ hp)

def System.Follows (sys : System State Event) (P : State → Event → Prop) :
    State → List Event → Prop
  | _, [] => True
  | s, e :: h => sys.Enabled s e ∧ P s e ∧ sys.Follows P (sys.next s e) h

instance decidableFollows [∀ s e, Decidable (sys.Enabled s e)] [∀ s e, Decidable (P s e)] :
    ∀ s h, Decidable (sys.Follows P s h)
  | _, [] => inferInstanceAs (Decidable True)
  | s, e :: h =>
    have := decidableFollows (sys.next s e) h
    inferInstanceAs (Decidable (_ ∧ _ ∧ _))

theorem System.Reached.follows {h' : List Event} (hr : sys.Reached P h s)
    (hf : sys.Follows P s h') : sys.Reached P (h ++ h') (h'.foldl sys.next s) := by
  induction h' generalizing h s with
  | nil =>
    rw [List.append_nil]
    exact hr
  | cons e h' ih =>
    obtain ⟨he, hp, hrest⟩ := hf
    rw [List.append_cons]
    exact ih (hr.step he hp) hrest

/-- A rank that no step raises and that each step of a kind lowers bounds how many of that
kind can follow. -/
theorem System.Follows.work_bounded {I : State → Prop} {rank : State → ℕ} {work : Event → Bool}
    (hstep : ∀ s e, I s → sys.Enabled s e → P s e → I (sys.next s e))
    (hrank : ∀ s e, I s → sys.Enabled s e → P s e →
      rank (sys.next s e) + (if work e then 1 else 0) ≤ rank s)
    {h' : List Event} (hs : I s) (hf : sys.Follows P s h') :
    I (h'.foldl sys.next s) ∧ h'.countP work + rank (h'.foldl sys.next s) ≤ rank s := by
  induction h' generalizing s with
  | nil => exact ⟨hs, by simp⟩
  | cons e h' ih =>
    obtain ⟨he, hp, hrest⟩ := hf
    obtain ⟨hend, hcount⟩ := ih (hstep s e hs he hp) hrest
    have hone := hrank s e hs he hp
    refine ⟨hend, ?_⟩
    rw [List.countP_cons, List.foldl_cons]
    omega

end GuardedRuns
