import Esp32Utils.Interaction.Program

/-! # Discipline of calls

Which calls a program makes: `Calls P p` whatever the answers are, `Always h P p s` when `h` runs
it from `s`, and `Keeps ts Q p m` by modes, where an answer leads from one mode to another. -/
namespace InteractionDiscipline

open InteractionProgram

variable {I : Interface} {α β σ M : Type}

section Runs

variable {h : Handler I σ} {P : I.Call → σ → Prop} {s : σ}

def Always (h : Handler I σ) (P : I.Call → σ → Prop) : Program I α → σ → Prop
  | .ret _, _ => True
  | .call c k, s => P c s ∧ Always h P (k (h c s).1) (h c s).2

@[simp] theorem always_ret (a : α) : Always h P (.ret a) s := trivial

@[simp] theorem always_perform (c : I.Call) : Always h P (perform c) s ↔ P c s := by
  simp [Always, perform]

theorem always_ite {b : Prop} [Decidable b] {p q : Program I α} (hp : b → Always h P p s)
    (hq : ¬ b → Always h P q s) : Always h P (if b then p else q) s := by
  by_cases hb : b
  · rw [if_pos hb]
    exact hp hb
  · rw [if_neg hb]
    exact hq hb

theorem always_bind {p : Program I α} {f : α → Program I β} :
    Always h P (p >>= f) s ↔ Always h P p s ∧ Always h P (f (p.run h s).1) (p.run h s).2 := by
  induction p generalizing s with
  | ret a => exact (iff_of_eq (true_and _)).symm
  | call c k ih =>
    change P c s ∧ Always h P (k (h c s).1 >>= f) (h c s).2 ↔ _
    rw [ih, ← and_assoc]
    rfl

theorem always_perform_pure (c : I.Call) (f : I.Resp c → α) :
    Always h P (do let r ← perform c; return f r) s ↔ P c s := by
  simp only [always_bind, always_perform, pure_eq_ret, always_ret, and_true]

end Runs

/-- The calls of a program satisfy a condition, whatever the answers are. -/
def Calls (P : I.Call → Prop) : Program I α → Prop
  | .ret _ => True
  | .call c k => P c ∧ ∀ r, Calls P (k r)

section Calls

variable {P : I.Call → Prop}

theorem Calls.of_forall (h : ∀ c, P c) (p : Program I α) : Calls P p := by
  induction p with
  | ret a => trivial
  | call c k ih => exact ⟨h c, ih⟩

theorem Calls.bind {p : Program I α} {f : α → Program I β} (hp : Calls P p)
    (hf : ∀ a, Calls P (f a)) : Calls P (p >>= f) := by
  induction p with
  | ret a => exact hf a
  | call c k ih => exact ⟨hp.1, fun r => ih r (hp.2 r)⟩

theorem Calls.retry {attempt : Program I Bool} (h : Calls P attempt) (n : ℕ) :
    Calls P (InteractionProgram.retry attempt n) := by
  induction n with
  | zero => trivial
  | succ n ih =>
    apply h.bind
    intro b
    cases b with
    | true => trivial
    | false => exact ih

theorem Calls.always {p : Program I α} {h : Handler I σ} {s : σ} (hp : Calls P p) :
    Always h (fun c _ => P c) p s := by
  induction p generalizing s with
  | ret a => trivial
  | call c k ih => exact ⟨hp.1, ih _ (hp.2 _)⟩

end Calls

section Modes

structure Typestate (I : Interface) (M : Type) where
  Allowed : M → I.Call → Prop
  Answers : (c : I.Call) → I.Resp c → Prop := fun _ _ => True
  next : M → (c : I.Call) → I.Resp c → M

variable {ts : Typestate I M} {Q : α → M → Prop} {m : M}

def Keeps (ts : Typestate I M) (Q : α → M → Prop) : Program I α → M → Prop
  | .ret a, m => Q a m
  | .call c k, m => ts.Allowed m c ∧ ∀ r, ts.Answers c r → Keeps ts Q (k r) (ts.next m c r)

theorem Keeps.mono {Q' : α → M → Prop} {p : Program I α} (h : Keeps ts Q p m)
    (hQ : ∀ a m, Q a m → Q' a m) : Keeps ts Q' p m := by
  induction p generalizing m with
  | ret a => exact hQ a m h
  | call c k ih => exact ⟨h.1, fun r hr => ih r (h.2 r hr)⟩

theorem Keeps.ite {b : Prop} [Decidable b] {p q : Program I α} (hp : b → Keeps ts Q p m)
    (hq : ¬ b → Keeps ts Q q m) : Keeps ts Q (if b then p else q) m := by
  by_cases hb : b
  · rw [if_pos hb]
    exact hp hb
  · rw [if_neg hb]
    exact hq hb

theorem Keeps.bind {p : Program I α} {f : α → Program I β} {Q : β → M → Prop}
    (h : Keeps ts (fun a m => Keeps ts Q (f a) m) p m) : Keeps ts Q (p >>= f) m := by
  induction p generalizing m with
  | ret a => exact h
  | call c k ih => exact ⟨h.1, fun r hr => ih r (h.2 r hr)⟩

end Modes

end InteractionDiscipline
