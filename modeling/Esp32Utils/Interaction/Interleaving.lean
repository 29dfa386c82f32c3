import Esp32Utils.Interaction.CallDiscipline
import Esp32Utils.Interaction.CrashLogic
import Mathlib.Order.Defs.PartialOrder

/-! # Programs beside each other

A program that touches only its own part of the state runs, whatever others do to the rest, as
it would alone. A program that looks on learns from each answer what holds at that moment. -/
namespace InteractionInterleaving

open InteractionProgram InteractionCrash InteractionDiscipline

variable {I : Interface} {α σ χ M : Type} {env : Environment I χ σ}

section Alone

variable {Same : σ → σ → Prop} {P : I.Call → Prop} {Q : α → σ → Prop} {R : σ → Prop} {s s' : σ}

/-- Such calls answer alike in states that agree, and leave states that agree. -/
def Local (env : Environment I χ σ) (Same : σ → σ → Prop) (P : I.Call → Prop) : Prop :=
  ∀ c x s e, P c → Same s e → (env c x s).1 = (env c x e).1 ∧ Same (env c x s).2 (env c x e).2

/-- From a state that agrees with this one the program is safe when nothing else runs. -/
def Alone (env : Environment I χ σ) (Same : σ → σ → Prop) (P : I.Call → Prop) (Q : α → σ → Prop)
    (R : σ → Prop) (p : Program I α) (s : σ) : Prop :=
  Calls P p ∧ ∃ e, Same s e ∧ CrashSafe env Q R p e

theorem Alone.call {c : I.Call} {k : I.Resp c → Program I α} (hl : Local env Same P)
    (h : Alone env Same P Q R (.call c k) s) (x : χ) :
    Alone env Same P Q R (k (env c x s).1) (env c x s).2 := by
  obtain ⟨hcalls, e, hse, hsafe⟩ := h
  obtain ⟨hans, hsame⟩ := hl c x s e hcalls.1 hse
  rw [hans]
  exact ⟨hcalls.2 _, _, hsame, hsafe.2 x⟩

theorem Alone.beside {p : Program I α} (h : Alone env Same P Q R p s)
    (hs : ∀ e, Same s e → Same s' e) : Alone env Same P Q R p s' := by
  obtain ⟨hcalls, e, hse, hsafe⟩ := h
  exact ⟨hcalls, e, hs e hse, hsafe⟩

theorem Alone.now {p : Program I α} (h : Alone env Same P Q R p s) : ∃ e, Same s e ∧ R e := by
  obtain ⟨-, e, hse, hsafe⟩ := h
  exact ⟨e, hse, hsafe.now⟩

theorem Alone.done {a : α} (h : Alone env Same P Q R (.ret a) s) : ∃ e, Same s e ∧ Q a e := by
  obtain ⟨-, e, hse, hsafe⟩ := h
  exact ⟨e, hse, hsafe.2⟩

end Alone

section Onlookers

variable [Preorder M] {V : M → σ → Prop} {Q : α → M → Prop} {m m' : M}

/-- What is known grows while the program runs, and `V` holds of it in every state that a call
of the program meets. Then `Q` holds of the result and of what is known in the end. -/
def Learns (env : Environment I χ σ) (V : M → σ → Prop) (Q : α → M → Prop) :
    Program I α → M → Prop
  | .ret a, m => Q a m
  | .call c k, m => ∀ m', m ≤ m' → ∀ s, V m' s → ∀ x, Learns env V Q (k (env c x s).1) m'

theorem Learns.mono {p : Program I α} (h : Learns env V Q p m)
    (hQ : ∀ a m m', m ≤ m' → Q a m → Q a m') (hm : m ≤ m') : Learns env V Q p m' := by
  cases p with
  | ret a => exact hQ a m m' hm h
  | call c k => exact fun n hn => h n (le_trans hm hn)

theorem Learns.call {c : I.Call} {k : I.Resp c → Program I α} {s : σ}
    (h : Learns env V Q (.call c k) m) (hV : V m s) (x : χ) :
    Learns env V Q (k (env c x s).1) m :=
  h m le_rfl s hV x

theorem learns_of_forall {p : Program I α} (h : ∀ a m, Q a m) : Learns env V Q p m := by
  induction p generalizing m with
  | ret a => exact h a m
  | call c k ih => exact fun m' _ s _ x => ih _

theorem Learns.bind {β : Type} {p : Program I α} {f : α → Program I β} {Q : β → M → Prop}
    (h : Learns env V (fun a m => Learns env V Q (f a) m) p m) : Learns env V Q (p >>= f) m := by
  induction p generalizing m with
  | ret a => exact h
  | call c k ih => exact fun m' hm s hs x => ih _ (h m' hm s hs x)

end Onlookers

end InteractionInterleaving
