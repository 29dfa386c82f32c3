import Esp32Utils.Interaction.CallDiscipline
import Esp32Utils.Interaction.CrashLogic
import Mathlib.Tactic.Basic

/-! # Layers

An implementation gives each call of one interface as a program over another. A program above
then runs below, and what it may do there it may do above, when each call's program answers
and leaves what the environment above may. Two machines over the same operations answer alike
when a relation between their states holds at the start and is kept by every operation. -/
namespace InteractionLayers

open InteractionProgram InteractionCrash InteractionDiscipline

variable {I J : Interface} {α β σ τ χ ψ : Type}

abbrev Implementation (I J : Interface) := (c : I.Call) → Program J (I.Resp c)

def lowered (impl : Implementation I J) : Program I α → Program J α
  | .ret a => .ret a
  | .call c k => impl c >>= fun r => lowered impl (k r)

section Handlers

theorem run_lowered {impl : Implementation I J} {h : Handler J σ} (p : Program I α) (s : σ) :
    (lowered impl p).run h s = p.run (fun c => (impl c).run h) s := by
  induction p generalizing s with
  | ret a => rfl
  | call c k ih =>
    rw [lowered, run_bind, ih]
    rfl

/-- Handlers that answer the calls of a program alike give it the same result. -/
theorem run_related {g : Handler I τ} {h : Handler I σ} {R : τ → σ → Prop}
    {P : I.Call → σ → Prop}
    (hstep : ∀ c s t, P c t → R s t → (g c s).1 = (h c t).1 ∧ R (g c s).2 (h c t).2)
    {p : Program I α} {s : τ} {t : σ} (hp : Always h P p t) (hR : R s t) :
    (p.run g s).1 = (p.run h t).1 ∧ R (p.run g s).2 (p.run h t).2 := by
  induction p generalizing s t with
  | ret a => exact ⟨rfl, hR⟩
  | call c k ih =>
    obtain ⟨hans, hrel⟩ := hstep c s t hp.1 hR
    change ((k (g c s).1).run g (g c s).2).1 = _ ∧ R ((k (g c s).1).run g (g c s).2).2 _
    rw [hans]
    exact ih _ hp.2 hrel

end Handlers

section Environments

variable {low : Environment J ψ τ} {impl : Implementation I J} {high : Environment I χ σ}
  {P : I.Call → Prop} {R : τ → σ → Prop} {s s' : τ} {t : σ} {a : α}

def Leaves (high : Environment I χ σ) (R : τ → σ → Prop) (c : I.Call) (t : σ) (s' : τ) : Prop :=
  ∃ x, R s' (high c x t).2

/-- What a call's program returns and leaves is an answer of the environment above. Cut off,
it has left the state as it was or as that environment may. -/
def Refines (low : Environment J ψ τ) (impl : Implementation I J) (high : Environment I χ σ)
    (P : I.Call → Prop) (R : τ → σ → Prop) : Prop :=
  ∀ c s t, P c → R s t →
    CrashSafe low (fun a s' => ∃ x, (high c x t).1 = a ∧ R s' (high c x t).2)
      (fun s' => R s' t ∨ Leaves high R c t s') (impl c) s

theorem may_call {c : I.Call} {k : I.Resp c → Program I α} {x : χ} {t' : σ}
    (h : May high (k (high c x t).1) (high c x t).2 a t') : May high (.call c k) t a t' := by
  obtain ⟨xs, h⟩ := h
  exact ⟨x :: xs, x, xs, rfl, h⟩

theorem Refines.may (h : Refines low impl high P R) {p : Program I α} (hp : Calls P p)
    (hR : R s t) (hm : May low (lowered impl p) s a s') : ∃ t', May high p t a t' ∧ R s' t' := by
  induction p generalizing s t with
  | ret b =>
    obtain ⟨rfl, rfl⟩ := may_ret.mp hm
    exact ⟨t, may_ret.mpr ⟨rfl, rfl⟩, hR⟩
  | call c k ih =>
    obtain ⟨r, u, hc, hk⟩ := may_bind.mp hm
    obtain ⟨x, rfl, hRu⟩ := (h c s t hp.1 hR).post hc
    obtain ⟨t', ht, hRt⟩ := ih _ (hp.2 _) hRu hk
    exact ⟨t', may_call ht, hRt⟩

theorem cut_bind {p : Program J α} {f : α → Program J β} (hc : Cut low (p >>= f) s s') :
    Cut low p s s' ∨ ∃ a u, May low p s a u ∧ Cut low (f a) u s' := by
  induction p generalizing s with
  | ret a => exact Or.inr ⟨a, s, may_ret.mpr ⟨rfl, rfl⟩, hc⟩
  | call c k ih =>
    cases hc with
    | before => exact Or.inl (.before _ _)
    | during => exact Or.inl (.during _ _ _ _)
    | later hc =>
      rcases ih _ hc with hc | ⟨a, u, hm, hc⟩
      · exact Or.inl (.later hc)
      · exact Or.inr ⟨a, u, may_call hm, hc⟩

/-- Wherever a program is cut off below, it may be cut off above with the same left. -/
theorem Refines.cut (h : Refines low impl high P R) {p : Program I α} (hp : Calls P p)
    (hR : R s t) (hc : Cut low (lowered impl p) s s') : ∃ t', Cut high p t t' ∧ R s' t' := by
  induction p generalizing s t with
  | ret b =>
    cases hc with
    | before => exact ⟨t, .before _ _, hR⟩
  | call c k ih =>
    rcases cut_bind hc with hc | ⟨r, u, hm, hc⟩
    · rcases (h c s t hp.1 hR).cut hc with hR' | ⟨x, hR'⟩
      · exact ⟨t, .before _ _, hR'⟩
      · exact ⟨_, .during c k x t, hR'⟩
    · obtain ⟨x, rfl, hRu⟩ := (h c s t hp.1 hR).post hm
      obtain ⟨t', ht, hRt⟩ := ih _ (hp.2 _) hRu hc
      exact ⟨t', .later ht, hRt⟩

theorem Refines.ends (h : Refines low impl high P R) {p : Program I α} {r : Option α}
    (hp : Calls P p) (hR : R s t) (he : Ends low (lowered impl p) s r s') :
    ∃ t', Ends high p t r t' ∧ R s' t' := by
  cases r with
  | none => exact h.cut hp hR he
  | some a => exact h.may hp hR he

/-- What each call's program restores when it returns, a program over them restores, and
what holds wherever one of them is cut off holds wherever the program is. -/
theorem lowered_safe {S T : τ → Prop}
    (himpl : ∀ c s, P c → S s → CrashSafe low (fun _ t => S t) T (impl c) s)
    (hnow : ∀ s, S s → T s) {p : Program I α} (hp : Calls P p) (hs : S s) :
    CrashSafe low (fun _ t => S t) T (lowered impl p) s := by
  induction p generalizing s with
  | ret a => exact ⟨hnow s hs, hs⟩
  | call c k ih =>
    apply CrashSafe.bind
    exact (himpl c s hp.1 hs).mono fun r t _ ht => ih r (hp.2 r) ht

end Environments

end InteractionLayers

namespace ObservationalRefinement

structure Machine (Op Out : Type) where
  State : Type
  start : State
  step : Op → State → Out × State

variable {Op Out : Type}

def Machine.answers (m : Machine Op Out) : List Op → m.State → List Out
  | [], _ => []
  | op :: ops, s => (m.step op s).1 :: m.answers ops (m.step op s).2

def Machine.observe (m : Machine Op Out) (ops : List Op) : List Out := m.answers ops m.start

def Machine.after (m : Machine Op Out) (ops : List Op) : m.State :=
  ops.foldl (fun s op => (m.step op s).2) m.start

structure Simulation (c a : Machine Op Out) where
  related : c.State → a.State → Prop
  start : related c.start a.start
  step : ∀ op s t, related s t →
    (c.step op s).1 = (a.step op t).1 ∧ related (c.step op s).2 (a.step op t).2

theorem Simulation.answers_eq {c a : Machine Op Out} (sim : Simulation c a)
    {s : c.State} {t : a.State} (h : sim.related s t) (ops : List Op) :
    c.answers ops s = a.answers ops t := by
  induction ops generalizing s t with
  | nil => rfl
  | cons op ops ih =>
    obtain ⟨ho, hr⟩ := sim.step op s t h
    simp only [Machine.answers, ho, ih hr]

theorem Simulation.observe_eq {c a : Machine Op Out} (sim : Simulation c a) :
    c.observe = a.observe :=
  funext fun ops => sim.answers_eq sim.start ops

section Translation

variable {Op' : Type} {c : Machine Op Out} {a : Machine Op' Out} {translate : Op → Op'}
  {P : Op → Prop} {R : c.State → a.State → Prop}

theorem answers_translated
    (hstep : ∀ op s t, P op → R s t → (c.step op s).1 = (a.step (translate op) t).1 ∧
      R (c.step op s).2 (a.step (translate op) t).2)
    {ops : List Op} (hops : ∀ op ∈ ops, P op) {s : c.State} {t : a.State} (h : R s t) :
    c.answers ops s = a.answers (ops.map translate) t ∧
      ∃ t', R (ops.foldl (fun s op => (c.step op s).2) s) t' := by
  induction ops generalizing s t with
  | nil => exact ⟨rfl, t, h⟩
  | cons op ops ih =>
    obtain ⟨hans, hrel⟩ := hstep op s t (hops op List.mem_cons_self) h
    obtain ⟨hrest, hend⟩ := ih (fun op hop => hops op (List.mem_cons_of_mem _ hop)) hrel
    exact ⟨by simp only [Machine.answers, List.map_cons, hans, hrest], hend⟩

end Translation

end ObservationalRefinement
