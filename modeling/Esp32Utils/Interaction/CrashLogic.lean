import Esp32Utils.Interaction.Program

/-! # Weakest preconditions with a crash condition

An environment may stop answering at any call. `CrashSafe` asks for a condition in
every state the program may be cut off in, beside a postcondition for the executions
that return. Its rules follow the program: sequencing and bounded retry. -/
namespace InteractionCrash

open InteractionProgram

variable {I : Interface} {α β σ χ : Type} {env : Environment I χ σ}

def May (env : Environment I χ σ) (p : Program I α) (s : σ) (a : α) (t : σ) : Prop :=
  ∃ xs, p.Plays env s xs a t

theorem may_bind {p : Program I α} {f : α → Program I β} {s t : σ} {b : β} :
    May env (p >>= f) s b t ↔ ∃ a u, May env p s a u ∧ May env (f a) u b t := by
  unfold May
  simp only [plays_bind]
  constructor
  · intro h
    obtain ⟨-, ys, zs, a, u, -, hp, hf⟩ := h
    exact ⟨a, u, ⟨ys, hp⟩, zs, hf⟩
  · intro h
    obtain ⟨a, u, ⟨ys, hp⟩, zs, hf⟩ := h
    exact ⟨ys ++ zs, ys, zs, a, u, rfl, hp, hf⟩

theorem may_guard {p : Program I Bool} {f : Program I α} {s t : σ} {a b : α} :
    May env (p >>= fun r => if r = false then pure a else f) s b t ↔
      (May env p s false t ∧ b = a) ∨ ∃ u, May env p s true u ∧ May env f u b t := by
  rw [may_bind]
  constructor
  · intro h
    obtain ⟨r, u, hp, h⟩ := h
    cases r with
    | true => exact Or.inr ⟨u, hp, h⟩
    | false =>
      obtain ⟨-, -, rfl, rfl⟩ := h
      exact Or.inl ⟨hp, rfl⟩
  · intro h
    rcases h with ⟨hp, rfl⟩ | ⟨u, hp, hf⟩
    · exact ⟨false, t, hp, [], rfl, rfl, rfl⟩
    · exact ⟨true, u, hp, hf⟩

theorem may_ret {s t : σ} {a b : α} :
    May env (Program.ret a : Program I α) s b t ↔ a = b ∧ s = t := by
  constructor
  · intro h
    obtain ⟨xs, -, rfl, rfl⟩ := h
    exact ⟨rfl, rfl⟩
  · intro h
    obtain ⟨rfl, rfl⟩ := h
    exact ⟨[], rfl, rfl, rfl⟩

/-- Every execution the environment allows is that of some script. -/
theorem may_iff_runScript {p : Program I α} {s t : σ} {a : α} [Nonempty χ] :
    May env p s a t ↔ ∃ script, p.runScript env script s = (a, t) := by
  simp only [runScript_eq_iff]
  constructor
  · intro h
    obtain ⟨xs, h⟩ := h
    exact ⟨xs ++ₛ Stream'.const (Classical.arbitrary χ), xs, _, rfl, h⟩
  · intro h
    obtain ⟨-, xs, -, -, h⟩ := h
    exact ⟨xs, h⟩

/-- The execution stops before a call, or inside one whose answer never arrives. -/
inductive Cut (env : Environment I χ σ) : Program I α → σ → σ → Prop where
  | before (p s) : Cut env p s s
  | during (c k x s) : Cut env (.call c k) s (env c x s).2
  | later {c k x s t} : Cut env (k (env c x s).1) (env c x s).2 t → Cut env (.call c k) s t

def CrashSafe (env : Environment I χ σ) (Q : α → σ → Prop) (R : σ → Prop) :
    Program I α → σ → Prop
  | .ret a, s => R s ∧ Q a s
  | .call c k, s => R s ∧ ∀ x, CrashSafe env Q R (k (env c x s).1) (env c x s).2

variable {Q : α → σ → Prop} {R : σ → Prop} {s t : σ}

theorem CrashSafe.now {p : Program I α} (h : CrashSafe env Q R p s) : R s := by
  cases p with
  | ret a => exact h.1
  | call c k => exact h.1

theorem CrashSafe.post {p : Program I α} {a : α} (h : CrashSafe env Q R p s)
    (hm : May env p s a t) : Q a t := by
  obtain ⟨xs, hp⟩ := hm
  induction p generalizing s xs with
  | ret b =>
    obtain ⟨-, rfl, rfl⟩ := hp
    exact h.2
  | call c k ih =>
    obtain ⟨x, ys, -, hp⟩ := hp
    exact ih _ (h.2 x) ys hp

theorem CrashSafe.cut {p : Program I α} (h : CrashSafe env Q R p s) (hc : Cut env p s t) :
    R t := by
  induction hc with
  | before p s => exact h.now
  | during c k x s => exact (h.2 x).now
  | later _ ih => exact ih (h.2 _)

theorem CrashSafe.bind {p : Program I α} {f : α → Program I β} {Q : β → σ → Prop}
    (h : CrashSafe env (fun a t => CrashSafe env Q R (f a) t) R p s) :
    CrashSafe env Q R (p >>= f) s := by
  induction p generalizing s with
  | ret a => exact h.2
  | call c k ih => exact ⟨h.1, fun x => ih _ (h.2 x)⟩

theorem CrashSafe.mono {p : Program I α} {Q' : α → σ → Prop} (h : CrashSafe env Q R p s)
    (hq : ∀ a t, R t → Q a t → Q' a t) : CrashSafe env Q' R p s := by
  induction p generalizing s with
  | ret a => exact ⟨h.1, hq a s h.1 h.2⟩
  | call c k ih => exact ⟨h.1, fun x => ih _ (h.2 x)⟩

theorem CrashSafe.weaken {p : Program I α} {R' : σ → Prop} (h : CrashSafe env Q R p s)
    (hr : ∀ t, R t → R' t) : CrashSafe env Q R' p s := by
  induction p generalizing s with
  | ret a => exact ⟨hr s h.1, h.2⟩
  | call c k ih => exact ⟨hr s h.1, fun x => ih _ (h.2 x)⟩

/-- `J n` holds before an attempt with `n` of them left; one that fails restores it. -/
theorem CrashSafe.retry {attempt : Program I Bool} {J : ℕ → σ → Prop} {Q : Bool → σ → Prop}
    (hstop : ∀ s, J 0 s → R s ∧ Q false s)
    (hattempt : ∀ n s, J (n + 1) s →
      CrashSafe env (fun b t => if b then Q true t else J n t) R attempt s)
    (n : ℕ) (hs : J n s) : CrashSafe env Q R (InteractionProgram.retry attempt n) s := by
  induction n generalizing s with
  | zero => exact hstop s hs
  | succ n ih =>
    apply CrashSafe.bind
    apply (hattempt n s hs).mono
    intro b t hr h
    cases b with
    | true => exact ⟨hr, h⟩
    | false => exact ih h

section Executions

def Ends (env : Environment I χ σ) (p : Program I α) (s : σ) : Option α → σ → Prop
  | some a, t => May env p s a t
  | none, t => Cut env p s t

theorem cut_of_may {p : Program I α} {a : α} (hm : May env p s a t) : Cut env p s t := by
  induction p generalizing s with
  | ret b =>
    obtain ⟨-, rfl⟩ := may_ret.mp hm
    exact .before _ _
  | call c k ih =>
    obtain ⟨xs, x, ys, -, hk⟩ := hm
    exact .later (ih _ ⟨ys, hk⟩)

theorem ends_of_may {p : Program I α} {a : α} {r : Option α} (hm : May env p s a t)
    (hr : ∀ b, r = some b → b = a) : Ends env p s r t := by
  cases r with
  | none => exact cut_of_may hm
  | some b =>
    obtain rfl := hr b rfl
    exact hm

theorem CrashSafe.ends {p : Program I α} {r : Option α} (h : CrashSafe env Q R p s)
    (he : Ends env p s r t) : R t ∧ ∀ a, r = some a → Q a t := by
  cases r with
  | none =>
    refine ⟨h.cut he, fun a ha => ?_⟩
    cases ha
  | some b =>
    refine ⟨h.cut (cut_of_may he), fun a ha => ?_⟩
    obtain rfl := Option.some.inj ha
    exact h.post he

theorem may_run {h : Handler I σ} {x : χ} (hx : ∀ c s, env c x s = h c s) (p : Program I α)
    (s : σ) : May env p s (p.run h s).1 (p.run h s).2 := by
  induction p generalizing s with
  | ret a => exact may_ret.mpr ⟨rfl, rfl⟩
  | call c k ih =>
    obtain ⟨ys, hk⟩ := ih (h c s).1 (h c s).2
    refine ⟨x :: ys, x, ys, rfl, ?_⟩
    rw [hx]
    exact hk

theorem may_retry_true {attempt : Program I Bool} {n : ℕ} {tries : List (List χ)} {u : σ}
    (hn : tries.length < n) (hf : Failing env attempt tries s u) (ha : May env attempt u true t) :
    May env (retry attempt n) s true t := by
  obtain ⟨last, ha⟩ := ha
  exact ⟨_, plays_retry_true.mpr ⟨tries, last, u, hn, rfl, hf, ha⟩⟩

theorem may_retry_at_once {attempt : Program I Bool} {n : ℕ} (hn : 0 < n)
    (ha : May env attempt s true t) : May env (retry attempt n) s true t :=
  may_retry_true (show ([] : List (List χ)).length < n from hn) rfl ha

theorem may_retry_false {attempt : Program I Bool} {tries : List (List χ)}
    (hf : Failing env attempt tries s t) : May env (retry attempt tries.length) s false t := by
  induction tries generalizing s with
  | nil => exact may_ret.mpr ⟨rfl, hf⟩
  | cons xs tries ih =>
    obtain ⟨u, ha, hf⟩ := hf
    exact may_bind.mpr ⟨false, u, ⟨xs, ha⟩, ih hf⟩

end Executions

section Histories

variable {ε : Type} {step : σ → ε → σ → Prop} {s₀ : σ} {h : List ε}

/-- The states that a step relation leads to, with everything that happened in order. -/
inductive History (step : σ → ε → σ → Prop) (s₀ : σ) : List ε → σ → Prop where
  | start : History step s₀ [] s₀
  | step {h s e t} : History step s₀ h s → step s e t → History step s₀ (h ++ [e]) t

theorem History.invariant {J : List ε → σ → Prop} (hr : History step s₀ h s) (hstart : J [] s₀)
    (hstep : ∀ h s e t, J h s → step s e t → J (h ++ [e]) t) : J h s := by
  induction hr with
  | start => exact hstart
  | step _ he ih => exact hstep _ _ _ _ ih he

end Histories

end InteractionCrash
