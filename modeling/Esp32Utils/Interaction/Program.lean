import Mathlib.Data.Stream.Init
import Mathlib.Tactic.Basic

/-! # Programs over an interface of external calls

A program is a finite tree of calls whose continuations wait for the answer.
A handler answers deterministically from a state; an environment also reads one
choice for each call, so that a script of choices fixes a whole execution.
Every program ends: a branch is as long as the calls on it. -/
namespace InteractionProgram

structure Interface where
  Call : Type
  Resp : Call → Type

inductive Program (I : Interface) (α : Type) : Type where
  | ret (a : α)
  | call (c : I.Call) (k : I.Resp c → Program I α)

variable {I : Interface} {α β σ χ : Type}

def Program.bind : Program I α → (α → Program I β) → Program I β
  | .ret a, f => f a
  | .call c k, f => .call c fun r => (k r).bind f

instance : Monad (Program I) where
  pure := .ret
  bind := Program.bind

def perform (c : I.Call) : Program I (I.Resp c) := .call c .ret

@[simp] theorem pure_eq_ret (a : α) : (pure a : Program I α) = .ret a := rfl

def retry (attempt : Program I Bool) : ℕ → Program I Bool
  | 0 => pure false
  | n + 1 => do
    if ← attempt then pure true else retry attempt n

abbrev Handler (I : Interface) (σ : Type) := (c : I.Call) → σ → I.Resp c × σ

def Program.run (h : Handler I σ) : Program I α → σ → α × σ
  | .ret a, s => (a, s)
  | .call c k, s => (k (h c s).1).run h (h c s).2

@[simp] theorem run_ret (h : Handler I σ) (a : α) (s : σ) :
    (Program.ret a : Program I α).run h s = (a, s) := rfl

@[simp] theorem run_bind (h : Handler I σ) (p : Program I α) (f : α → Program I β) (s : σ) :
    (p >>= f).run h s = (f (p.run h s).1).run h (p.run h s).2 := by
  induction p generalizing s with
  | ret a => rfl
  | call c k ih => exact ih _ _

/-- One attempt that succeeds ends the loop; under a deterministic handler this is
the only way round it. -/
theorem run_retry_of_success {h : Handler I σ} {attempt : Program I Bool} {s t : σ}
    (ha : attempt.run h s = (true, t)) (n : ℕ) :
    (retry attempt (n + 1)).run h s = (true, t) := by
  simp [retry, ha]

theorem run_retry_of_failure {h : Handler I σ} {attempt : Program I Bool}
    (ha : ∀ s, (attempt.run h s).1 = false) (n : ℕ) (s : σ) :
    ((retry attempt n).run h s).1 = false := by
  induction n generalizing s with
  | zero => rfl
  | succ n ih => simp only [retry, run_bind, ha, Bool.false_eq_true, if_false, ih]

abbrev Environment (I : Interface) (χ σ : Type) := (c : I.Call) → χ → σ → I.Resp c × σ

/-- Each call consumes the next choice of the script. -/
def scripted (env : Environment I χ σ) : Handler I (Stream' χ × σ) := fun c s =>
  ((env c s.1.head s.2).1, s.1.tail, (env c s.1.head s.2).2)

/-- `Plays env p s xs a t`: with exactly the choices `xs`, one for each call in order,
`p` started in `s` returns `a` in `t`. -/
def Program.Plays (env : Environment I χ σ) : Program I α → σ → List χ → α → σ → Prop
  | .ret a, s, xs, b, t => xs = [] ∧ a = b ∧ s = t
  | .call c k, s, xs, b, t =>
    ∃ x ys, xs = x :: ys ∧ (k (env c x s).1).Plays env (env c x s).2 ys b t

section Transcripts

variable {env : Environment I χ σ}

theorem plays_bind {p : Program I α} {f : α → Program I β} {s t : σ} {xs : List χ} {b : β} :
    (p >>= f).Plays env s xs b t ↔
      ∃ ys zs a u, xs = ys ++ zs ∧ p.Plays env s ys a u ∧ (f a).Plays env u zs b t := by
  induction p generalizing s xs with
  | ret a =>
    constructor
    · intro h
      exact ⟨[], xs, a, s, rfl, ⟨rfl, rfl, rfl⟩, h⟩
    · intro h
      obtain ⟨ys, zs, a', u, rfl, ⟨rfl, rfl, rfl⟩, h⟩ := h
      exact h
  | call c k ih =>
    constructor
    · intro h
      obtain ⟨x, xs', rfl, h⟩ := h
      obtain ⟨ys, zs, a, u, rfl, hp, hf⟩ := (ih _).mp h
      exact ⟨x :: ys, zs, a, u, rfl, ⟨x, ys, rfl, hp⟩, hf⟩
    · intro h
      obtain ⟨ys, zs, a, u, rfl, ⟨x, ys', rfl, hp⟩, hf⟩ := h
      exact ⟨x, ys' ++ zs, rfl, (ih _).mpr ⟨ys', zs, a, u, rfl, hp, hf⟩⟩

theorem plays_guard {p : Program I Bool} {f : Program I α} {s t : σ} {xs : List χ} {a b : α} :
    (p >>= fun r => if r = false then pure a else f).Plays env s xs b t ↔
      (p.Plays env s xs false t ∧ b = a) ∨
        ∃ ys zs u, xs = ys ++ zs ∧ p.Plays env s ys true u ∧ f.Plays env u zs b t := by
  rw [plays_bind]
  constructor
  · intro h
    obtain ⟨ys, zs, r, u, rfl, hp, h⟩ := h
    cases r with
    | true => exact Or.inr ⟨ys, zs, u, rfl, hp, h⟩
    | false =>
      obtain ⟨rfl, rfl, rfl⟩ := h
      exact Or.inl ⟨by rwa [List.append_nil], rfl⟩
  · intro h
    rcases h with ⟨hp, rfl⟩ | ⟨ys, zs, u, rfl, hp, hf⟩
    · exact ⟨xs, [], false, t, (List.append_nil xs).symm, hp, rfl, rfl, rfl⟩
    · exact ⟨ys, zs, true, u, rfl, hp, hf⟩

theorem run_of_plays {p : Program I α} {s t : σ} {xs : List χ} {a : α}
    (h : p.Plays env s xs a t) (rest : Stream' χ) :
    p.run (scripted env) (xs ++ₛ rest, s) = (a, rest, t) := by
  induction p generalizing s xs with
  | ret b =>
    obtain ⟨rfl, rfl, rfl⟩ := h
    rfl
  | call c k ih =>
    obtain ⟨x, ys, rfl, h⟩ := h
    exact ih _ h

theorem plays_of_run (p : Program I α) (script : Stream' χ) (s : σ) :
    ∃ xs rest a t, script = xs ++ₛ rest ∧ p.Plays env s xs a t ∧
      p.run (scripted env) (script, s) = (a, rest, t) := by
  induction p generalizing script s with
  | ret a => exact ⟨[], script, a, s, rfl, ⟨rfl, rfl, rfl⟩, rfl⟩
  | call c k ih =>
    obtain ⟨xs, rest, a, t, hs, hp, hr⟩ :=
      ih (env c script.head s).1 script.tail (env c script.head s).2
    refine ⟨script.head :: xs, rest, a, t, ?_, ⟨script.head, xs, rfl, hp⟩, hr⟩
    rw [Stream'.cons_append_stream, ← hs, Stream'.eta]

def Program.runScript (env : Environment I χ σ) (p : Program I α) (script : Stream' χ) (s : σ) :
    α × σ :=
  ((p.run (scripted env) (script, s)).1, (p.run (scripted env) (script, s)).2.2)

theorem runScript_return {p : Program I α} {f : α → β} {script : Stream' χ} {s : σ} :
    (p >>= fun a => pure (f a)).runScript env script s =
      (f (p.runScript env script s).1, (p.runScript env script s).2) := by
  simp only [Program.runScript, run_bind, pure_eq_ret, run_ret]

theorem runScript_eq_iff {p : Program I α} {script : Stream' χ} {s t : σ} {a : α} :
    p.runScript env script s = (a, t) ↔
      ∃ xs rest, script = xs ++ₛ rest ∧ p.Plays env s xs a t := by
  constructor
  · intro h
    obtain ⟨xs, rest, b, u, hs, hp, hr⟩ := @plays_of_run I α σ χ env p script s
    simp only [Program.runScript, hr, Prod.mk.injEq] at h
    obtain ⟨rfl, rfl⟩ := h
    exact ⟨xs, rest, hs, hp⟩
  · intro h
    obtain ⟨xs, rest, rfl, hp⟩ := h
    simp only [Program.runScript, run_of_plays hp]

/-- `Failing env attempt tries s t`: the attempt reports failure once for each script of
`tries`, taking `s` to `t`. -/
def Failing (env : Environment I χ σ) (attempt : Program I Bool) : List (List χ) → σ → σ → Prop
  | [], s, t => s = t
  | xs :: tries, s, t => ∃ u, attempt.Plays env s xs false u ∧ Failing env attempt tries u t

theorem failing_of_forall {attempt : Program I Bool} {F : List χ → Prop}
    (h : ∀ xs, F xs → ∀ s, ∃ t, attempt.Plays env s xs false t) {tries : List (List χ)}
    (ht : ∀ xs ∈ tries, F xs) (s : σ) : ∃ t, Failing env attempt tries s t := by
  induction tries generalizing s with
  | nil => exact ⟨s, rfl⟩
  | cons xs tries ih =>
    obtain ⟨u, hu⟩ := h xs (ht xs List.mem_cons_self) s
    obtain ⟨t, hf⟩ := ih (fun ys hy => ht ys (List.mem_cons_of_mem _ hy)) u
    exact ⟨t, u, hu, hf⟩

theorem Failing.forall {attempt : Program I Bool} {F : List χ → Prop}
    (h : ∀ xs s t, attempt.Plays env s xs false t → F xs) {tries : List (List χ)} {s t : σ}
    (hf : Failing env attempt tries s t) : ∀ xs ∈ tries, F xs := by
  induction tries generalizing s with
  | nil => simp
  | cons xs tries ih =>
    obtain ⟨u, hu, hf⟩ := hf
    intro ys hy
    rcases List.mem_cons.mp hy with rfl | hy
    · exact h ys s u hu
    · exact ih hf ys hy

theorem Failing.concat {attempt : Program I Bool} {tries : List (List χ)} {last : List χ}
    {s t u : σ} (hf : Failing env attempt tries s u) (hl : attempt.Plays env u last false t) :
    Failing env attempt (tries ++ [last]) s t := by
  induction tries generalizing s with
  | nil =>
    obtain rfl := hf
    exact ⟨t, hl, rfl⟩
  | cons xs tries ih =>
    obtain ⟨v, ha, hf⟩ := hf
    exact ⟨v, ha, ih hf⟩

/-- A loop that succeeds is a run of failed attempts and one attempt that succeeds. -/
theorem plays_retry_true {attempt : Program I Bool} {n : ℕ} {s t : σ} {xs : List χ} :
    (retry attempt n).Plays env s xs true t ↔
      ∃ tries last u, tries.length < n ∧ xs = tries.flatten ++ last ∧
        Failing env attempt tries s u ∧ attempt.Plays env u last true t := by
  induction n generalizing s xs with
  | zero =>
    constructor
    · intro h
      obtain ⟨-, h, -⟩ := h
      cases h
    · intro h
      obtain ⟨tries, last, u, h, -⟩ := h
      omega
  | succ n ih =>
    rw [retry, plays_bind]
    constructor
    · intro h
      obtain ⟨ys, zs, b, u, rfl, ha, h⟩ := h
      cases b with
      | true =>
        obtain ⟨rfl, -, rfl⟩ := h
        exact ⟨[], ys, s, by simp, by simp, rfl, ha⟩
      | false =>
        obtain ⟨tries, last, v, hn, rfl, hf, hl⟩ := ih.mp h
        exact ⟨ys :: tries, last, v, by simpa using hn, by simp, ⟨u, ha, hf⟩, hl⟩
    · intro h
      obtain ⟨tries, last, u, hn, rfl, hf, hl⟩ := h
      cases tries with
      | nil =>
        obtain rfl := hf
        exact ⟨last, [], true, t, by simp, hl, rfl, rfl, rfl⟩
      | cons ys tries =>
        obtain ⟨v, ha, hf⟩ := hf
        exact ⟨ys, tries.flatten ++ last, false, v, by simp, ha,
          ih.mpr ⟨tries, last, u, by simpa using hn, rfl, hf, hl⟩⟩

theorem runScript_retry_true {attempt : Program I Bool} {n : ℕ} {script : Stream' χ} {s t : σ} :
    (retry attempt n).runScript env script s = (true, t) ↔
      ∃ tries last rest u, tries.length < n ∧ script = (tries.flatten ++ last) ++ₛ rest ∧
        Failing env attempt tries s u ∧ attempt.Plays env u last true t := by
  rw [runScript_eq_iff]
  constructor
  · intro h
    obtain ⟨xs, rest, rfl, hp⟩ := h
    obtain ⟨tries, last, u, hn, rfl, hf, hl⟩ := plays_retry_true.mp hp
    exact ⟨tries, last, rest, u, hn, rfl, hf, hl⟩
  · intro h
    obtain ⟨tries, last, rest, u, hn, rfl, hf, hl⟩ := h
    exact ⟨tries.flatten ++ last, rest, rfl, plays_retry_true.mpr ⟨tries, last, u, hn, rfl, hf, hl⟩⟩

end Transcripts

end InteractionProgram
