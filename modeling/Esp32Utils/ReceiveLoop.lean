import Esp32Utils.RequestContent
import Mathlib.Data.Stream.Init

/-! # When the receiving loop ends

The receive calls answer with an infinite sequence of results. Chunks are counted against
the announced length, an error ends the loop, and a timeout does neither. -/
namespace ReceiveLoop

open RequestContent

def Leaves (req : HttpdReq) (results : Stream' ℤ) : Prop :=
  ∃ n, getContent (some req) (results.take n) ≠ none

/-- After some call, with the body incomplete, there are only timeouts. -/
def Silent (contentLen : ℕ) (results : Stream' ℤ) : Prop :=
  ∃ n, Uninterrupted (results.take n) ∧ (sizes (results.take n)).sum < contentLen ∧
    ∀ m, n ≤ m → results.get m = httpdSockErrTimeout

section Waiting

variable {results : List ℤ} {body ret : ByteStrings.Bytes} {remaining : ℕ}

theorem receive_eq_none_iff : receive results body remaining ret = none ↔
    Uninterrupted results ∧ (sizes results).sum < remaining := by
  induction results generalizing body remaining ret with
  | nil =>
    rw [receive]
    by_cases hpos : remaining > 0
    · rw [if_pos hpos]
      exact iff_of_true rfl ⟨fun r hr => absurd hr List.not_mem_nil, hpos⟩
    · rw [if_neg hpos]
      exact iff_of_false (Option.some_ne_none _) fun h => hpos h.2
  | cons r results ih =>
    have hcons : Uninterrupted (r :: results) ↔
        (0 < r ∨ r = httpdSockErrTimeout) ∧ Uninterrupted results := List.forall_mem_cons
    rw [receive, hcons]
    by_cases hpos : remaining > 0
    · rw [if_pos hpos]
      by_cases hr : r ≤ 0
      · rw [if_pos hr, sizes_cons_nonpos hr]
        by_cases ht : r = httpdSockErrTimeout
        · rw [if_pos ht, ih]
          simp only [ht, or_true, true_and]
        · rw [if_neg ht]
          apply iff_of_false (Option.some_ne_none _)
          intro h
          rcases h.1.1 with h | h
          · omega
          · exact ht h
      · rw [if_neg hr, ih, sizes_cons_pos (by omega), List.sum_cons]
        constructor
        · intro h
          refine ⟨⟨Or.inl (by omega), h.1⟩, ?_⟩
          have hsum := h.2
          omega
        · intro h
          refine ⟨h.1.2, ?_⟩
          have hsum := h.2
          omega
    · rw [if_neg hpos]
      apply iff_of_false (Option.some_ne_none _)
      intro h
      have hsum := h.2
      omega

end Waiting

section Streams

variable {results : Stream' ℤ} {contentLen n m : ℕ}

def Waits (contentLen : ℕ) (results : Stream' ℤ) (n : ℕ) : Prop :=
  Uninterrupted (results.take n) ∧ (sizes (results.take n)).sum < contentLen

theorem leaves_iff_not_waits {req : HttpdReq} :
    Leaves req results ↔ ¬ ∀ n, Waits req.contentLen results n := by
  rw [not_forall]
  apply exists_congr
  intro n
  exact receive_eq_none_iff.not

theorem sizes_sum_succ : (sizes (results.take (n + 1))).sum =
    (sizes (results.take n)).sum + (results.get n).toNat := by
  rw [Stream'.take_succ', sizes, sizes, List.filter_append, List.map_append, List.sum_append]
  congr 1
  by_cases hr : 0 < results.get n
  · simp [hr]
  · have hzero : (results.get n).toNat = 0 := by omega
    simp [hr, hzero]

theorem sizes_sum_mono (hnm : n ≤ m) :
    (sizes (results.take n)).sum ≤ (sizes (results.take m)).sum := by
  induction m, hnm using Nat.le_induction with
  | base => exact le_rfl
  | succ m _ ih =>
    rw [sizes_sum_succ]
    omega

theorem uninterrupted_succ : Uninterrupted (results.take (n + 1)) ↔
    Uninterrupted (results.take n) ∧
      (0 < results.get n ∨ results.get n = httpdSockErrTimeout) := by
  rw [Stream'.take_succ', Uninterrupted, List.forall_mem_append, List.forall_mem_singleton]
  exact Iff.rfl

theorem Waits.of_succ (h : Waits contentLen results (n + 1)) : Waits contentLen results n := by
  obtain ⟨hu, hs⟩ := h
  rw [sizes_sum_succ] at hs
  exact ⟨(uninterrupted_succ.mp hu).1, by omega⟩

theorem Waits.of_le (hnm : n ≤ m) (h : Waits contentLen results m) :
    Waits contentLen results n := by
  induction hnm with
  | refl => exact h
  | step _ ih => exact ih h.of_succ

theorem Waits.timeout (h : Waits contentLen results n)
    (ht : results.get n = httpdSockErrTimeout) : Waits contentLen results (n + 1) := by
  refine ⟨uninterrupted_succ.mpr ⟨h.1, Or.inr ht⟩, ?_⟩
  rw [sizes_sum_succ, ht]
  exact h.2

theorem Waits.silence (h : Waits contentLen results n)
    (hsilent : ∀ m, n ≤ m → results.get m = httpdSockErrTimeout) (hnm : n ≤ m) :
    Waits contentLen results m := by
  induction m, hnm using Nat.le_induction with
  | base => exact h
  | succ m hm ih => exact ih.timeout (hsilent m hm)

/-- The missing bytes decrease with every chunk, so a loop that waits for ever has seen its
last one. -/
theorem silent_of_waits (h : ∀ n, Waits contentLen results n) (n : ℕ) :
    ∃ k, n ≤ k ∧ ∀ m, k ≤ m → results.get m = httpdSockErrTimeout := by
  induction hmissing : contentLen - (sizes (results.take n)).sum using Nat.strong_induction_on
    generalizing n with
  | h missing ih =>
    by_cases hsilent : ∀ m, n ≤ m → results.get m = httpdSockErrTimeout
    · exact ⟨n, le_rfl, hsilent⟩
    · obtain ⟨m, hm⟩ := not_forall.mp hsilent
      obtain ⟨hnm, hchunk⟩ := Classical.not_imp.mp hm
      have hpos := (uninterrupted_succ.mp (h (m + 1)).1).2.resolve_right hchunk
      have hgrown := @sizes_sum_mono results n m hnm
      have hlt := (h (m + 1)).2
      have hsum := @sizes_sum_succ results m
      obtain ⟨k, hk, hquiet⟩ := ih _ (by omega) (m + 1) rfl
      exact ⟨k, by omega, hquiet⟩

end Streams

/-- The loop ends unless the client falls silent before the body is complete. -/
theorem leaves_iff (req : HttpdReq) (results : Stream' ℤ) :
    Leaves req results ↔ ¬ Silent req.contentLen results := by
  rw [leaves_iff_not_waits, not_iff_not]
  constructor
  · intro hwaits
    obtain ⟨n, -, hsilent⟩ := silent_of_waits hwaits 0
    exact ⟨n, (hwaits n).1, (hwaits n).2, hsilent⟩
  · intro hs m
    obtain ⟨n, hu, hsum, hsilent⟩ := hs
    rcases Nat.le_total n m with hnm | hmn
    · exact Waits.silence ⟨hu, hsum⟩ hsilent hnm
    · exact Waits.of_le hmn ⟨hu, hsum⟩

/-- A client announces one byte and sends nothing. -/
theorem silent_client_never_leaves :
    ¬ Leaves ⟨1, []⟩ (Stream'.const httpdSockErrTimeout) := by
  rw [leaves_iff_not_waits, not_not]
  intro n
  have hnone : Waits 1 (Stream'.const httpdSockErrTimeout) 0 :=
    ⟨fun r hr => absurd hr List.not_mem_nil, Nat.one_pos⟩
  exact hnone.silence (fun _ _ => rfl) (Nat.zero_le n)

end ReceiveLoop
