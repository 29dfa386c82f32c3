import Esp32Utils.ByteStrings
import Mathlib.Data.List.Basic
import Mathlib.Tactic.NormNum

/-! # Strings and their positions

Where a needle first occurs in a list at or after a position. Then the string operations with a
`size_t` position, which is 32 bits wide here, and the conversions to and from `int`. A position
behind the end is an exception for `substr`. -/
namespace FirstOccurrence

variable {α : Type} [DecidableEq α] {needle s a b : List α} {c : α} {pos i : ℕ}

def firstOccurrence (needle s : List α) (pos : ℕ) : Option ℕ :=
  (List.range' pos (s.length + 1 - pos)).find? fun i => needle.isPrefixOf (s.drop i)

theorem firstOccurrence_eq_some :
    firstOccurrence needle s pos = some i ↔
      needle <+: s.drop i ∧ (pos ≤ i ∧ i ≤ s.length) ∧
        ∀ j, pos ≤ j → j < i → ¬ needle <+: s.drop j := by
  simp only [firstOccurrence, List.find?_range'_eq_some, List.isPrefixOf_iff_prefix,
    List.mem_range'_1, Bool.not_eq_true', Bool.eq_false_iff, ne_eq]
  have hrange : pos ≤ i ∧ i < pos + (s.length + 1 - pos) ↔ pos ≤ i ∧ i ≤ s.length := by omega
  rw [hrange]

theorem firstOccurrence_eq_none :
    firstOccurrence needle s pos = none ↔
      ∀ i, pos ≤ i → i ≤ s.length → ¬ needle <+: s.drop i := by
  simp only [firstOccurrence, List.find?_range'_eq_none, Bool.not_eq_true', Bool.eq_false_iff,
    ne_eq, List.isPrefixOf_iff_prefix]
  constructor
  · intro h i hpos hi
    exact h i hpos (by omega)
  · intro h i hpos hi
    exact h i hpos (by omega)

theorem firstOccurrence_append :
    firstOccurrence needle (a ++ s) a.length =
      (firstOccurrence needle s 0).map fun i => a.length + i := by
  have hdrop : ∀ i, (a ++ s).drop (a.length + i) = s.drop i := fun i => by simp
  cases h : firstOccurrence needle s 0 with
  | none =>
    rw [firstOccurrence_eq_none] at h
    rw [Option.map_none, firstOccurrence_eq_none]
    intro i hpos hi hp
    obtain ⟨k, rfl⟩ := Nat.exists_eq_add_of_le hpos
    rw [hdrop] at hp
    rw [List.length_append] at hi
    exact h k (Nat.zero_le k) (by omega) hp
  | some i =>
    obtain ⟨hp, hi, hfirst⟩ := firstOccurrence_eq_some.mp h
    rw [Option.map_some, firstOccurrence_eq_some, hdrop, List.length_append]
    refine ⟨hp, ⟨by omega, by omega⟩, fun j hpos hj hp' => ?_⟩
    obtain ⟨k, rfl⟩ := Nat.exists_eq_add_of_le hpos
    rw [hdrop] at hp'
    exact hfirst k (Nat.zero_le k) (by omega) hp'

theorem firstOccurrence_behind (h : c ∉ a) :
    firstOccurrence (c :: needle) (a ++ (c :: needle ++ b)) 0 = some a.length := by
  rw [firstOccurrence_eq_some]
  refine ⟨?_, ⟨Nat.zero_le _, by simp⟩, fun j _ hj hp => ?_⟩
  · rw [List.drop_left]
    exact List.prefix_append _ _
  · obtain ⟨rest, hrest⟩ := hp
    rw [List.drop_append_of_le_length (Nat.le_of_lt hj), List.drop_eq_getElem_cons hj,
      List.cons_append, List.cons_append, List.cons.injEq] at hrest
    apply h
    rw [hrest.1]
    exact List.getElem_mem hj

theorem firstOccurrence_absent (h : c ∉ s) : firstOccurrence (c :: needle) s pos = none := by
  rw [firstOccurrence_eq_none]
  intro i _ _ hp
  exact h (List.mem_of_mem_drop (hp.subset List.mem_cons_self))

theorem firstOccurrence_splits (h : firstOccurrence needle s 0 = some i) :
    ∃ a b, s = a ++ (needle ++ b) ∧ a.length = i := by
  obtain ⟨⟨b, hb⟩, ⟨-, hi⟩, -⟩ := firstOccurrence_eq_some.mp h
  refine ⟨s.take i, b, ?_, List.length_take_of_le hi⟩
  rw [hb, List.take_append_drop]

end FirstOccurrence

namespace StdString

open ByteStrings FirstOccurrence

def npos : ℕ := 2 ^ 32 - 1

def toInt (n : ℕ) : ℤ := Int.bmod n (2 ^ 32)

def toSize (i : ℤ) : ℕ := (i % 2 ^ 32).toNat

def find (str needle : Bytes) (pos : ℕ) : ℕ :=
  (firstOccurrence needle str pos).getD npos

def substr (str : Bytes) (pos n : ℕ) : Option Bytes :=
  if pos ≤ str.length then some ((str.drop pos).take n) else none

/-- A string object, whose length is at most `max_size()`. -/
structure Str where
  bytes : Bytes
  short : bytes.length < 2 ^ 31

variable {str needle a b : Bytes} {c : UInt8} {n : ℕ} {i : ℤ}

theorem toInt_of_lt (h : n < 2 ^ 31) : toInt n = n := by
  apply Int.bmod_eq_of_le
  · norm_num
  · norm_num
    omega

@[simp] theorem toInt_npos : toInt npos = -1 := by decide

theorem toSize_of_nonneg (h : 0 ≤ i) (hlt : i < 2 ^ 32) : toSize i = i.toNat := by
  unfold toSize
  rw [Int.emod_eq_of_lt h hlt]

theorem find_append_zero : find (a ++ b) needle a.length =
    ((firstOccurrence needle b 0).map fun i => a.length + i).getD npos := by
  rw [find, firstOccurrence_append]

theorem substr_append (h : b.length ≤ n) : substr (a ++ b) a.length n = some b := by
  rw [substr, if_pos (by simp), List.drop_left, List.take_of_length_le h]

theorem substr_append_length :
    substr (a ++ (needle ++ b)) a.length needle.length = some needle := by
  rw [substr, if_pos (by simp), List.drop_left, List.take_left]

theorem substr_zero_length : substr (a ++ b) 0 a.length = some a := by
  rw [substr, if_pos (Nat.zero_le _), List.drop_zero, List.take_left]

end StdString
