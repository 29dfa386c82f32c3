import Mathlib.Data.List.TakeWhile

/-! # Byte strings

A string object is a list of bytes of any value; a C string ends before its first NUL. A
formatted print copies ordinary characters, turns a doubled percent sign into one, and is
undefined on any other conversion. -/
namespace ByteStrings

abbrev Bytes := List UInt8

instance : LawfulBEq Bytes := inferInstanceAs (LawfulBEq (List UInt8))

def ascii (s : String) : Bytes := s.toList.map fun c => UInt8.ofNat c.toNat

/-- What a C function reads through the pointer `s.c_str()`. -/
def cStr (s : Bytes) : Bytes := s.takeWhile (· ≠ 0)

theorem cStr_eq_self {s : Bytes} : cStr s = s ↔ 0 ∉ s := by
  unfold cStr
  rw [List.takeWhile_eq_self_iff]
  constructor
  · intro h hz
    simpa using h 0 hz
  · intro h b hb
    simpa using ne_of_mem_of_not_mem hb h

theorem cStr_length_le (s : Bytes) : (cStr s).length ≤ s.length :=
  (List.takeWhile_prefix _).length_le

theorem cStr_eq_self_of_length {s : Bytes} (h : s.length ≤ (cStr s).length) : cStr s = s :=
  (List.takeWhile_prefix _).eq_of_length_le h

/-- What a `const char*` points to. -/
structure CString where
  bytes : Bytes
  noNul : 0 ∉ bytes
  deriving DecidableEq

theorem zero_not_mem_cStr (s : Bytes) : 0 ∉ cStr s := by
  intro h
  simpa using List.mem_takeWhile_imp h

theorem cStr_append_zero (s : Bytes) : cStr (s ++ [0]) = cStr s := by
  unfold cStr
  induction s with
  | nil => rfl
  | cons b s ih => simp only [List.cons_append, List.takeWhile_cons, ih]

section Printf

def percent : UInt8 := 0x25

/-- The output of `printf` with this format and no arguments, where it is defined. -/
def printfExpand : Bytes → Option Bytes
  | [] => some []
  | [b] => if b = percent then none else some [b]
  | b :: c :: format =>
    if b = percent then
      if c = percent then (printfExpand format).map (percent :: ·) else none
    else (printfExpand (c :: format)).map (b :: ·)

theorem printfExpand_eq_self {format : Bytes} (h : percent ∉ format) :
    printfExpand format = some format := by
  fun_induction printfExpand format with
  | case1 => rfl
  | case2 => simp at h
  | case3 => rfl
  | case4 => simp at h
  | case5 => simp at h
  | case6 b c format hb ih => rw [ih (List.not_mem_of_not_mem_cons h), Option.map_some]

theorem printfExpand_length {format out : Bytes} (h : printfExpand format = some out) :
    out.length ≤ format.length ∧ (percent ∈ format → out.length < format.length) := by
  fun_induction printfExpand format generalizing out with
  | case1 => simp_all
  | case2 => cases h
  | case3 b hb =>
    obtain rfl := Option.some.inj h
    simp [Ne.symm hb]
  | case4 format ih =>
    obtain ⟨rest, hr, rfl⟩ := Option.map_eq_some_iff.mp h
    have hl := (ih hr).1
    simp only [List.length_cons]
    omega
  | case5 => cases h
  | case6 b c format hb ih =>
    obtain ⟨rest, hr, rfl⟩ := Option.map_eq_some_iff.mp h
    obtain ⟨hle, hlt⟩ := ih hr
    constructor
    · exact Nat.succ_le_succ hle
    · intro hp
      exact Nat.succ_lt_succ (hlt (List.mem_of_ne_of_mem (Ne.symm hb) hp))

end Printf

end ByteStrings
