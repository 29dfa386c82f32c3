import Esp32Utils.Interaction.HandleSessions
import Esp32Utils.Nvs
import Esp32Utils.RequestContent

/-! # NVS among other writers

Before each call other writers may replace values, and each call may fail. What is done with
handles is logged. A string is read into a buffer that is sized by an earlier call. -/
namespace ContestedNvs

open ByteStrings InteractionProgram HandleSessions NvsFlash Nvs RequestContent

/-- What happens around a call: its own error if any, and the values replaced before it. -/
structure Turn where
  failure : EspErr
  replaced : List (Key × Option NvsValue)

/-- The storage, what has been done with handles, and the values at the last read of one. -/
structure Store where
  nvs : NvsState
  log : List (Access NvsHandle)
  seen : Key → Option NvsValue

def Turn.replace (turn : Turn) (s : NvsState) : NvsState :=
  turn.replaced.foldl (fun s r => s.put r.1 r.2) s

def accesses : (c : NvsCall) → NvsInterface.Resp c → List (Access NvsHandle)
  | .nvsOpen _ _, .ok handle => [.opened handle]
  | .nvsOpen _ _, .error _ => []
  | .nvsSetI64 handle _ _, _ => [.used handle]
  | .nvsSetStr handle _ _, _ => [.used handle]
  | .nvsEraseKey handle _, _ => [.used handle]
  | .nvsCommit handle, _ => [.used handle]
  | .nvsGetI64 handle _, _ => [.used handle]
  | .nvsGetStrLength handle _, _ => [.used handle]
  | .nvsGetStr handle _ _, _ => [.used handle]
  | .nvsClose handle, _ => [.closed handle]

def isGet : NvsCall → Bool
  | .nvsGetI64 _ _ => true
  | .nvsGetStrLength _ _ => true
  | .nvsGetStr _ _ _ => true
  | _ => false

def contested : Environment NvsInterface Turn Store := fun c turn s =>
  let found := turn.replace s.nvs
  let answer := nvs c turn.failure found
  (answer.1, ⟨answer.2, s.log ++ accesses c answer.1,
    if isGet c then found.entries else s.seen⟩)

/-- `new char[n]`, with whatever was in memory. -/
def newArray (memory : ℕ → UInt8) (n : ℕ) : Bytes := (List.range n).map memory

/-- What the second call has read, with a terminator behind it; `none` is an index outside the
buffer. The call sets the length to that of the string and its NUL. -/
def terminated (charArr bytes : Bytes) : Option Bytes :=
  let readLength := bytes.length
  let charArr := overwrite charArr 0 bytes
  if readLength < charArr.length then some (cStr (charArr.set readLength 0)) else none

/-- `NVS::read` of a string with its buffer. -/
def readStrBuffer (memory : ℕ → UInt8) (storage tag res : Bytes) :
    NvsProgram (Option (Bool × Bytes)) := do
  match ← openToRead storage with
  | none => return some (false, res)
  | some handle =>
    let length ← nvsGetStrLength handle tag
    let readLength := match length with
      | .ok n => n
      | .error _ => 0
    let charArr := newArray memory (readLength + 1)
    let err ← nvsGetStr handle tag readLength
    let ret := match err with
      | .ok bytes => (terminated charArr bytes).map fun readRes => (true, readRes)
      | .error _ => some (false, res)
    nvsClose handle
    return ret

section Buffers

variable {memory : ℕ → UInt8} {n : ℕ} {bytes : Bytes}

theorem newArray_length : (newArray memory n).length = n := by
  rw [newArray, List.length_map, List.length_range]

theorem cStr_before_nul (s rest : Bytes) : cStr (s ++ 0 :: rest) = cStr s := by
  unfold cStr
  induction s with
  | nil => rfl
  | cons b s ih => simp only [List.cons_append, List.takeWhile_cons, ih]

theorem terminated_inside (h : bytes.length ≤ n) :
    terminated (newArray memory (n + 1)) bytes = some (cStr (bytes ++ [0])) := by
  have hfits : bytes.length ≤ (newArray memory (n + 1)).length := by
    rw [newArray_length]
    omega
  have hinside : bytes.length < (overwrite (newArray memory (n + 1)) 0 bytes).length := by
    rw [overwrite_zero_length hfits, newArray_length]
    omega
  have hrest : (newArray memory (n + 1)).drop bytes.length ≠ [] := by
    rw [ne_eq, List.drop_eq_nil_iff, newArray_length]
    omega
  obtain ⟨b, rest, hb⟩ := List.exists_cons_of_ne_nil hrest
  simp only [terminated, if_pos hinside, Option.some.injEq]
  rw [overwrite, List.take_zero, List.nil_append, Nat.zero_add, hb,
    List.set_append_right _ _ le_rfl, Nat.sub_self, List.set_cons_zero, cStr_append_zero]
  exact cStr_before_nul bytes rest

end Buffers

end ContestedNvs
