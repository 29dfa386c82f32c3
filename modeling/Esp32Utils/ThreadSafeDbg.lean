import Esp32Utils.ByteStrings
import Mathlib.Data.List.Basic

/-! # ThreadSafeDbg

Messages go to the console through a queue, in pieces of at most 3000 bytes, or directly.
A call is the list of the things that it does, one after the other. -/
namespace ThreadSafeDbg

open ByteStrings

def maxQueueLength : ℕ := 100

def maxMsgLength : ℕ := 3000

inductive Action where
  | xQueueSendToBack (buff : Bytes)
  | printf (text : Bytes)
  deriving DecidableEq

/-- The loop of `doPrint` and the piece behind it. -/
def doPrintLoop (message : Bytes) (length offset : ℕ) : List Action :=
  if length > maxMsgLength then
    .xQueueSendToBack ((message.drop offset).take maxMsgLength) ::
      doPrintLoop message (length - maxMsgLength) (offset + maxMsgLength)
  else [.xQueueSendToBack ((message.drop offset).take length)]
termination_by length
decreasing_by
  have hpos : 0 < maxMsgLength := by decide
  omega

def doPrint (allowPrint : Bool) (message : CString) : List Action :=
  if allowPrint = false then []
  else doPrintLoop message.bytes message.bytes.length 0

def print (allowPrint : Bool) (message : CString) : List Action := doPrint allowPrint message

/-- The text is what the format makes of the arguments. -/
def printX (text : Bytes) : List Action := [.printf text]

def newLn : CString := ⟨ascii "\r\n", by decide⟩

def printLine (allowPrint : Bool) : List Action :=
  if allowPrint = false then [] else doPrint allowPrint newLn

def printLineString (allowPrint : Bool) (message : Bytes) : List Action :=
  if allowPrint = false then [] else printX (cStr message ++ newLn.bytes)

def printLineCStr (allowPrint : Bool) (message : CString) : List Action :=
  if allowPrint = false then [] else printX (message.bytes ++ newLn.bytes)

def Action.text : Action → Bytes
  | .xQueueSendToBack buff => buff
  | .printf text => text

section Pieces

variable {message : Bytes} {length offset : ℕ}

theorem doPrintLoop_ne_nil : doPrintLoop message length offset ≠ [] := by
  rw [doPrintLoop]
  split
  · exact List.cons_ne_nil _ _
  · exact List.cons_ne_nil _ _

theorem doPrintLoop_queued :
    ∀ a ∈ doPrintLoop message length offset, ∃ buff, a = .xQueueSendToBack buff := by
  induction length using Nat.strong_induction_on generalizing offset with
  | h length ih =>
    intro a ha
    rw [doPrintLoop] at ha
    by_cases hl : length > maxMsgLength
    · rw [if_pos hl, List.mem_cons] at ha
      rcases ha with rfl | ha
      · exact ⟨_, rfl⟩
      · have hpos : 0 < maxMsgLength := by decide
        exact ih _ (by omega) a ha
    · rw [if_neg hl, List.mem_singleton] at ha
      exact ⟨_, ha⟩

theorem doPrintLoop_texts (h : offset + length = message.length) :
    ((doPrintLoop message length offset).map Action.text).flatten = message.drop offset := by
  induction length using Nat.strong_induction_on generalizing offset with
  | h length ih =>
    rw [doPrintLoop]
    have hpos : 0 < maxMsgLength := by decide
    by_cases hl : length > maxMsgLength
    · rw [if_pos hl, List.map_cons, List.flatten_cons, ih _ (by omega) (by omega),
        ← List.drop_drop]
      exact List.take_append_drop _ _
    · rw [if_neg hl]
      simp only [List.map_cons, List.map_nil, List.flatten_cons, List.flatten_nil,
        List.append_nil, Action.text]
      rw [List.take_of_length_le]
      rw [List.length_drop]
      omega

theorem doPrint_short {message : CString} (h : message.bytes.length ≤ maxMsgLength) :
    doPrint true message = [.xQueueSendToBack message.bytes] := by
  have hl : ¬ message.bytes.length > maxMsgLength := Nat.not_lt.mpr h
  rw [doPrint, if_neg (by decide), doPrintLoop, if_neg hl, List.drop_zero, List.take_length]

end Pieces

end ThreadSafeDbg
