import Esp32Utils.Interaction.WhileLoops
import Esp32Utils.ThreadSafeDbg
import Mathlib.Data.List.Basic

/-! # Splitting a message

Objects in memory are lists of cells. A cell holds nothing before it is written, and every access
outside of an object fails. `doPrint` copies each piece of a message into a buffer of its own,
which is queued with a terminator behind the piece. -/
namespace MemoryObjects

variable {α : Type}

abbrev Object (α : Type) := List (Option α)

def allocate (n : ℕ) : Object α := List.replicate n none

def copy (dest : Object α) (src : List α) (offset n : ℕ) : Option (Object α) :=
  if n ≤ dest.length ∧ offset + n ≤ src.length then
    some (((src.drop offset).take n).map some ++ dest.drop n)
  else none

def store (dest : Object α) (i : ℕ) (x : α) : Option (Object α) :=
  if i < dest.length then some (dest.set i (some x)) else none

def readUntil [DecidableEq α] (stop : α) : Object α → Option (List α)
  | [] => none
  | none :: _ => none
  | some x :: rest => if x = stop then some [] else (readUntil stop rest).map (x :: ·)

def terminated (xs : List α) (stop : α) : Object α := xs.map some ++ [some stop]

variable {src xs : List α} {stop : α} {offset n : ℕ}

theorem store_behind_copy (h : offset + n ≤ src.length) :
    (copy (allocate (n + 1)) src offset n).bind (fun buff => store buff n stop) =
      some (terminated ((src.drop offset).take n) stop) := by
  have hlength : (((src.drop offset).take n).map some).length = n := by
    rw [List.length_map, List.length_take, List.length_drop]
    omega
  have hcopy : copy (allocate (n + 1)) src offset n =
      some (((src.drop offset).take n).map some ++ [none]) := by
    have hroom : n ≤ (allocate (n + 1) : Object α).length := by simp [allocate]
    rw [copy, if_pos ⟨hroom, h⟩, allocate, List.drop_replicate, Nat.add_sub_cancel_left]
    rfl
  have hinside : n < (((src.drop offset).take n).map some ++ [none]).length := by
    rw [List.length_append, hlength, List.length_singleton]
    exact Nat.lt_succ_self n
  rw [hcopy, Option.bind_some, store, if_pos hinside,
    List.set_append_right _ _ (Nat.le_of_eq hlength), hlength, Nat.sub_self]
  rfl

theorem readUntil_terminated [DecidableEq α] (h : stop ∉ xs) :
    readUntil stop (terminated xs stop) = some xs := by
  induction xs with
  | nil => simp [terminated, readUntil]
  | cons x xs ih =>
    obtain ⟨hx, hxs⟩ := not_or.mp (List.mem_cons.not.mp h)
    have hrest := ih hxs
    rw [terminated] at hrest ⊢
    rw [List.map_cons, List.cons_append, readUntil, if_neg (Ne.symm hx), hrest, Option.map_some]

end MemoryObjects

namespace MessageSplitting

open ByteStrings WhileLoops MemoryObjects ThreadSafeDbg

abbrev Buffer := Object UInt8

/-- The variables of `doPrint`, and what it has queued. -/
structure Variables where
  length : ℕ
  offset : ℕ
  queue : List Buffer

/-- A subtraction of `size_t` that does not wrap. -/
def subtract (a b : ℕ) : Option ℕ := if b ≤ a then some (a - b) else none

def copyPiece (message : Bytes) (offset n : ℕ) : Option Buffer := do
  let buff ← copy (allocate (n + 1)) message offset n
  store buff n 0

def splitting (message : Bytes) : Loop Variables where
  condition s := s.length > maxMsgLength
  body s := do
    let buff ← copyPiece message s.offset maxMsgLength
    let length ← subtract s.length maxMsgLength
    return ⟨length, s.offset + maxMsgLength, s.queue ++ [buff]⟩

/-- The buffers that are queued, by a loop of at most `bound` iterations. -/
def doPrintBuffers (bound : ℕ) (allowPrint : Bool) (message : CString) : Option (List Buffer) :=
  if allowPrint = false then some []
  else do
    let s ← (splitting message.bytes).run bound ⟨message.bytes.length, 0, []⟩
    let buff ← copyPiece message.bytes s.offset s.length
    return s.queue ++ [buff]

/-- All pieces but the last are full, and only the empty message has an empty one. -/
structure Split (message : Bytes) (texts : List Bytes) : Prop where
  whole : texts.flatten = message
  short : ∀ text ∈ texts, text.length ≤ maxMsgLength
  full : ∀ text ∈ texts.dropLast, text.length = maxMsgLength
  empty : [] ∈ texts ↔ message = []

section Loop

variable {message : Bytes} {s : Variables} {texts : List Bytes} {offset n : ℕ}

theorem copyPiece_eq (h : offset + n ≤ message.length) :
    copyPiece message offset n = some (terminated ((message.drop offset).take n) 0) :=
  store_behind_copy h

structure Progress (message : Bytes) (s : Variables) (texts : List Bytes) : Prop where
  queue : s.queue = texts.map fun text => terminated text 0
  total : s.offset + s.length = message.length
  sent : texts.flatten = message.take s.offset
  full : ∀ text ∈ texts, text.length = maxMsgLength
  rest : s.length = 0 → message = []
  actions : texts.map Action.xQueueSendToBack ++ doPrintLoop message s.length s.offset =
    doPrintLoop message message.length 0

theorem progress_initial : Progress message ⟨message.length, 0, []⟩ [] where
  queue := rfl
  total := Nat.zero_add _
  sent := rfl
  full _ h := absurd h List.not_mem_nil
  rest h := List.length_eq_zero_iff.mp h
  actions := rfl

theorem Progress.next (h : Progress message s texts) (hl : s.length > maxMsgLength) :
    Progress message ⟨s.length - maxMsgLength, s.offset + maxMsgLength,
        s.queue ++ [terminated ((message.drop s.offset).take maxMsgLength) 0]⟩
      (texts ++ [(message.drop s.offset).take maxMsgLength]) where
  queue := by rw [List.map_append, h.queue, List.map_singleton]
  total := by
    have htotal := h.total
    change s.offset + maxMsgLength + (s.length - maxMsgLength) = _
    omega
  sent := by rw [List.flatten_append, h.sent, List.flatten_singleton, ← List.take_add]
  full := by
    intro text htext
    rcases List.mem_append.mp htext with htext | htext
    · exact h.full text htext
    · have htotal := h.total
      rw [List.mem_singleton.mp htext, List.length_take, List.length_drop]
      omega
  rest := by
    intro hzero
    change s.length - maxMsgLength = 0 at hzero
    omega
  actions := by
    have hactions := h.actions
    rw [doPrintLoop, if_pos hl] at hactions
    rw [← hactions, List.map_append, List.append_assoc]
    rfl

theorem Progress.step (h : Progress message s texts) (hl : s.length > maxMsgLength) :
    ∃ t, (splitting message).body s = some t ∧
      Progress message t (texts ++ [(message.drop s.offset).take maxMsgLength]) ∧
      t.length < s.length := by
  have htotal := h.total
  have hpos : 0 < maxMsgLength := by decide
  have hfits : s.offset + maxMsgLength ≤ message.length := by omega
  have hsubtract : subtract s.length maxMsgLength = some (s.length - maxMsgLength) := if_pos hl.le
  have hbody : (splitting message).body s = some ⟨s.length - maxMsgLength,
      s.offset + maxMsgLength,
      s.queue ++ [terminated ((message.drop s.offset).take maxMsgLength) 0]⟩ := by
    simp only [splitting, copyPiece_eq hfits, hsubtract, Option.bind_eq_bind, Option.bind_some,
      Option.pure_def]
  exact ⟨_, hbody, h.next hl, Nat.sub_lt (Nat.zero_lt_of_lt hl) hpos⟩

theorem Progress.length_drop (h : Progress message s texts) :
    (message.drop s.offset).length = s.length := by
  have htotal := h.total
  rw [List.length_drop]
  omega

theorem Progress.split (h : Progress message s texts) (hl : ¬ s.length > maxMsgLength) :
    Split message (texts ++ [message.drop s.offset]) where
  whole := by rw [List.flatten_append, h.sent, List.flatten_singleton, List.take_append_drop]
  short := by
    intro text htext
    rcases List.mem_append.mp htext with htext | htext
    · exact (h.full text htext).le
    · rw [List.mem_singleton.mp htext, h.length_drop]
      exact not_lt.mp hl
  full := by
    rw [List.dropLast_concat]
    exact h.full
  empty := by
    constructor
    · intro hempty
      rcases List.mem_append.mp hempty with hempty | hempty
      · exact absurd (h.full [] hempty) (by decide)
      · apply h.rest
        rw [← h.length_drop, ← List.mem_singleton.mp hempty]
        rfl
    · intro hempty
      rw [hempty, List.drop_nil]
      exact List.mem_append_right _ List.mem_cons_self

theorem Progress.last (h : Progress message s texts) (hl : ¬ s.length > maxMsgLength) :
    copyPiece message s.offset s.length = some (terminated (message.drop s.offset) 0) ∧
      (texts ++ [message.drop s.offset]).map Action.xQueueSendToBack =
        doPrintLoop message message.length 0 := by
  have hpiece : (message.drop s.offset).take s.length = message.drop s.offset :=
    List.take_of_length_le h.length_drop.le
  constructor
  · rw [copyPiece_eq h.total.le, hpiece]
  · rw [List.map_append, ← h.actions, doPrintLoop, if_neg hl, hpiece]
    rfl

theorem splitting_ends (message : Bytes) : ∃ t texts,
    (splitting message).run message.length ⟨message.length, 0, []⟩ = some t ∧
      Progress message t texts ∧ ¬ t.length > maxMsgLength := by
  have hbody : ∀ s : Variables, (∃ texts, Progress message s texts) →
      (splitting message).condition s = true → ∃ t, (splitting message).body s = some t ∧
        (∃ texts, Progress message t texts) ∧ t.length < s.length := by
    intro s h hl
    obtain ⟨texts, h⟩ := h
    obtain ⟨t, ht, hprogress, hlt⟩ := h.step (of_decide_eq_true hl)
    exact ⟨t, ht, ⟨_, hprogress⟩, hlt⟩
  obtain ⟨t, hrun, ⟨texts, hprogress⟩, hexit⟩ :=
    run_of_measure _ Variables.length hbody ⟨[], progress_initial⟩ le_rfl
  exact ⟨t, texts, hrun, hprogress, of_decide_eq_false hexit⟩

theorem Split.read_back {texts : List Bytes} (h : Split message texts) (hno : 0 ∉ message) :
    (texts.map fun text => terminated text 0).map (readUntil 0) = texts.map some := by
  rw [List.map_map]
  apply List.map_congr_left
  intro text htext
  apply readUntil_terminated
  intro hzero
  apply hno
  rw [← h.whole]
  exact List.mem_flatten.mpr ⟨text, htext, hzero⟩

end Loop

/-- Every message is split without a loss: the loop ends, the copies stay inside the message and
their buffers, and what is queued are the actions of `doPrint`. -/
theorem doPrint_lossless (message : CString) : ∃ queue texts,
    (∀ bound, message.bytes.length ≤ bound → doPrintBuffers bound true message = some queue) ∧
      queue.map (readUntil 0) = texts.map some ∧ Split message.bytes texts ∧
      doPrint true message = texts.map .xQueueSendToBack := by
  obtain ⟨t, texts, hrun, hprogress, hexit⟩ := splitting_ends message.bytes
  obtain ⟨hlast, hactions⟩ := hprogress.last hexit
  have hsplit := hprogress.split hexit
  refine ⟨_, _, ?_, hsplit.read_back message.noNul, hsplit, hactions.symm⟩
  intro bound hbound
  simp only [doPrintBuffers, Bool.true_eq_false, if_false, run_mono hbound hrun, hlast,
    hprogress.queue, Option.bind_eq_bind, Option.bind_some, Option.pure_def, List.map_append]
  rfl

end MessageSplitting
