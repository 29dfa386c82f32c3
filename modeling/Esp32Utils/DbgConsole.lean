import Esp32Utils.ThreadSafeDbg
import Esp32Utils.Interaction.GuardedRuns
import Mathlib.Logic.Function.Basic

/-! # The debug console

Tasks make their calls one action at a time, in any order, while printing is allowed. The
drain task takes the first piece of the queue and prints it. -/
namespace DbgConsole

open ByteStrings ThreadSafeDbg GuardedRuns

inductive Call where
  | print (message : CString)
  | printLine
  | printLineString (message : Bytes)
  | printLineCStr (message : CString)
  | printX (text : Bytes)
  deriving DecidableEq

def Call.actions : Call → List Action
  | .print message => ThreadSafeDbg.print true message
  | .printLine => ThreadSafeDbg.printLine true
  | .printLineString message => ThreadSafeDbg.printLineString true message
  | .printLineCStr message => ThreadSafeDbg.printLineCStr true message
  | .printX text => ThreadSafeDbg.printX text

def Call.text : Call → Bytes
  | .print message => message.bytes
  | .printLine => newLn.bytes
  | .printLineString message => message ++ newLn.bytes
  | .printLineCStr message => message.bytes ++ newLn.bytes
  | .printX text => text

/-- `c_str()` shows the whole string. -/
def Call.Uncut : Call → Prop
  | .printLineString message => 0 ∉ message
  | _ => True

/-- What is printed or waits to be, with its sender and whether it ends a message. -/
structure Piece (T : Type) where
  sender : T
  text : Bytes
  isLast : Bool
  deriving DecidableEq

structure State (T : Type) where
  issued : T → List Call
  /-- What is left to do of the task's last call. -/
  sending : T → List Action
  queue : List (Piece T)
  console : List (Piece T)

variable {T : Type}

def State.consoleText (s : State T) : Bytes := (s.console.map Piece.text).flatten

inductive Event (T : Type) where
  | call (i : T) (c : Call)
  | send (i : T)
  | drain

section Steps

variable [DecidableEq T]

def State.issue (s : State T) (i : T) (c : Call) : State T :=
  { s with issued := Function.update s.issued i (s.issued i ++ [c]) }

def State.perform (s : State T) (i : T) (a : Action) (rest : List Action) : State T :=
  let s := { s with sending := Function.update s.sending i rest }
  match a with
  | .xQueueSendToBack buff => { s with queue := s.queue ++ [⟨i, buff, rest.isEmpty⟩] }
  | .printf text => { s with console := s.console ++ [⟨i, text, rest.isEmpty⟩] }

section Fields

variable {s : State T} {i j : T} {a : Action} {rest : List Action} {c : Call}

@[simp] theorem perform_sending :
    (s.perform i a rest).sending = Function.update s.sending i rest := by
  cases a with
  | xQueueSendToBack buff => rfl
  | printf text => rfl

theorem perform_sending_self : (s.perform i a rest).sending i = rest := by
  rw [perform_sending, Function.update_self]

theorem perform_sending_of_ne (h : j ≠ i) : (s.perform i a rest).sending j = s.sending j := by
  rw [perform_sending, Function.update_of_ne h]

@[simp] theorem perform_issued : (s.perform i a rest).issued = s.issued := by
  cases a with
  | xQueueSendToBack buff => rfl
  | printf text => rfl

theorem issue_issued_self : (s.issue i c).issued i = s.issued i ++ [c] :=
  Function.update_self ..

theorem issue_issued_of_ne (h : j ≠ i) : (s.issue i c).issued j = s.issued j :=
  Function.update_of_ne h ..

end Fields

/-- One iteration of `run`. -/
def State.drain (s : State T) : State T :=
  match s.queue with
  | [] => s
  | p :: queue =>
    { s with
      queue := queue
      console := s.console ++ (printfExpand p.text).toList.map fun text => { p with text := text } }

def HasRoom (s : State T) : Action → Prop
  | .xQueueSendToBack _ => s.queue.length < maxQueueLength
  | .printf _ => True

def system (T : Type) [DecidableEq T] : System (State T) (Event T) where
  initial := ⟨fun _ => [], fun _ => [], [], []⟩
  Enabled s
    | .call i c => s.sending i = [] ∧ percent ∉ c.text ∧ ∀ a ∈ c.actions.head?, HasRoom s a
    | .send i => s.sending i ≠ [] ∧ ∀ a ∈ (s.sending i).head?, HasRoom s a
    | .drain => s.queue ≠ []
  next s
    | .call i c =>
      match c.actions with
      | [] => s.issue i c
      | a :: rest => (s.issue i c).perform i a rest
    | .send i =>
      match s.sending i with
      | [] => s
      | a :: rest => s.perform i a rest
    | .drain => s.drain

section Next

variable {s : State T} {i : T} {a : Action} {rest : List Action} {c : Call}

theorem next_call (hc : c.actions = a :: rest) :
    (system T).next s (.call i c) = (s.issue i c).perform i a rest := by
  simp only [system, hc]

theorem next_send (hs : s.sending i = a :: rest) :
    (system T).next s (.send i) = s.perform i a rest := by
  simp only [system, hs]

end Next

end Steps

theorem Call.actions_shape (c : Call) : (∃ text, c.actions = [.printf text]) ∨
    c.actions ≠ [] ∧ ∀ a ∈ c.actions, ∃ buff, a = .xQueueSendToBack buff := by
  cases c with
  | print message => exact .inr ⟨doPrintLoop_ne_nil, doPrintLoop_queued⟩
  | printLine => exact .inr ⟨doPrintLoop_ne_nil, doPrintLoop_queued⟩
  | printLineString message => exact .inl ⟨_, rfl⟩
  | printLineCStr message => exact .inl ⟨_, rfl⟩
  | printX text => exact .inl ⟨_, rfl⟩

theorem Call.actions_ne_nil (c : Call) : c.actions ≠ [] := by
  rcases c.actions_shape with ⟨text, h⟩ | ⟨h, -⟩
  · rw [h]
    exact List.cons_ne_nil _ _
  · exact h

theorem Call.actions_texts {c : Call} (h : c.Uncut) :
    (c.actions.map Action.text).flatten = c.text := by
  cases c with
  | print message => exact doPrintLoop_texts (Nat.zero_add _)
  | printLine => exact doPrintLoop_texts (Nat.zero_add _)
  | printLineString message =>
    have hcut : cStr message = message := cStr_eq_self.mpr h
    change ((ThreadSafeDbg.printX (cStr message ++ newLn.bytes)).map Action.text).flatten = _
    rw [hcut]
    exact List.append_nil _
  | printLineCStr message => exact List.append_nil _
  | printX text => exact List.append_nil _

theorem Call.actions_plain {c : Call} (h : c.Uncut) (hplain : percent ∉ c.text) :
    ∀ a ∈ c.actions, percent ∉ a.text := by
  intro a ha hp
  apply hplain
  rw [← Call.actions_texts h]
  exact List.mem_flatten.mpr ⟨a.text, List.mem_map_of_mem ha, hp⟩

end DbgConsole
