import Esp32Utils.Interaction.Program
import Esp32Utils.RequestContent
import Esp32Utils.StdString
import Esp32Utils.Uart

/-! # Reading and writing a port

The calls of the driver that the user functions make. Before each of them other tasks may
flush the ring buffer, read from it, or let bytes arrive. -/
namespace UartIo

open ByteStrings InteractionProgram StdString RequestContent

inductive UartCall where
  | uartGetBufferedDataLen
  | uartReadBytes (length : ℕ)
  | uartWriteBytes (src : Bytes)

/-- A read answers with its result and the bytes that it stores. -/
abbrev UartInterface : Interface where
  Call := UartCall
  Resp
    | .uartGetBufferedDataLen => ℕ
    | .uartReadBytes _ => ℤ × Bytes
    | .uartWriteBytes _ => ℤ

abbrev UartProgram := Program UartInterface

def uartGetBufferedDataLen : UartProgram ℕ := @perform UartInterface .uartGetBufferedDataLen

def uartReadBytes (length : ℕ) : UartProgram (ℤ × Bytes) :=
  @perform UartInterface (.uartReadBytes length)

def uartWriteBytes (src : Bytes) : UartProgram ℤ := @perform UartInterface (.uartWriteBytes src)

/-- The lock is held for this call only. -/
def bytesAvailable : UartProgram ℕ := do
  let available ← uartGetBufferedDataLen
  return available

/-- What both overloads have in common. A result becomes true unless it is zero. -/
def readByteInto {α : Type} (ofByte : UInt8 → α) (byte : α) : UartProgram (Bool × α) := do
  let (read, bytes) ← uartReadBytes 1
  return (read != 0, (bytes.head?.map ofByte).getD byte)

def readByteChar (byte : Int8) : UartProgram (Bool × Int8) := readByteInto UInt8.toInt8 byte

def readByteUInt8 (byte : UInt8) : UartProgram (Bool × UInt8) := readByteInto id byte

def readAll : UartProgram Bytes := do
  let available ← bytesAvailable
  let ret := List.replicate available (0 : UInt8)
  let (_, bytes) ← uartReadBytes available
  return overwrite ret 0 bytes

/-- The memory behind `out`, which is `length` bytes long, after the call. -/
def read (out : Bytes) (length : ℕ) : UartProgram Bytes := do
  let (_, bytes) ← uartReadBytes length
  return overwrite out 0 bytes

/-- The `length` bytes at the pointer are `data`. -/
def write (data : Bytes) : UartProgram ℕ := do
  return toSize (← uartWriteBytes data)

def writeCStr (str : CString) : UartProgram ℕ := do
  return toSize (← uartWriteBytes str.bytes)

def writeString (str : Bytes) : UartProgram ℕ := do
  return toSize (← uartWriteBytes str)

section Calls

variable {σ : Type} (h : Handler UartInterface σ) (length : ℕ) (src : Bytes) (s : σ)

@[simp] theorem run_uartGetBufferedDataLen :
    uartGetBufferedDataLen.run h s = h .uartGetBufferedDataLen s := rfl

@[simp] theorem run_uartReadBytes :
    (uartReadBytes length).run h s = h (.uartReadBytes length) s := rfl

@[simp] theorem run_uartWriteBytes :
    (uartWriteBytes src).run h s = h (.uartWriteBytes src) s := rfl

end Calls

inductive Interference where
  | uartFlushInput
  | read (length : ℕ)
  | arrive (bytes : Bytes)
  deriving DecidableEq

def Interference.apply (ring : Bytes) : Interference → Bytes
  | .uartFlushInput => []
  | .read length => ring.drop length
  | .arrive bytes => ring ++ bytes

/-- What happens before a call, and how many bytes it then handles at most; none is an error. -/
structure Turn where
  before : List Interference
  outcome : Option ℕ

def Turn.ring (turn : Turn) (ring : Bytes) : Bytes := turn.before.foldl Interference.apply ring

structure Port where
  ring : Bytes
  delivered : Bytes

def Port.deliver (s : Port) (n : ℕ) : (ℤ × Bytes) × Port :=
  (((s.ring.take n).length, s.ring.take n), ⟨s.ring.drop n, s.delivered ++ s.ring.take n⟩)

def uartDriver : Environment UartInterface Turn Port
  | .uartGetBufferedDataLen, turn, s =>
    ((turn.ring s.ring).length, { s with ring := turn.ring s.ring })
  | .uartReadBytes length, turn, s =>
    match turn.outcome with
    | none => ((-1, []), { s with ring := turn.ring s.ring })
    | some k => { s with ring := turn.ring s.ring }.deliver (min k length)
  | .uartWriteBytes src, turn, s =>
    match turn.outcome with
    | none => (-1, { s with ring := turn.ring s.ring })
    | some k => ((min k src.length : ℕ), { s with ring := turn.ring s.ring })

section Interleaving

def ringBytes (s : Uart.State) : Bytes := s.ring.map Uart.Buffered.byte

theorem push_ring (s : Uart.State) (event : Uart.UartEventType) :
    (s.push event).ring = s.ring := by
  unfold Uart.State.push
  split
  · rfl
  · rfl

theorem idleDetectionTask_ring (s : Uart.State) : s.idleDetectionTask.ring = s.ring := by
  unfold Uart.State.idleDetectionTask
  cases s.detector with
  | _ => rfl

theorem uartEventTask_ring (s : Uart.State) :
    s.uartEventTask.ring = s.ring ∨ s.uartEventTask.ring = [] := by
  unfold Uart.State.uartEventTask
  cases s.eventTask with
  | waiting =>
    cases s.eventQueue with
    | nil => exact Or.inl rfl
    | cons event rest => exact Or.inl rfl
  | received event =>
    cases event with
    | bufferFull => exact Or.inr rfl
    | fifoOvf => exact Or.inr rfl
    | _ => exact Or.inl rfl
  | stamped => exact Or.inl rfl
  | starting => exact Or.inl rfl
  | flushed => exact Or.inl rfl

theorem next_interferes (s : Uart.State) (e : Uart.Event) :
    ringBytes (Uart.system.next s e) = ringBytes s ∨
      ∃ i : Interference, ringBytes (Uart.system.next s e) = i.apply (ringBytes s) := by
  cases e with
  | tick us => exact Or.inl rfl
  | arrive bytes =>
    refine Or.inr ⟨.arrive bytes, ?_⟩
    simp [ringBytes, Uart.system, Interference.apply, Function.comp_def]
  | announce => exact Or.inl (congrArg (List.map _) (push_ring s .data))
  | report event => exact Or.inl (congrArg (List.map _) (push_ring s event))
  | uartEventTask =>
    rcases uartEventTask_ring s with hsame | hflushed
    · exact Or.inl (congrArg (List.map _) hsame)
    · exact Or.inr ⟨.uartFlushInput, congrArg (List.map _) hflushed⟩
  | idleDetectionTask => exact Or.inl (congrArg (List.map _) (idleDetectionTask_ring s))
  | read length => exact Or.inr ⟨.read length, List.map_drop⟩
  | onDataReceived cb => exact Or.inl rfl

/-- Whatever a run of the system does between two calls is the interference of one turn. -/
theorem run_interferes (s : Uart.State) (es : List Uart.Event) (outcome : Option ℕ) :
    ∃ turn : Turn, turn.outcome = outcome ∧
      ringBytes (es.foldl Uart.system.next s) = turn.ring (ringBytes s) := by
  induction es generalizing s with
  | nil => exact ⟨⟨[], outcome⟩, rfl, rfl⟩
  | cons e es ih =>
    obtain ⟨turn, houtcome, hring⟩ := ih (Uart.system.next s e)
    rw [List.foldl_cons, hring]
    rcases next_interferes s e with hsame | ⟨i, hi⟩
    · rw [hsame]
      exact ⟨turn, houtcome, rfl⟩
    · rw [hi]
      exact ⟨⟨i :: turn.before, turn.outcome⟩, houtcome, rfl⟩

end Interleaving

end UartIo
