import Esp32Utils.ByteStrings
import Esp32Utils.TimeUtils
import Esp32Utils.Interaction.GuardedRuns

/-! # Uart

The driver, the event task and the idle detector take their steps one at a time, in any
order, and beside them the clock and the user of the port. -/
namespace Uart

open ByteStrings TimeUtils GuardedRuns

def uartEventQueueLength : ℕ := 20

def uartIdlePeriodMs : UInt32 := 50

inductive UartEventType where
  | data
  | break
  | bufferFull
  | fifoOvf
  | frameErr
  | parityErr
  | dataBreak
  | patternDet
  deriving DecidableEq

inductive EventTask where
  | waiting
  | received (event : UartEventType)
  /-- The time is set, `isRunning` comes next. -/
  | stamped
  /-- The detector was not running, `start` comes next. -/
  | starting
  /-- The input is flushed, `xQueueReset` comes next. -/
  | flushed
  deriving DecidableEq

inductive Detector where
  | stopped
  | testing
  | delaying
  /-- Idle is detected, the callback comes next. -/
  | detected
  /-- The callback runs or has returned, and the functor still counts as running. -/
  | called
  deriving DecidableEq

def Detector.isRunning (d : Detector) : Bool := d ≠ .stopped

/-- A byte in the ring buffer, with the number of callbacks started before it arrived. -/
structure Buffered where
  byte : UInt8
  arrived : ℕ
  deriving DecidableEq

structure State where
  espTimer : UInt64
  ring : List Buffered
  /-- The driver has put bytes in the ring buffer and has yet to queue their event. -/
  arriving : Bool
  eventQueue : List UartEventType
  lastTimeDataReceived : UInt32
  /-- The callback object holds a function. -/
  onDataReceivedCb : Bool
  eventTask : EventTask
  detector : Detector
  callbacks : ℕ
  deriving DecidableEq

/-- The driver queues an event; a full queue takes none. -/
def State.push (s : State) (event : UartEventType) : State :=
  if s.eventQueue.length < uartEventQueueLength then
    { s with eventQueue := s.eventQueue ++ [event] }
  else s

def State.uartEventTask (s : State) : State :=
  match s.eventTask with
  | .waiting =>
    match s.eventQueue with
    | [] => s
    | event :: rest => { s with eventQueue := rest, eventTask := .received event }
  | .received .data =>
    { s with lastTimeDataReceived := nowMs s.espTimer, eventTask := .stamped }
  | .received .fifoOvf => { s with ring := [], eventTask := .flushed }
  | .received .bufferFull => { s with ring := [], eventTask := .flushed }
  | .received _ => { s with eventTask := .waiting }
  | .stamped =>
    { s with eventTask := if !s.detector.isRunning then .starting else .waiting }
  | .starting =>
    { s with
      detector := if s.detector.isRunning then s.detector else .testing
      eventTask := .waiting }
  | .flushed => { s with eventQueue := [], eventTask := .waiting }

/-- The condition of the loop in `idleDetectionTask`. -/
def State.busy (s : State) : Bool :=
  s.lastTimeDataReceived ≠ 0 &&
    false = isPeriodPassed (nowMs s.espTimer) s.lastTimeDataReceived uartIdlePeriodMs

def State.idleDetectionTask (s : State) : State :=
  match s.detector with
  | .stopped => s
  | .testing => { s with detector := if s.busy then .delaying else .detected }
  | .delaying => { s with detector := .testing }
  | .detected =>
    { s with
      detector := .called
      callbacks := if s.onDataReceivedCb then s.callbacks + 1 else s.callbacks }
  | .called => { s with detector := .stopped }

inductive Event where
  | tick (us : UInt64)
  /-- Bytes come into the ring buffer. -/
  | arrive (bytes : Bytes)
  /-- Their event follows. -/
  | announce
  /-- The driver reports something else. -/
  | report (event : UartEventType)
  | uartEventTask
  | idleDetectionTask
  /-- The user reads bytes, or flushes them. -/
  | read (length : ℕ)
  | onDataReceived (cb : Bool)
  deriving DecidableEq

def system : System State Event where
  initial := ⟨0, [], false, [], 0, false, .waiting, .stopped, 0⟩
  Enabled s
    | .arrive _ => s.arriving = false
    | .announce => s.arriving = true
    | .report event => s.arriving = false ∧ event ≠ .data
    | .uartEventTask => s.eventTask = .waiting → s.eventQueue ≠ []
    | .idleDetectionTask => s.detector ≠ .stopped
    | _ => True
  next s
    | .tick us => { s with espTimer := s.espTimer + us }
    | .arrive bytes =>
      { s with ring := s.ring ++ bytes.map fun b => ⟨b, s.callbacks⟩, arriving := true }
    | .announce => { s.push .data with arriving := false }
    | .report event => s.push event
    | .uartEventTask => s.uartEventTask
    | .idleDetectionTask => s.idleDetectionTask
    | .read length => { s with ring := s.ring.drop length }
    | .onDataReceived cb => { s with onDataReceivedCb := cb }

end Uart
