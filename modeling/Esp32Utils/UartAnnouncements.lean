import Esp32Utils.Uart

/-! # Announcements of received bytes

Bytes are announced by a callback that starts after they arrived. A byte that no callback
has announced yet needs a UART_DATA event on its way, or a detector that is yet to call. -/
namespace UartAnnouncements

open ByteStrings GuardedRuns Uart

def Unannounced (s : State) : Prop := ∃ b ∈ s.ring, s.callbacks ≤ b.arrived

/-- Whenever all is quiet, what is still in the ring buffer arrived before the last callback
started. -/
def Announced (s : State) : Prop :=
  s.arriving = false → s.eventQueue = [] → s.eventTask = .waiting → s.detector = .stopped →
    ∀ b ∈ s.ring, b.arrived < s.callbacks

def WillCall : Detector → Prop
  | .testing | .delaying | .detected => True
  | .stopped | .called => False

def HoldsData : EventTask → Prop
  | .received .data | .stamped | .starting => True
  | _ => False

/-- No step drops the last sign of bytes that no callback has announced: a full queue, the
queue's reset, a detector whose callback has started and still counts as running, and a
detector without a function to call. -/
def Kept (s : State) : Event → Prop
  | .announce =>
    Unannounced s → s.eventQueue.length < uartEventQueueLength ∨
      .data ∈ s.eventQueue ∨ HoldsData s.eventTask ∨ WillCall s.detector
  | .uartEventTask =>
    (s.eventTask = .stamped → s.detector = .called → Unannounced s →
      s.arriving = true ∨ .data ∈ s.eventQueue) ∧
    (s.eventTask = .flushed → Unannounced s → s.arriving = true ∨ WillCall s.detector)
  | .idleDetectionTask =>
    s.detector = .detected → s.onDataReceivedCb = false → Unannounced s →
      s.arriving = true ∨ .data ∈ s.eventQueue ∨ HoldsData s.eventTask
  | _ => True

def Reported (s : State) : Prop :=
  s.arriving = true ∨ .data ∈ s.eventQueue ∨ HoldsData s.eventTask

structure Inv (s : State) : Prop where
  coming : Unannounced s → Reported s ∨ WillCall s.detector
  past : ∀ b ∈ s.ring, b.arrived ≤ s.callbacks
  starting : s.eventTask = .starting → s.detector = .stopped

section Steps

variable {s : State}

theorem inv_initial : Inv system.initial := by
  refine ⟨?_, ?_, ?_⟩
  · rintro ⟨b, hb, -⟩
    exact absurd hb List.not_mem_nil
  · intro b hb
    exact absurd hb List.not_mem_nil
  · intro _
    rfl

theorem inv_arrive (h : Inv s) (bytes : Bytes) : Inv (system.next s (.arrive bytes)) := by
  refine ⟨fun _ => .inl (.inl rfl), ?_, h.starting⟩
  intro b hb
  rcases List.mem_append.mp hb with hb | hb
  · exact h.past b hb
  · obtain ⟨_, -, rfl⟩ := List.mem_map.mp hb
    exact Nat.le_refl _

theorem push_of_room {event : UartEventType}
    (h : s.eventQueue.length < uartEventQueueLength) :
    s.push event = { s with eventQueue := s.eventQueue ++ [event] } := if_pos h

theorem push_of_full {event : UartEventType}
    (h : ¬ s.eventQueue.length < uartEventQueueLength) : s.push event = s := if_neg h

theorem inv_announce (h : Inv s) (hk : Kept s .announce) :
    Inv (system.next s .announce) := by
  by_cases hroom : s.eventQueue.length < uartEventQueueLength
  · have hnext : system.next s .announce =
        { s with eventQueue := s.eventQueue ++ [.data], arriving := false } := by
      simp only [system, push_of_room hroom]
    rw [hnext]
    refine ⟨fun _ => .inl (.inr (.inl ?_)), h.past, h.starting⟩
    exact List.mem_append_right _ (List.mem_singleton_self _)
  · have hnext : system.next s .announce = { s with arriving := false } := by
      simp only [system, push_of_full hroom]
    rw [hnext]
    refine ⟨?_, h.past, h.starting⟩
    intro hu
    rcases hk hu with hlt | hdata | hholds | hcall
    · exact absurd hlt hroom
    · exact .inl (.inr (.inl hdata))
    · exact .inl (.inr (.inr hholds))
    · exact .inr hcall

theorem inv_report (h : Inv s) (event : UartEventType) :
    Inv (system.next s (.report event)) := by
  change Inv (s.push event)
  by_cases hroom : s.eventQueue.length < uartEventQueueLength
  · rw [push_of_room hroom]
    refine ⟨?_, h.past, h.starting⟩
    intro hu
    rcases h.coming hu with (harriving | hdata | hholds) | hcall
    · exact .inl (.inl harriving)
    · exact .inl (.inr (.inl (List.mem_append_left _ hdata)))
    · exact .inl (.inr (.inr hholds))
    · exact .inr hcall
  · rw [push_of_full hroom]
    exact h

theorem inv_read (h : Inv s) (length : ℕ) : Inv (system.next s (.read length)) := by
  refine ⟨?_, fun b hb => h.past b (List.mem_of_mem_drop hb), h.starting⟩
  rintro ⟨b, hb, hle⟩
  exact h.coming ⟨b, List.mem_of_mem_drop hb, hle⟩

theorem Reported.drop {s' : State} (h : Reported s) (htask : ¬ HoldsData s.eventTask)
    (harriving : s'.arriving = s.arriving) (hqueue : s'.eventQueue = s.eventQueue) :
    Reported s' := by
  rcases h with h | h | h
  · exact .inl (harriving.trans h)
  · exact .inr (.inl (hqueue ▸ h))
  · exact absurd h htask

theorem inv_receive (h : Inv s) (hwait : s.eventTask = .waiting) : Inv s.uartEventTask := by
  unfold State.uartEventTask
  rw [hwait]
  cases hqueue : s.eventQueue with
  | nil => simpa only using h
  | cons event rest =>
    refine ⟨?_, h.past, fun hstart => nomatch hstart⟩
    intro hu
    rcases h.coming hu with (harriving | hdata | hholds) | hcall
    · exact .inl (.inl harriving)
    · rw [hqueue] at hdata
      rcases List.mem_cons.mp hdata with rfl | hdata
      · exact .inl (.inr (.inr trivial))
      · exact .inl (.inr (.inl hdata))
    · rw [hwait] at hholds
      exact hholds.elim
    · exact .inr hcall

theorem inv_ignore (h : Inv s) (hother : ¬ HoldsData s.eventTask) :
    Inv { s with eventTask := .waiting } := by
  refine ⟨?_, h.past, fun hstart => nomatch hstart⟩
  intro hu
  rcases h.coming hu with hreported | hcall
  · exact .inl (hreported.drop hother rfl rfl)
  · exact .inr hcall

theorem inv_flush (s : State) : Inv { s with ring := [], eventTask := .flushed } := by
  refine ⟨?_, fun b hb => absurd hb List.not_mem_nil, fun hstart => nomatch hstart⟩
  rintro ⟨b, hb, -⟩
  exact absurd hb List.not_mem_nil

theorem inv_received (h : Inv s) {event : UartEventType}
    (hreceived : s.eventTask = .received event) : Inv s.uartEventTask := by
  unfold State.uartEventTask
  rw [hreceived]
  have hother : event ≠ .data → ¬ HoldsData s.eventTask := by
    intro hne hholds
    rw [hreceived] at hholds
    cases event with
    | data => exact hne rfl
    | _ => exact hholds
  cases event with
  | data =>
    exact ⟨fun _ => .inl (.inr (.inr trivial)), h.past, fun hstart => nomatch hstart⟩
  | fifoOvf => exact inv_flush s
  | bufferFull => exact inv_flush s
  | «break» => exact inv_ignore h (hother (by decide))
  | frameErr => exact inv_ignore h (hother (by decide))
  | parityErr => exact inv_ignore h (hother (by decide))
  | dataBreak => exact inv_ignore h (hother (by decide))
  | patternDet => exact inv_ignore h (hother (by decide))

theorem inv_stamped (h : Inv s) (hk : Kept s .uartEventTask)
    (hstamped : s.eventTask = .stamped) : Inv s.uartEventTask := by
  unfold State.uartEventTask
  rw [hstamped]
  by_cases hstopped : s.detector = .stopped
  · have hrunning : (!s.detector.isRunning) = true := by
      rw [hstopped]
      rfl
    simp only [hrunning, if_true]
    exact ⟨fun _ => .inl (.inr (.inr trivial)), h.past, fun _ => hstopped⟩
  · have hrunning : ¬ (!s.detector.isRunning) = true := by
      simp [Detector.isRunning, hstopped]
    simp only [hrunning]
    refine ⟨?_, h.past, fun hstart => nomatch hstart⟩
    intro hu
    cases hdetector : s.detector with
    | stopped => exact absurd hdetector hstopped
    | testing => exact .inr trivial
    | delaying => exact .inr trivial
    | detected => exact .inr trivial
    | called =>
      rcases hk.1 hstamped hdetector hu with harriving | hdata
      · exact .inl (.inl harriving)
      · exact .inl (.inr (.inl hdata))

theorem inv_starting (h : Inv s) (hstarting : s.eventTask = .starting) :
    Inv s.uartEventTask := by
  unfold State.uartEventTask
  rw [hstarting]
  have hrunning : s.detector.isRunning = false := by
    rw [h.starting hstarting]
    rfl
  simp only [hrunning, Bool.false_eq_true, if_false]
  exact ⟨fun _ => .inr trivial, h.past, fun hstart => nomatch hstart⟩

theorem inv_reset (h : Inv s) (hk : Kept s .uartEventTask) (hflushed : s.eventTask = .flushed) :
    Inv s.uartEventTask := by
  unfold State.uartEventTask
  rw [hflushed]
  refine ⟨?_, h.past, fun hstart => nomatch hstart⟩
  intro hu
  rcases hk.2 hflushed hu with harriving | hcall
  · exact .inl (.inl harriving)
  · exact .inr hcall

theorem inv_uartEventTask (h : Inv s) (hk : Kept s .uartEventTask) : Inv s.uartEventTask := by
  cases htask : s.eventTask with
  | waiting => exact inv_receive h htask
  | received event => exact inv_received h htask
  | stamped => exact inv_stamped h hk htask
  | starting => exact inv_starting h htask
  | flushed => exact inv_reset h hk htask

theorem inv_callback (h : Inv s) (hk : Kept s .idleDetectionTask)
    (hdetected : s.detector = .detected) : Inv s.idleDetectionTask := by
  have hstarting : s.eventTask ≠ .starting := by
    intro hstart
    rw [h.starting hstart] at hdetected
    exact absurd hdetected (by decide)
  unfold State.idleDetectionTask
  rw [hdetected]
  cases hcb : s.onDataReceivedCb with
  | true =>
    refine ⟨?_, ?_, fun hstart => absurd hstart hstarting⟩
    · rintro ⟨b, hb, hle⟩
      have := h.past b hb
      exact absurd hle (by simp only [if_true]; omega)
    · intro b hb
      exact Nat.le_succ_of_le (h.past b hb)
  | false =>
    refine ⟨?_, h.past, fun hstart => absurd hstart hstarting⟩
    intro hu
    exact .inl (hk hdetected hcb hu)

theorem inv_idleDetectionTask (h : Inv s) (hk : Kept s .idleDetectionTask)
    (hrunning : s.detector ≠ .stopped) : Inv s.idleDetectionTask := by
  have hstarting : s.eventTask ≠ .starting := fun hstart => hrunning (h.starting hstart)
  cases hdetector : s.detector with
  | stopped => exact absurd hdetector hrunning
  | testing =>
    unfold State.idleDetectionTask
    rw [hdetector]
    refine ⟨fun _ => .inr ?_, h.past, fun hstart => absurd hstart hstarting⟩
    cases hbusy : s.busy with
    | true => simp only [if_true, WillCall]
    | false => simp only [Bool.false_eq_true, if_false, WillCall]
  | delaying =>
    unfold State.idleDetectionTask
    rw [hdetector]
    exact ⟨fun _ => .inr trivial, h.past, fun hstart => absurd hstart hstarting⟩
  | detected => exact inv_callback h hk hdetector
  | called =>
    unfold State.idleDetectionTask
    rw [hdetector]
    refine ⟨?_, h.past, fun hstart => absurd hstart hstarting⟩
    intro hu
    rcases h.coming hu with hreported | hcall
    · exact .inl hreported
    · rw [hdetector] at hcall
      exact hcall.elim

theorem inv_step (s : State) (e : Event) (h : Inv s) (he : system.Enabled s e)
    (hk : Kept s e) : Inv (system.next s e) := by
  cases e with
  | tick us => exact ⟨h.coming, h.past, h.starting⟩
  | arrive bytes => exact inv_arrive h bytes
  | announce => exact inv_announce h hk
  | report event => exact inv_report h event
  | uartEventTask => exact inv_uartEventTask h hk
  | idleDetectionTask => exact inv_idleDetectionTask h hk he
  | read length => exact inv_read h length
  | onDataReceived cb => exact ⟨h.coming, h.past, h.starting⟩

theorem Inv.announced (h : Inv s) : Announced s := by
  intro harriving hqueue htask hdetector b hb
  by_contra hle
  rcases h.coming ⟨b, hb, Nat.not_lt.mp hle⟩ with (hup | hdata | hholds) | hcall
  · exact absurd (harriving.symm.trans hup) (by decide)
  · rw [hqueue] at hdata
    exact absurd hdata List.not_mem_nil
  · rw [htask] at hholds
    exact hholds
  · rw [hdetector] at hcall
    exact hcall

end Steps

/-- While no step drops the last sign of them, received bytes are announced. -/
theorem received_bytes_announced {h : List Event} {s : State}
    (hr : system.Reached Kept h s) : Announced s :=
  (hr.invariant inv_initial inv_step).announced

section Sample

instance (s : State) : Decidable (Unannounced s) :=
  inferInstanceAs (Decidable (∃ b ∈ s.ring, s.callbacks ≤ b.arrived))

instance (d : Detector) : Decidable (WillCall d) := by
  cases d <;> unfold WillCall <;> infer_instance

instance (t : EventTask) : Decidable (HoldsData t) := by
  cases t with
  | received event => cases event <;> unfold HoldsData <;> infer_instance
  | _ => unfold HoldsData; infer_instance

instance (s : State) (e : Event) : Decidable (Kept s e) := by
  cases e <;> unfold Kept <;> infer_instance

instance (s : State) (e : Event) : Decidable (system.Enabled s e) := by
  cases e <;> simp only [system] <;> infer_instance

/-- One second after the start a byte arrives, its event starts the detector, and 50 ms
later the callback starts. -/
def firstByte : List Event :=
  [.onDataReceived true, .tick 1000000, .arrive [0x61], .announce, .uartEventTask,
    .uartEventTask, .uartEventTask, .uartEventTask, .idleDetectionTask, .tick 50000,
    .idleDetectionTask, .idleDetectionTask, .idleDetectionTask]

theorem received_bytes_announced_sample :
    Announced ((firstByte ++ [Event.idleDetectionTask]).foldl system.next system.initial) :=
  received_bytes_announced (System.Reached.init.follows (by decide))

/-- A byte arrives while the callback runs; its event finds the detector running, which
tests for idleness no more. -/
theorem byte_during_callback : ∃ s,
    system.Run (firstByte ++ [Event.arrive [0x62], .announce, .uartEventTask, .uartEventTask,
      .uartEventTask, .idleDetectionTask]) s ∧ ¬ Announced s := by
  refine ⟨_, System.Reached.init.follows (by decide), ?_⟩
  intro ha
  have hring := ha rfl rfl rfl rfl ⟨0x62, 1⟩ (by decide)
  exact absurd hring (by decide)

end Sample

end UartAnnouncements
