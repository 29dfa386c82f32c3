import Esp32Utils.UartIo

/-! # What a port reports

What the user functions say about the bytes that have been transferred, and for which
outcomes of the driver's calls it is so. -/
namespace UartReports

open ByteStrings InteractionProgram StdString RequestContent UartIo

abbrev Script := Stream' Turn

/-- True means that a byte has been delivered into the argument. -/
def ReadByteRight {α : Type} (ofByte : UInt8 → α) (operation : UartProgram (Bool × α))
    (script : Script) (s : Port) : Prop :=
  (operation.runScript uartDriver script s).1.1 = true →
    ∃ b, (operation.runScript uartDriver script s).2.delivered = s.delivered ++ [b] ∧
      (operation.runScript uartDriver script s).1.2 = ofByte b

def ReadAllRight (script : Script) (s : Port) : Prop :=
  (readAll.runScript uartDriver script s).2.delivered =
    s.delivered ++ (readAll.runScript uartDriver script s).1

def ReadRight (out : Bytes) (length : ℕ) (script : Script) (s : Port) : Prop :=
  ∃ bytes, ((UartIo.read out length).runScript uartDriver script s).2.delivered =
      s.delivered ++ bytes ∧
    bytes.length ≤ length ∧
    ((UartIo.read out length).runScript uartDriver script s).1 = bytes ++ out.drop bytes.length

def WriteRight (operation : UartProgram ℕ) (length : ℕ) (script : Script) (s : Port) : Prop :=
  (operation.runScript uartDriver script s).1 ≤ length

/-- The second call delivers as many bytes as the first one has announced. -/
def AllDelivered (script : Script) (s : Port) : Prop :=
  let announced := (script.get 0).ring s.ring
  announced = [] ∨ ∃ k, (script.get 1).outcome = some k ∧ announced.length ≤ k ∧
    announced.length ≤ ((script.get 1).ring announced).length

section Reads

variable {α : Type} {ofByte : UInt8 → α} {byte : α} {script : Script} {s : Port} {length : ℕ}
  {out : Bytes}

theorem driver_read_error {turn : Turn} (h : turn.outcome = none) :
    uartDriver (.uartReadBytes length) turn s =
      ((-1, []), { s with ring := turn.ring s.ring }) := by
  simp only [uartDriver, h]

theorem driver_read {turn : Turn} {k : ℕ} (h : turn.outcome = some k) :
    uartDriver (.uartReadBytes length) turn s =
      { s with ring := turn.ring s.ring }.deliver (min k length) := by
  simp only [uartDriver, h]

theorem driver_read_delivered (turn : Turn) :
    (uartDriver (.uartReadBytes length) turn s).2.delivered =
        s.delivered ++ (uartDriver (.uartReadBytes length) turn s).1.2 ∧
      (uartDriver (.uartReadBytes length) turn s).1.2.length ≤ length := by
  cases h : turn.outcome with
  | none =>
    rw [driver_read_error h]
    exact ⟨(List.append_nil _).symm, Nat.zero_le _⟩
  | some k =>
    rw [driver_read h]
    refine ⟨rfl, ?_⟩
    simp only [Port.deliver, List.length_take]
    omega

theorem readByte_right_iff : ReadByteRight ofByte (readByteInto ofByte byte) script s ↔
    (script.get 0).outcome ≠ none := by
  have hrun : (readByteInto ofByte byte).runScript uartDriver script s =
      (((uartDriver (.uartReadBytes 1) script.head s).1.1 != 0,
        ((uartDriver (.uartReadBytes 1) script.head s).1.2.head?.map ofByte).getD byte),
        (uartDriver (.uartReadBytes 1) script.head s).2) := by
    simp [Program.runScript, readByteInto, scripted]
  rw [ReadByteRight, hrun]
  cases h : script.head.outcome with
  | none =>
    rw [driver_read_error h]
    apply iff_of_false _ (not_not.mpr rfl)
    intro hright
    obtain ⟨b, hb, -⟩ := hright rfl
    exact absurd hb (by simp)
  | some k =>
    apply iff_of_true _ (Option.some_ne_none k)
    rw [driver_read h]
    simp only [Port.deliver]
    intro htrue
    obtain ⟨b, hb⟩ : ∃ b, (script.head.ring s.ring).take (min k 1) = [b] := by
      rw [← List.length_eq_one_iff]
      simp only [bne_iff_ne, ne_eq, Int.natCast_eq_zero, List.length_take] at htrue ⊢
      omega
    rw [hb]
    exact ⟨b, rfl, rfl⟩

theorem run_readAll : readAll.runScript uartDriver script s =
    let announced := (script.get 0).ring s.ring
    let answer := uartDriver (.uartReadBytes announced.length) (script.get 1)
      { s with ring := announced }
    (answer.1.2 ++ List.replicate (announced.length - answer.1.2.length) 0, answer.2) := by
  simp [Program.runScript, readAll, bytesAvailable, scripted, overwrite, uartDriver]

theorem delivered_all_iff {turn : Turn} :
    length ≤ (uartDriver (.uartReadBytes length) turn s).1.2.length ↔
      length = 0 ∨ ∃ k, turn.outcome = some k ∧ length ≤ k ∧
        length ≤ (turn.ring s.ring).length := by
  cases h : turn.outcome with
  | none =>
    rw [driver_read_error h]
    simp
  | some k =>
    rw [driver_read h]
    simp only [Port.deliver, List.length_take, Option.some.injEq, exists_eq_left']
    omega

theorem readAll_right_iff : ReadAllRight script s ↔ AllDelivered script s := by
  have hdelivered := (@driver_read_delivered { s with ring := (script.get 0).ring s.ring }
    ((script.get 0).ring s.ring).length (script.get 1)).1
  rw [ReadAllRight, run_readAll]
  simp only [hdelivered, AllDelivered, ← List.length_eq_zero_iff]
  rw [← @delivered_all_iff { s with ring := (script.get 0).ring s.ring },
    List.append_cancel_left_eq, List.self_eq_append_right, List.replicate_eq_nil_iff]
  omega

theorem read_right : ReadRight out length script s := by
  have hrun : (UartIo.read out length).runScript uartDriver script s =
      (overwrite out 0 (uartDriver (.uartReadBytes length) script.head s).1.2,
        (uartDriver (.uartReadBytes length) script.head s).2) := by
    simp [Program.runScript, UartIo.read, scripted]
  obtain ⟨hdelivered, hlength⟩ := @driver_read_delivered s length script.head
  rw [ReadRight, hrun]
  refine ⟨_, hdelivered, hlength, ?_⟩
  rw [overwrite, List.take_zero, List.nil_append, Nat.zero_add]

end Reads

section Writes

variable {script : Script} {s : Port} {data : Bytes}

theorem toSize_le (n : ℕ) : toSize n ≤ n := by
  unfold toSize
  omega

/-- The error is converted to the largest size. -/
theorem write_right_iff : WriteRight (write data) data.length script s ↔
    (script.get 0).outcome ≠ none ∨ 2 ^ 32 - 1 ≤ data.length := by
  have hrun : ((write data).runScript uartDriver script s).1 =
      toSize (uartDriver (.uartWriteBytes data) script.head s).1 := by
    simp [Program.runScript, write, scripted]
  rw [WriteRight, hrun]
  change _ ↔ script.head.outcome ≠ none ∨ _
  cases h : script.head.outcome with
  | none =>
    have hmax : toSize (-1) = 2 ^ 32 - 1 := by decide
    simp only [uartDriver, h, hmax, ne_eq, not_true_eq_false, false_or]
  | some k =>
    have hle : toSize (min k data.length : ℕ) ≤ data.length :=
      (toSize_le _).trans (Nat.min_le_right _ _)
    simp only [uartDriver, h]
    exact iff_of_true hle (Or.inl (Option.some_ne_none k))

end Writes

/-- Reports are right exactly when a read of one byte and a write do not fail, and when a read
of all bytes delivers as many as were announced. A plain read stores what it delivers. -/
theorem reports_right_iff (script : Script) (s : Port) :
    (∀ byte, ReadByteRight UInt8.toInt8 (readByteChar byte) script s ↔
      (script.get 0).outcome ≠ none) ∧
    (∀ byte, ReadByteRight id (readByteUInt8 byte) script s ↔
      (script.get 0).outcome ≠ none) ∧
    (ReadAllRight script s ↔ AllDelivered script s) ∧
    (∀ out length, ReadRight out length script s) ∧
    (∀ data : Bytes, WriteRight (write data) data.length script s ↔
      (script.get 0).outcome ≠ none ∨ 2 ^ 32 - 1 ≤ data.length) ∧
    (∀ str : CString, WriteRight (writeCStr str) str.bytes.length script s ↔
      (script.get 0).outcome ≠ none ∨ 2 ^ 32 - 1 ≤ str.bytes.length) ∧
    (∀ str : Bytes, WriteRight (writeString str) str.length script s ↔
      (script.get 0).outcome ≠ none ∨ 2 ^ 32 - 1 ≤ str.length) :=
  ⟨fun _ => readByte_right_iff, fun _ => readByte_right_iff, readAll_right_iff,
    fun _ _ => read_right, fun _ => write_right_iff, fun _ => write_right_iff,
    fun _ => write_right_iff⟩

section Sample

def failing : Script := Stream'.const ⟨[], none⟩

def flushedBetween : Script := [⟨[], none⟩, ⟨[.uartFlushInput], some 2⟩] ++ₛ failing

/-- An error is reported as a byte that has been read, and as a write of the largest size;
bytes that are flushed behind their announcement come back as NULs. -/
theorem error_reported_as_success :
    ((readByteUInt8 7).runScript uartDriver failing ⟨[], []⟩).1 = (true, 7) ∧
      ((write (ascii "a")).runScript uartDriver failing ⟨[], []⟩).1 = 4294967295 ∧
      (readAll.runScript uartDriver flushedBetween ⟨ascii "ab", []⟩).1 = [0, 0] ∧
      ¬ ReadByteRight id (readByteUInt8 7) failing ⟨[], []⟩ ∧
      ¬ WriteRight (write (ascii "a")) 1 failing ⟨[], []⟩ := by
  have hread : ((readByteUInt8 7).runScript uartDriver failing ⟨[], []⟩).1 = (true, 7) := by decide
  have hwrite : ((write (ascii "a")).runScript uartDriver failing ⟨[], []⟩).1 = 4294967295 := by
    decide
  refine ⟨hread, hwrite, by decide, ?_, ?_⟩
  · intro hright
    obtain ⟨b, hb, -⟩ := hright (by rw [hread])
    have hnone : ((readByteUInt8 7).runScript uartDriver failing ⟨[], []⟩).2.delivered = [] := by
      decide
    exact absurd (hnone.symm.trans hb) (List.cons_ne_nil b []).symm
  · rw [WriteRight, hwrite]
    decide

end Sample

end UartReports
