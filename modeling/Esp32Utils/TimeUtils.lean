import Mathlib.Algebra.Group.Nat.Defs

/-! # Clock arithmetic

The millisecond clock is the microsecond timer divided down and cut to 32 bits, and
so is the sum of a time and a period. -/
namespace TimeUtils

def msFactor : UInt64 := 1000

/-- The reading of the clock, given what `esp_timer_get_time` returns. -/
def millis (espTimer : UInt64) : UInt32 := (espTimer / msFactor).toUInt32

def nowMs (espTimer : UInt64) : UInt32 := millis espTimer

def isPeriodPassed (now start period : UInt32) : Bool := now ≥ start + period

/-- The reading of the clock at a true time in milliseconds since boot. -/
def ms (T : ℕ) : UInt32 := UInt32.ofNat T

theorem ms_toNat (T : ℕ) : (ms T).toNat = T % 2 ^ 32 := UInt32.toNat_ofNat'

theorem nowMs_eq_ms (espTimer : UInt64) : nowMs espTimer = ms (espTimer.toNat / 1000) := by
  apply UInt32.toNat_inj.mp
  have hf : msFactor.toNat = 1000 := rfl
  simp only [nowMs, millis, ms_toNat, UInt64.toNat_toUInt32, UInt64.toNat_div, hf]

theorem isPeriodPassed_eq_true {now start period : UInt32} :
    isPeriodPassed now start period = true ↔
      (start.toNat + period.toNat) % 2 ^ 32 ≤ now.toNat := by
  simp only [isPeriodPassed, ge_iff_le, decide_eq_true_eq, UInt32.le_iff_toNat_le,
    UInt32.toNat_add]

theorem isPeriodPassed_ms {T0 T1 : ℕ} {period : UInt32} (hle : T0 ≤ T1) :
    isPeriodPassed (ms T1) (ms T0) period = true ↔
      (T0 % 2 ^ 32 + period.toNat) % 2 ^ 32 ≤ (T0 % 2 ^ 32 + (T1 - T0)) % 2 ^ 32 := by
  have hclock : T1 % 2 ^ 32 = (T0 % 2 ^ 32 + (T1 - T0)) % 2 ^ 32 := by omega
  rw [isPeriodPassed_eq_true, ms_toNat, ms_toNat, hclock]

theorem cut_le_iff {start period elapsed : ℕ} (hs : start < 2 ^ 32) (hp : period < 2 ^ 32)
    (he : elapsed < 2 ^ 32) :
    ((start + period) % 2 ^ 32 ≤ (start + elapsed) % 2 ^ 32 ↔ elapsed ≥ period) ↔
      (start + elapsed < 2 ^ 32 ↔ start + period < 2 ^ 32) := by
  by_cases hclock : start + elapsed < 2 ^ 32
  · rw [Nat.mod_eq_of_lt hclock]
    by_cases hsum : start + period < 2 ^ 32
    · rw [Nat.mod_eq_of_lt hsum]
      omega
    · omega
  · by_cases hsum : start + period < 2 ^ 32
    · rw [Nat.mod_eq_of_lt hsum]
      omega
    · omega

/-- Neither the clock nor the sum of start and period has wrapped since the start was
recorded, or both have. -/
def WrapTogether (T0 T1 : ℕ) (period : UInt32) : Prop :=
  T0 % 2 ^ 32 + (T1 - T0) < 2 ^ 32 ↔ T0 % 2 ^ 32 + period.toNat < 2 ^ 32

instance (T0 T1 : ℕ) (period : UInt32) : Decidable (WrapTogether T0 T1 period) :=
  inferInstanceAs (Decidable (_ ↔ _))

/-- For two readings of the timer the answer is right exactly when the clock and the sum wrap
together. -/
theorem nowMs_right_iff (start now : UInt64) (period : UInt32) (hle : start ≤ now)
    (hlt : now.toNat / 1000 - start.toNat / 1000 < 2 ^ 32) :
    (isPeriodPassed (nowMs now) (nowMs start) period = true ↔
        now.toNat / 1000 - start.toNat / 1000 ≥ period.toNat) ↔
      WrapTogether (start.toNat / 1000) (now.toNat / 1000) period := by
  have hms : start.toNat / 1000 ≤ now.toNat / 1000 := Nat.div_le_div_right hle
  rw [nowMs_eq_ms, nowMs_eq_ms, isPeriodPassed_ms hms]
  exact cut_le_iff (Nat.mod_lt _ (by decide)) period.toNat_lt hlt

/-- The answer is right exactly when the clock and the sum wrap together. -/
theorem isPeriodPassed_right_iff (T0 T1 : ℕ) (period : UInt32) (hle : T0 ≤ T1)
    (hlt : T1 - T0 < 2 ^ 32) :
    (isPeriodPassed (ms T1) (ms T0) period = true ↔ T1 - T0 ≥ period.toNat) ↔
      WrapTogether T0 T1 period := by
  rw [isPeriodPassed_ms hle]
  exact cut_le_iff (Nat.mod_lt _ (by decide)) period.toNat_lt hlt

/-- The idle period of the UART, polled 60 ms after a byte received just before the wrap. -/
theorem isPeriodPassed_right_sample :
    (isPeriodPassed (ms (2 ^ 32 + 50)) (ms (2 ^ 32 - 10)) 50 = true ↔
        (2 ^ 32 + 50) - (2 ^ 32 - 10) ≥ (50 : UInt32).toNat) ↔
      WrapTogether (2 ^ 32 - 10) (2 ^ 32 + 50) 50 :=
  isPeriodPassed_right_iff (2 ^ 32 - 10) (2 ^ 32 + 50) 50 (by decide) (by decide)

/-- Ten milliseconds before the wrap the sum is small already, and 50 ms count as passed
at once. -/
theorem isPeriodPassed_early :
    isPeriodPassed (ms (2 ^ 32 - 10)) (ms (2 ^ 32 - 10)) 50 = true ∧
      ¬ (2 ^ 32 - 10) - (2 ^ 32 - 10) ≥ (50 : UInt32).toNat := by
  decide

end TimeUtils
