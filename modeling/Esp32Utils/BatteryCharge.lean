import Esp32Utils.ClampedScale
import Mathlib.Data.Rat.Floor

/-! # The charge of a battery

The charge of a battery by its voltage, between the voltage of the discharged battery and that
of the full one. Floating-point arithmetic is taken as exact. -/
namespace BatteryCharge

open ClampedScale

structure BatteryMeter where
  dischargedVoltage : UInt16
  fullVoltage : UInt16

/-- `static_cast<float>` of a voltage. -/
def toFloat (voltage : UInt16) : ℚ := voltage.toNat

def divide (a b : ℚ) : Option ℚ := if b = 0 then none else some (a / b)

/-- `static_cast<uint8_t>` cuts off the fraction; what is then out of range is undefined. -/
def toUInt8 (x : ℚ) : Option UInt8 :=
  let whole := if 0 ≤ x then ⌊x⌋ else ⌈x⌉
  if 0 ≤ whole ∧ whole < 256 then some (UInt8.ofNat whole.toNat) else none

def BatteryMeter.chargePercent (m : BatteryMeter) (voltage : UInt16) : Option UInt8 := do
  let percent ← divide (100 * (toFloat voltage - toFloat m.dischargedVoltage))
    (toFloat m.fullVoltage - toFloat m.dischargedVoltage)
  let percent := if percent > 100 then 100 else percent
  let percent := if percent < 0 then 0 else percent
  toUInt8 (percent + 1 / 2)

/-- The charge is defined for every voltage, at most 100, never less for a higher voltage, and
right for the two voltages of the meter. -/
structure WellBehaved (m : BatteryMeter) : Prop where
  bounded : ∀ v, ∃ p, m.chargePercent v = some p ∧ p ≤ 100
  monotone : ∀ v w p q, v ≤ w → m.chargePercent v = some p → m.chargePercent w = some q → p ≤ q
  discharged : m.chargePercent m.dischargedVoltage = some 0
  full : m.chargePercent m.fullVoltage = some 100

section Charge

variable {m : BatteryMeter} {v w : UInt16} {p : ℚ}

theorem toFloat_lt : toFloat v < toFloat w ↔ v < w := by
  rw [toFloat, toFloat, Nat.cast_lt, UInt16.lt_iff_toNat_lt]

theorem toFloat_le : toFloat v ≤ toFloat w ↔ v ≤ w := by
  rw [toFloat, toFloat, Nat.cast_le, UInt16.le_iff_toNat_le]

theorem toFloat_inj : toFloat v = toFloat w ↔ v = w := by
  rw [toFloat, toFloat, Nat.cast_inj, UInt16.toNat_inj]

theorem cut_off : (if (if p > 100 then 100 else p) < 0 then 0 else
    (if p > 100 then 100 else p)) = clamp 100 p := by
  have hmin : (if p > 100 then 100 else p) = min ((100 : ℕ) : ℚ) p := by
    by_cases h : p > 100
    · rw [if_pos h]
      exact (min_eq_left h.le).symm
    · rw [if_neg h]
      exact (min_eq_right (not_lt.mp h)).symm
  rw [hmin, clamp]
  by_cases h : min ((100 : ℕ) : ℚ) p < 0
  · rw [if_pos h, max_eq_left h.le]
  · rw [if_neg h, max_eq_right (not_lt.mp h)]

theorem toUInt8_rounded (h0 : 0 ≤ p) (h : p ≤ (100 : ℕ)) :
    toUInt8 (p + 1 / 2) = some (UInt8.ofNat (rounded p)) := by
  have hnonneg : (0 : ℚ) ≤ p + 1 / 2 := by linarith
  have hfloor : ⌊p + 1 / 2⌋ = (rounded p : ℤ) := (Int.natCast_floor_eq_floor hnonneg).symm
  have hle : rounded p ≤ 100 := by
    have hle := rounded_mono h
    rwa [rounded_natCast] at hle
  have hrange : (0 : ℤ) ≤ rounded p ∧ (rounded p : ℤ) < 256 := by omega
  rw [toUInt8, if_pos hnonneg, hfloor]
  simp only [hrange, and_self, if_true, Int.toNat_natCast]

def charge (m : BatteryMeter) (v : UInt16) : ℕ :=
  reading 100 (toFloat m.dischargedVoltage) (toFloat m.fullVoltage) (toFloat v)

theorem chargePercent_eq (h : m.dischargedVoltage ≠ m.fullVoltage) :
    m.chargePercent v = some (UInt8.ofNat (charge m v)) := by
  have hspan : toFloat m.fullVoltage - toFloat m.dischargedVoltage ≠ 0 := by
    rw [sub_ne_zero]
    exact fun heq => h (toFloat_inj.mp heq).symm
  rw [BatteryMeter.chargePercent, divide, if_neg hspan, Option.bind_eq_bind, Option.bind_some]
  simp only [cut_off]
  exact toUInt8_rounded clamp_nonneg clamp_le

theorem chargePercent_undefined (h : m.dischargedVoltage = m.fullVoltage) :
    m.chargePercent v = none := by
  rw [BatteryMeter.chargePercent, divide, h, sub_self, if_pos rfl]
  rfl

theorem charge_le : charge m v ≤ 100 := reading_le

theorem charge_mono (h : m.dischargedVoltage < m.fullVoltage) (hvw : v ≤ w) :
    charge m v ≤ charge m w :=
  reading_mono (toFloat_lt.mpr h) (toFloat_le.mpr hvw)

theorem charge_discharged : charge m m.dischargedVoltage = 0 := reading_left

theorem charge_full (h : m.dischargedVoltage ≠ m.fullVoltage) : charge m m.fullVoltage = 100 := by
  apply reading_right
  intro heq
  exact h (toFloat_inj.mp heq)

theorem ofNat_charge_le (h : charge m v ≤ charge m w) :
    UInt8.ofNat (charge m v) ≤ UInt8.ofNat (charge m w) := by
  have hv := @charge_le m v
  have hw := @charge_le m w
  rw [UInt8.le_iff_toNat_le, UInt8.toNat_ofNat', UInt8.toNat_ofNat']
  omega

end Charge

/-- A meter is well behaved exactly when its full voltage is above its discharged voltage. -/
theorem wellBehaved_iff (m : BatteryMeter) :
    WellBehaved m ↔ m.dischargedVoltage < m.fullVoltage := by
  constructor
  · intro h
    by_contra hnot
    rw [UInt16.not_lt] at hnot
    have hle := h.monotone _ _ _ _ hnot h.full h.discharged
    exact absurd hle (by decide)
  · intro h
    have hne : m.dischargedVoltage ≠ m.fullVoltage := UInt16.ne_of_lt h
    refine ⟨fun v => ⟨_, chargePercent_eq hne, ?_⟩, ?_, ?_, ?_⟩
    · have hle := @charge_le m v
      rw [UInt8.le_iff_toNat_le, UInt8.toNat_ofNat']
      change charge m v % 2 ^ 8 ≤ 100
      omega
    · intro v w p q hvw hp hq
      rw [chargePercent_eq hne, Option.some.injEq] at hp hq
      rw [← hp, ← hq]
      exact ofNat_charge_le (charge_mono h hvw)
    · rw [chargePercent_eq hne, charge_discharged]
      rfl
    · rw [chargePercent_eq hne, charge_full hne]
      rfl

/-- A meter with equal voltages divides by zero, and one with exchanged voltages falls. -/
theorem equal_voltages_undefined :
    BatteryMeter.chargePercent ⟨3000, 3000⟩ 3000 = none ∧
      BatteryMeter.chargePercent ⟨4200, 3000⟩ 3000 = some 100 ∧
      BatteryMeter.chargePercent ⟨4200, 3000⟩ 4200 = some 0 ∧
      ¬ WellBehaved ⟨3000, 3000⟩ := by
  have hnone : BatteryMeter.chargePercent ⟨3000, 3000⟩ 3000 = none := chargePercent_undefined rfl
  refine ⟨hnone, by decide +kernel, by decide +kernel, ?_⟩
  intro h
  obtain ⟨p, hp, -⟩ := h.bounded 3000
  rw [hnone] at hp
  cases hp

end BatteryCharge
