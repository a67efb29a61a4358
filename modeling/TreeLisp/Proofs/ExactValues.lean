import Mathlib.Algebra.Order.Field.Rat
import Mathlib.Algebra.Order.Ring.Cast
import Mathlib.Order.WithBot
import TreeLisp.Number

/-!
# Exact values of numbers

An integer and a finite double are rational numbers, the two infinities lie at the ends of the
rational line, and NaN has no value at all. Comparisons of numbers count units of the smallest
double. To count units keeps the order, so each comparison says of two numbers exactly what holds
between their values.
-/
namespace TreeLisp

/-- The rational line with its two ends. -/
abbrev Extended := WithBot (WithTop ℚ)

def Extended.finite (q : ℚ) : Extended := ((q : WithTop ℚ) : WithBot (WithTop ℚ))

namespace Extended

@[simp] theorem finite_lt_finite {p q : ℚ} : finite p < finite q ↔ p < q := by
  rw [finite, finite, WithBot.coe_lt_coe, WithTop.coe_lt_coe]

@[simp] theorem bot_lt_finite (q : ℚ) : ⊥ < finite q := WithBot.bot_lt_coe _

@[simp] theorem finite_lt_top (q : ℚ) : finite q < ⊤ :=
  WithBot.coe_lt_coe.mpr (WithTop.coe_lt_top q)

end Extended

namespace Double

/-- The smallest positive double. -/
def unit : ℚ := (2 ^ 1074)⁻¹

theorem unit_pos : 0 < unit := inv_pos.mpr (pow_pos two_pos _)

theorem unitsOfOne_eq : unitsOfOne = 2 ^ 1074 := by decide +kernel

theorem unitsOfOne_mul_unit : (unitsOfOne : ℚ) * unit = 1 := by
  rw [unitsOfOne_eq, Nat.cast_pow]
  exact mul_inv_cancel₀ (pow_ne_zero _ two_ne_zero)

/-- The exact value, none for NaN. -/
def Exact.value? : Exact → Option Extended
  | .nan => none
  | .infinite true => some ⊥
  | .infinite false => some ⊤
  | .finite true m e => some (.finite (-(m * 2 ^ e) * unit))
  | .finite false m e => some (.finite (m * 2 ^ e * unit))

namespace Units

/-- The point of the line that is so many units away from zero. -/
def value : Units → Extended
  | .below => ⊥
  | .count n => .finite (n * unit)
  | .above => ⊤

theorem value_lt_iff (x y : Units) : x.value < y.value ↔ x.lt y = true := by
  cases x <;> cases y <;> simp [value, lt, mul_lt_mul_iff_left₀ unit_pos]

theorem value_inj (x y : Units) : x.value = y.value ↔ x = y := by
  refine ⟨fun h => ?_, fun h => h ▸ rfl⟩
  -- neither count is below the other, since neither value is
  have hxy : ¬ x.lt y = true := fun hlt => ((value_lt_iff x y).mpr hlt).ne h
  have hyx : ¬ y.lt x = true := fun hlt => ((value_lt_iff y x).mpr hlt).ne' h
  cases x <;> cases y <;> simp [lt] at hxy hyx ⊢
  omega

end Units

theorem Exact.value?_eq (x : Exact) : x.value? = x.units?.map Units.value := by
  cases x with
  | nan => rfl
  | infinite negative => cases negative <;> rfl
  | finite negative m e => cases negative <;> simp [value?, units?, Units.value]

theorem Exact.isSome_value_iff (x : Exact) : x.value?.isSome = true ↔ x ≠ .nan := by
  cases x with
  | nan => simp [value?]
  | infinite negative => cases negative <;> simp [value?]
  | finite negative m e => cases negative <;> simp [value?]

end Double

namespace Number

open Double

def value? : Number → Option Extended
  | int n => some (.finite n)
  | float x => (exact x).value?

theorem value?_eq (a : Number) : a.value? = a.units?.map Units.value := by
  cases a with
  | int n =>
    have hcount : ((n * unitsOfOne : Int) : ℚ) * unit = n := by
      rw [Int.cast_mul, Int.cast_natCast, mul_assoc, unitsOfOne_mul_unit, mul_one]
    rw [value?, units?, unitsOfInt, Option.map_some, Units.value, hcount]
  | float x => exact (exact x).value?_eq

/-- The relation holds between the exact values of the two numbers. It never holds of NaN. -/
def Related (r : Extended → Extended → Prop) (a b : Number) : Prop :=
  ∃ x y, a.value? = some x ∧ b.value? = some y ∧ r x y

variable {a b c : Number} {r : Extended → Extended → Prop}

theorem Related.trans [IsTrans Extended r] (hab : Related r a b) (hbc : Related r b c) :
    Related r a c := by
  obtain ⟨x, y, hx, hy, hxy⟩ := hab
  obtain ⟨y', z, hy', hz, hyz⟩ := hbc
  obtain rfl : y = y' := Option.some.inj (hy.symm.trans hy')
  exact ⟨x, z, hx, hz, trans_of r hxy hyz⟩

theorem related_iff : Related r a b ↔
    ∃ x y : Units, a.units? = some x ∧ b.units? = some y ∧ r x.value y.value := by
  rw [Related, a.value?_eq, b.value?_eq]
  simp

theorem equal_iff : a.equal b = true ↔ Related (· = ·) a b := by
  rw [related_iff, equal]
  cases a.units? <;> cases b.units? <;> simp [Units.value_inj]

theorem equal_iff_value : a.equal b = true ↔ ∃ x, a.value? = some x ∧ b.value? = some x := by
  rw [equal_iff, Related]
  simp

theorem less_iff : a.less b = true ↔ Related (· < ·) a b := by
  rw [related_iff, less]
  cases a.units? <;> cases b.units? <;> simp [Units.value_lt_iff]

theorem lessEqual_iff : a.lessEqual b = true ↔ Related (· ≤ ·) a b := by
  rw [lessEqual, Bool.or_eq_true, less_iff, equal_iff]
  simp only [Related, le_iff_lt_or_eq, and_or_left, exists_or]

end Number

end TreeLisp
