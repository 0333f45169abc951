import Mathlib

namespace RankLens

namespace Interpolation

variable {α : Type*} [Field α] [LinearOrder α] [IsStrictOrderedRing α] [FloorRing α]
variable {f : ℤ → α} {x y : α}

/-- The line between the knots below and above. -/
def interpolate (f : ℤ → α) (x : α) : α := f ⌊x⌋ + (f ⌈x⌉ - f ⌊x⌋) * (x - ⌊x⌋)

omit [IsStrictOrderedRing α] in
theorem interpolate_knot (h : ⌊x⌋ = ⌈x⌉) : interpolate f x = f ⌊x⌋ := by
  rw [interpolate, ← h, sub_self, zero_mul, add_zero]

theorem part_nonneg (x : α) : 0 ≤ x - ⌊x⌋ := sub_nonneg.mpr (Int.floor_le x)

theorem part_le_one (x : α) : x - ⌊x⌋ ≤ 1 := by
  have above := (Int.lt_floor_add_one x).le
  linarith

theorem floor_le_interpolate (hf : Monotone f) : f ⌊x⌋ ≤ interpolate f x := by
  have rise : 0 ≤ f ⌈x⌉ - f ⌊x⌋ := sub_nonneg.mpr (hf (Int.floor_le_ceil x))
  exact le_add_of_nonneg_right (mul_nonneg rise (part_nonneg x))

theorem interpolate_le_ceil (hf : Monotone f) : interpolate f x ≤ f ⌈x⌉ := by
  have rise : 0 ≤ f ⌈x⌉ - f ⌊x⌋ := sub_nonneg.mpr (hf (Int.floor_le_ceil x))
  have part := mul_le_of_le_one_right rise (part_le_one x)
  unfold interpolate
  linarith

theorem interpolate_eq (f : ℤ → α) (x : α) :
    interpolate f x = f ⌊x⌋ + (f (⌊x⌋ + 1) - f ⌊x⌋) * (x - ⌊x⌋) := by
  by_cases h : ⌈x⌉ = ⌊x⌋ + 1
  · rw [interpolate, h]
  · have knot : ⌊x⌋ = ⌈x⌉ := by
      have low := Int.floor_le_ceil x
      have high := Int.ceil_le_floor_add_one x
      omega
    have whole : x - ⌊x⌋ = 0 := by
      have low := Int.le_ceil x
      rw [← knot] at low
      linarith [Int.floor_le x]
    rw [interpolate_knot knot, whole, mul_zero, add_zero]

theorem interpolate_mono (hf : Monotone f) : Monotone (interpolate f) := by
  intro x y hxy
  obtain same | next := (Int.floor_le_floor hxy).eq_or_lt
  · have rise : 0 ≤ f (⌊x⌋ + 1) - f ⌊x⌋ := sub_nonneg.mpr (hf (by omega))
    have part : x - ⌊x⌋ ≤ y - ⌊x⌋ := sub_le_sub_right hxy _
    rw [interpolate_eq f x, interpolate_eq f y, ← same]
    linarith [mul_le_mul_of_nonneg_left part rise]
  · have knot : ⌈x⌉ ≤ ⌊y⌋ := (Int.ceil_le_floor_add_one x).trans (by omega)
    calc interpolate f x ≤ f ⌈x⌉ := interpolate_le_ceil hf
      _ ≤ f ⌊y⌋ := hf knot
      _ ≤ interpolate f y := floor_le_interpolate hf

end Interpolation

end RankLens
