import HandlerIndex.Single
import Mathlib.Algebra.Field.Rat
import Mathlib.Algebra.Order.Field.Power
import Mathlib.Algebra.Order.Ring.Rat
import Mathlib.Tactic.Linarith

/-!
Rounding to a single, as scores of the event search are rounded, keeps the order of numbers. Within
one power of two this is so for rounding to whole numbers; and no number leaves the powers of two
between which it lies.
-/
namespace HandlerIndex.Single

def RoundsUp (q : Rat) : Prop := 1 / 2 < q - q.floor ∨ q - q.floor = 1 / 2 ∧ q.floor % 2 ≠ 0

theorem nearest_of_up {q : Rat} (up : RoundsUp q) : nearest q = q.floor + 1 := by
  rcases up with past | ⟨half, odd⟩
  · rw [nearest, if_neg past.le.not_gt, if_pos past]
  · rw [nearest, if_neg half.ge.not_gt, if_neg half.le.not_gt, if_neg odd]

theorem nearest_of_not_up {q : Rat} (down : ¬ RoundsUp q) : nearest q = q.floor := by
  obtain ⟨le_half, not_odd⟩ := not_or.mp down
  rcases (not_lt.mp le_half).lt_or_eq with short | half
  · rw [nearest, if_pos short]
  · have even : q.floor % 2 = 0 := not_not.mp fun odd => not_odd ⟨half, odd⟩
    rw [nearest, if_neg half.ge.not_gt, if_neg le_half, if_pos even]

theorem nearest_bounds (q : Rat) : q.floor ≤ nearest q ∧ nearest q ≤ q.floor + 1 := by
  by_cases up : RoundsUp q
  · rw [nearest_of_up up]
    omega
  · rw [nearest_of_not_up up]
    omega

theorem nearest_whole (whole : Int) : nearest (whole : Rat) = whole := by
  have excess : (whole : Rat) - ((whole : Rat).floor : Int) < 1 / 2 := by
    rw [Rat.floor_intCast, sub_self]
    norm_num
  rw [nearest, if_pos excess, Rat.floor_intCast]

theorem rounds_up_mono {q r : Rat} (le : q ≤ r) (same : q.floor = r.floor) (up : RoundsUp q) :
    RoundsUp r := by
  have excess : q - q.floor ≤ r - r.floor := by
    rw [same]
    exact sub_le_sub_right le _
  rcases up with past | ⟨half, odd⟩
  · exact .inl (past.trans_le excess)
  · rw [half] at excess
    rw [same] at odd
    rcases excess.lt_or_eq with past | still
    · exact .inl past
    · exact .inr ⟨still.symm, odd⟩

theorem nearest_mono {q r : Rat} (le : q ≤ r) : nearest q ≤ nearest r := by
  obtain ⟨-, above⟩ := nearest_bounds q
  obtain ⟨below, -⟩ := nearest_bounds r
  rcases (Rat.floor_monotone le).lt_or_eq with apart | same
  · omega
  · by_cases up : RoundsUp q
    · rw [nearest_of_up up, nearest_of_up (rounds_up_mono le same up), same]
    · rw [nearest_of_not_up up, same]
      exact below

theorem log_bounds {n : Nat} (filled : n ≠ 0) :
    (2 : Rat) ^ (n.log2 : Int) ≤ n ∧ (n : Rat) < (2 : Rat) ^ (n.log2 + 1 : Int) := by
  constructor
  · exact_mod_cast Nat.log2_self_le filled
  · exact_mod_cast Nat.lt_log2_self (n := n)

theorem quotient_bounds {q : Rat} (positive : 0 < q) :
    (2 : Rat) ^ ((q.num.natAbs.log2 : Int) - (q.den.log2 : Int) - 1) ≤ q ∧
      q < (2 : Rat) ^ ((q.num.natAbs.log2 : Int) - (q.den.log2 : Int) + 1) := by
  have numerator : q.num.natAbs ≠ 0 := Int.natAbs_ne_zero.mpr (Rat.num_pos.mpr positive).ne'
  have whole : q * q.den = q.num.natAbs := by
    rw [Rat.mul_den_eq_num, ← Int.cast_natCast, Int.natAbs_of_nonneg (Rat.num_pos.mpr positive).le]
  obtain ⟨num_low, num_high⟩ := log_bounds numerator
  obtain ⟨den_low, den_high⟩ := log_bounds q.den_nz
  have den_pos : (0 : Rat) < q.den := Nat.cast_pos.mpr q.den_pos
  constructor
  · refine le_of_mul_le_mul_right ?_ den_pos
    calc (2 : Rat) ^ ((q.num.natAbs.log2 : Int) - (q.den.log2 : Int) - 1) * q.den
        ≤ (2 : Rat) ^ ((q.num.natAbs.log2 : Int) - (q.den.log2 : Int) - 1) *
          (2 : Rat) ^ (q.den.log2 + 1 : Int) :=
          mul_le_mul_of_nonneg_left den_high.le (zpow_nonneg (by norm_num) _)
      _ = (2 : Rat) ^ (q.num.natAbs.log2 : Int) := by
          rw [← zpow_add₀ (by norm_num)]
          congr 1
          omega
      _ ≤ q * q.den := by rw [whole]; exact num_low
  · refine lt_of_mul_lt_mul_right ?_ den_pos.le
    calc q * q.den
        < (2 : Rat) ^ (q.num.natAbs.log2 + 1 : Int) := by rw [whole]; exact num_high
      _ = (2 : Rat) ^ ((q.num.natAbs.log2 : Int) - (q.den.log2 : Int) + 1) *
        (2 : Rat) ^ (q.den.log2 : Int) := by
          rw [← zpow_add₀ (by norm_num)]
          congr 1
          omega
      _ ≤ (2 : Rat) ^ ((q.num.natAbs.log2 : Int) - (q.den.log2 : Int) + 1) * q.den :=
          mul_le_mul_of_nonneg_left den_low (zpow_nonneg (by norm_num) _)

/-- A positive number lies between the power of two at its scale and the next. -/
theorem scale_bounds {q : Rat} (positive : 0 < q) :
    (2 : Rat) ^ scale q ≤ q ∧ q < (2 : Rat) ^ (scale q + 1) := by
  obtain ⟨low, high⟩ := quotient_bounds positive
  rw [scale]
  split_ifs with small
  · rw [sub_add_cancel]
    exact ⟨low, small⟩
  · exact ⟨not_lt.mp small, high⟩

theorem scale_mono {q r : Rat} (positive : 0 < q) (le : q ≤ r) : scale q ≤ scale r := by
  have between : (2 : Rat) ^ scale q < (2 : Rat) ^ (scale r + 1) :=
    ((scale_bounds positive).1.trans le).trans_lt (scale_bounds (positive.trans_le le)).2
  exact Int.lt_add_one_iff.mp ((zpow_lt_zpow_iff_right₀ (by norm_num)).mp between)

theorem round_of_pos {q : Rat} (positive : 0 < q) :
    round q = nearest (q / (2 : Rat) ^ (scale q - 23)) * (2 : Rat) ^ (scale q - 23) := by
  rw [round, if_neg (not_le.mpr positive)]

/-- What is rounded stays between the powers of two that it was between. -/
theorem round_bounds {q : Rat} (positive : 0 < q) :
    (2 : Rat) ^ scale q ≤ round q ∧ round q ≤ (2 : Rat) ^ (scale q + 1) := by
  have unit_pos : (0 : Rat) < (2 : Rat) ^ (scale q - 23) := zpow_pos (by norm_num) _
  have first : (2 : Rat) ^ scale q = (8388608 : Int) * (2 : Rat) ^ (scale q - 23) := by
    have weight : ((8388608 : Int) : Rat) = (2 : Rat) ^ (23 : Int) := by norm_num
    rw [weight, ← zpow_add₀ (by norm_num), add_sub_cancel]
  have last : (2 : Rat) ^ (scale q + 1) = (16777216 : Int) * (2 : Rat) ^ (scale q - 23) := by
    have weight : ((16777216 : Int) : Rat) = (2 : Rat) ^ (24 : Int) := by norm_num
    rw [weight, ← zpow_add₀ (by norm_num)]
    congr 1
    omega
  obtain ⟨low, high⟩ := scale_bounds positive
  rw [first, ← le_div_iff₀ unit_pos] at low
  rw [last, ← div_lt_iff₀ unit_pos] at high
  rw [round_of_pos positive, first, last]
  have above := nearest_mono low
  have below := nearest_mono high.le
  rw [nearest_whole] at above below
  exact ⟨mul_le_mul_of_nonneg_right (Int.cast_le.mpr above) unit_pos.le,
    mul_le_mul_of_nonneg_right (Int.cast_le.mpr below) unit_pos.le⟩

theorem round_pos {q : Rat} (positive : 0 < q) : 0 < round q :=
  (zpow_pos (by norm_num) _).trans_le (round_bounds positive).1

theorem round_of_nonpos {q : Rat} (nonpos : q ≤ 0) : round q = 0 := if_pos nonpos

theorem round_nonneg (q : Rat) : 0 ≤ round q := by
  rcases le_or_gt q 0 with nonpos | positive
  · exact (round_of_nonpos nonpos).ge
  · exact (round_pos positive).le

theorem round_mono {q r : Rat} (le : q ≤ r) : round q ≤ round r := by
  rcases le_or_gt q 0 with nonpos | positive
  · rw [round_of_nonpos nonpos]
    exact round_nonneg r
  · have later : 0 < r := positive.trans_le le
    rcases (scale_mono positive le).lt_or_eq with apart | same
    · calc round q ≤ (2 : Rat) ^ (scale q + 1) := (round_bounds positive).2
        _ ≤ (2 : Rat) ^ scale r := zpow_le_zpow_right₀ (by norm_num) apart
        _ ≤ round r := (round_bounds later).1
    · have unit_pos : (0 : Rat) < (2 : Rat) ^ (scale r - 23) := zpow_pos (by norm_num) _
      rw [round_of_pos positive, round_of_pos later, same]
      exact mul_le_mul_of_nonneg_right
        (Int.cast_le.mpr (nearest_mono (div_le_div_of_nonneg_right le unit_pos.le)))
        unit_pos.le

end HandlerIndex.Single
