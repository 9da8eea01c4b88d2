import Mathlib

/-!
# Rounding to a binary floating-point format

The numbers with a given number of binary digits after the leading one and any exponent, as
rationals. `round d` takes a rational to the nearest of them, and to the one with an even last digit
if there are two. It keeps the order, fixes small integers, and its relative error is at most
`2 ^ (-(d + 1))`. Overflow and underflow are not modelled.
-/
namespace Daedalus.Foundation.Rounding

/-! ## To an integer -/

/-- The nearest integer; of two, the even one. -/
def nearest (q : ℚ) : ℤ :=
  if q - ⌊q⌋ < 1 / 2 then ⌊q⌋
  else if 1 / 2 < q - ⌊q⌋ then ⌊q⌋ + 1
  else if ⌊q⌋ % 2 = 0 then ⌊q⌋ else ⌊q⌋ + 1

theorem nearest_intCast (n : ℤ) : nearest n = n := by
  simp [nearest]

theorem floor_le_nearest (q : ℚ) : ⌊q⌋ ≤ nearest q := by
  unfold nearest
  split_ifs <;> omega

theorem nearest_le_floor_add_one (q : ℚ) : nearest q ≤ ⌊q⌋ + 1 := by
  unfold nearest
  split_ifs <;> omega

theorem nearest_mono {p q : ℚ} (h : p ≤ q) : nearest p ≤ nearest q := by
  rcases (Int.floor_mono h).eq_or_lt with same | less
  · -- between the same two integers
    unfold nearest
    rw [same]
    split_ifs <;> first | omega | (exfalso; linarith)
  · calc nearest p ≤ ⌊p⌋ + 1 := nearest_le_floor_add_one p
      _ ≤ ⌊q⌋ := less
      _ ≤ nearest q := floor_le_nearest q

theorem abs_nearest_sub_le (q : ℚ) : |(nearest q : ℚ) - q| ≤ 1 / 2 := by
  have lower := Int.floor_le q
  have upper := Int.lt_floor_add_one q
  unfold nearest
  rw [abs_le]
  split_ifs <;> push_cast <;> constructor <;> linarith

/-! ## To `d` digits after the leading one -/

/-- The value of the last digit. -/
def unit (d : ℕ) (q : ℚ) : ℚ := 2 ^ (Int.log 2 |q| - d)

def round (d : ℕ) (q : ℚ) : ℚ := nearest (q / unit d q) * unit d q

section Round

variable {d : ℕ} {p q : ℚ}

theorem unit_pos : 0 < unit d q := zpow_pos (by norm_num) _

@[simp] theorem round_zero : round d 0 = 0 := by
  have : nearest 0 = 0 := nearest_intCast 0
  simp [round, this]

/-- A multiple of the last digit is fixed. -/
theorem round_eq_self {n : ℤ} (h : q / unit d q = n) : round d q = q := by
  rw [round, h, nearest_intCast, ← h, div_mul_cancel₀ _ unit_pos.ne']

theorem abs_round_sub_le (q : ℚ) : |round d q - q| ≤ unit d q / 2 := by
  have near := abs_nearest_sub_le (q / unit d q)
  have scaled : round d q - q = (nearest (q / unit d q) - q / unit d q) * unit d q := by
    rw [round, sub_mul, div_mul_cancel₀ _ unit_pos.ne']
  rw [scaled, abs_mul, abs_of_pos unit_pos]
  calc |(nearest (q / unit d q) : ℚ) - q / unit d q| * unit d q
      ≤ 1 / 2 * unit d q := mul_le_mul_of_nonneg_right near unit_pos.le
    _ = unit d q / 2 := by ring

theorem unit_le (hq : 0 < q) : unit d q ≤ q / 2 ^ d := by
  have log : (2 : ℚ) ^ Int.log 2 q ≤ q := by
    exact_mod_cast Int.zpow_log_le_self (R := ℚ) one_lt_two hq
  rw [unit, abs_of_pos hq, zpow_sub₀ two_ne_zero, zpow_natCast]
  gcongr

/-- The relative error. -/
theorem abs_round_sub_le_mul (hq : 0 ≤ q) : |round d q - q| ≤ q / 2 ^ (d + 1) := by
  rcases hq.eq_or_lt with rfl | hq
  · simp
  · calc |round d q - q| ≤ unit d q / 2 := abs_round_sub_le q
      _ ≤ q / 2 ^ d / 2 := by
        have := unit_le (d := d) hq
        linarith
      _ = q / 2 ^ (d + 1) := by
        rw [pow_succ]
        ring

theorem pow_mul_unit (d : ℕ) (q : ℚ) : (2 : ℚ) ^ d * unit d q = 2 ^ Int.log 2 |q| := by
  rw [unit, zpow_sub₀ two_ne_zero, zpow_natCast]
  field_simp

theorem nearest_pow (n : ℕ) : nearest ((2 : ℚ) ^ n) = 2 ^ n := by
  exact_mod_cast nearest_intCast (2 ^ n)

theorem pow_le_round (hq : 0 < q) : (2 : ℚ) ^ Int.log 2 q ≤ round d q := by
  have log : (2 : ℚ) ^ Int.log 2 q ≤ q := by
    exact_mod_cast Int.zpow_log_le_self (R := ℚ) one_lt_two hq
  have lower : (2 : ℚ) ^ d ≤ q / unit d q := by
    rw [le_div_iff₀ unit_pos, pow_mul_unit, abs_of_pos hq]
    exact log
  have rounded : (2 : ℤ) ^ d ≤ nearest (q / unit d q) := nearest_pow d ▸ nearest_mono lower
  calc (2 : ℚ) ^ Int.log 2 q = 2 ^ d * unit d q := by rw [pow_mul_unit, abs_of_pos hq]
    _ ≤ round d q := mul_le_mul_of_nonneg_right (by exact_mod_cast rounded) unit_pos.le

theorem round_le_pow (hq : 0 < q) : round d q ≤ (2 : ℚ) ^ (Int.log 2 q + 1) := by
  have log : q < (2 : ℚ) ^ (Int.log 2 q + 1) := by
    exact_mod_cast Int.lt_zpow_succ_log_self (R := ℚ) one_lt_two q
  have top : (2 : ℚ) ^ (d + 1) * unit d q = 2 ^ (Int.log 2 q + 1) := by
    rw [pow_succ', mul_assoc, pow_mul_unit, abs_of_pos hq, zpow_add_one₀ two_ne_zero, mul_comm]
  have upper : q / unit d q ≤ 2 ^ (d + 1) := by
    rw [div_le_iff₀ unit_pos, top]
    exact log.le
  have rounded : nearest (q / unit d q) ≤ (2 : ℤ) ^ (d + 1) :=
    nearest_pow (d + 1) ▸ nearest_mono upper
  calc round d q ≤ 2 ^ (d + 1) * unit d q :=
        mul_le_mul_of_nonneg_right (by exact_mod_cast rounded) unit_pos.le
    _ = 2 ^ (Int.log 2 q + 1) := top

theorem round_nonneg (hq : 0 ≤ q) : 0 ≤ round d q := by
  rcases hq.eq_or_lt with rfl | hq
  · simp
  · exact le_trans (zpow_pos two_pos _).le (pow_le_round hq)

theorem round_pos (hq : 0 < q) : 0 < round d q :=
  lt_of_lt_of_le (zpow_pos two_pos _) (pow_le_round hq)

/-- Rounding keeps the order. -/
theorem round_mono (hp : 0 ≤ p) (h : p ≤ q) : round d p ≤ round d q := by
  rcases hp.eq_or_lt with rfl | hp
  · rw [round_zero]
    exact round_nonneg h
  have hq : 0 < q := hp.trans_le h
  rcases (Int.log_mono_right (b := 2) hp h).eq_or_lt with same | less
  · -- the last digit has the same value
    have unit_eq : unit d p = unit d q := by
      rw [unit, unit, abs_of_pos hp, abs_of_pos hq, same]
    have scaled : p / unit d q ≤ q / unit d q := div_le_div_of_nonneg_right h unit_pos.le
    rw [round, round, unit_eq]
    exact mul_le_mul_of_nonneg_right (by exact_mod_cast nearest_mono scaled) unit_pos.le
  · -- there is a power of two between them
    calc round d p ≤ 2 ^ (Int.log 2 p + 1) := round_le_pow hp
      _ ≤ 2 ^ Int.log 2 q := zpow_le_zpow_right₀ one_le_two less
      _ ≤ round d q := pow_le_round hq

/-- An integer that has few enough digits is fixed. -/
theorem round_natCast {n : ℕ} (h : n < 2 ^ (d + 1)) : round d n = n := by
  rcases Nat.eq_zero_or_pos n with rfl | hn
  · simp
  have hpos : (0 : ℚ) < n := by exact_mod_cast hn
  have digits : Nat.log 2 n ≤ d := by
    have : Nat.log 2 n < d + 1 := Nat.log_lt_of_lt_pow hn.ne' h
    omega
  have log : Int.log 2 (n : ℚ) = Nat.log 2 n := Int.log_natCast 2 n
  refine round_eq_self (n := n * 2 ^ (d - Nat.log 2 n)) ?_
  rw [unit, abs_of_pos hpos, log, div_eq_iff (zpow_pos two_pos _).ne']
  have cancel : (2 : ℚ) ^ (d - Nat.log 2 n) * 2 ^ ((Nat.log 2 n : ℤ) - d) = 1 := by
    rw [← zpow_natCast, ← zpow_add₀ two_ne_zero, Nat.cast_sub digits]
    simp
  push_cast
  rw [mul_assoc, cancel, mul_one]

end Round

/-! ## The integer part of a quotient -/

/-- A number that is close enough to a quotient has its integer part, except that it may be just
below a quotient that is an integer. -/
theorem floor_eq_ediv_or {p : ℚ} {n d : ℤ} (hd : 0 < d) (near : |p - n / d| < 1 / d) :
    ⌊p⌋ = n / d ∨ (d ∣ n ∧ ⌊p⌋ = n / d - 1) := by
  have hd' : (0 : ℚ) < d := by exact_mod_cast hd
  have inverse : (1 : ℚ) / d ≤ 1 := by
    rw [div_le_one hd']
    exact_mod_cast hd
  have rest_nonneg := Int.emod_nonneg n hd.ne'
  have rest_lt := Int.emod_lt_of_pos n hd
  have quotient : (n : ℚ) / d = (n / d : ℤ) + (n % d : ℤ) / d := by
    have parts : (n : ℚ) = d * (n / d : ℤ) + (n % d : ℤ) := by
      exact_mod_cast (Int.mul_ediv_add_emod n d).symm
    rw [div_eq_iff hd'.ne', add_mul, div_mul_cancel₀ _ hd'.ne', mul_comm, ← parts]
  obtain ⟨lower, upper⟩ := abs_lt.mp near
  rw [quotient] at lower upper
  rcases rest_nonneg.eq_or_lt with zero | positive
  · rw [← zero, Int.cast_zero, zero_div, add_zero] at lower upper
    rcases le_or_gt ((n / d : ℤ) : ℚ) p with above | under
    · exact .inl (Int.floor_eq_iff.mpr ⟨above, by linarith⟩)
    · refine .inr ⟨Int.dvd_of_emod_eq_zero zero.symm, Int.floor_eq_iff.mpr ?_⟩
      push_cast
      exact ⟨by linarith, by linarith⟩
  · -- the quotient is at least `1 / d` away from the next integers
    have least : (1 : ℚ) / d ≤ (n % d : ℤ) / d := by
      gcongr
      exact_mod_cast positive
    have most : ((n % d : ℤ) : ℚ) / d ≤ 1 - 1 / d := by
      rw [le_sub_iff_add_le, ← add_div, div_le_one hd']
      exact_mod_cast rest_lt
    exact .inl (Int.floor_eq_iff.mpr ⟨by linarith, by linarith⟩)

end Daedalus.Foundation.Rounding
