import Cascade.Binary64.Rounding
import Cascade.Proofs.Binary64.Nearest
import Mathlib.Data.Nat.Log
import Mathlib.Tactic.FieldSimp

/-! # Rounding is to the nearest number

A quotient, and so a decimal, is rounded to a number that is nearest to it
(`isNearest_ofRatio`, `isNearest_ofDecimal`). The quotient lies in a gap between two neighbouring
magnitudes; the division with remainder by the width of the gap tells which of the two is nearer. -/

namespace Cascade

/-- The value of a decimal without its sign. -/
def Decimal.magnitude (d : Decimal) : ℚ := d.digits * 10 ^ d.exponent

/-- The value of a decimal. -/
def Decimal.value (d : Decimal) : ℚ := if d.negative then -d.magnitude else d.magnitude

theorem Decimal.ten_zpow_pos (e : ℤ) : (0 : ℚ) < 10 ^ e := zpow_pos (by norm_num) e

theorem Decimal.magnitude_nonneg (d : Decimal) : 0 ≤ d.magnitude :=
  mul_nonneg (Nat.cast_nonneg _) (ten_zpow_pos _).le

theorem Decimal.abs_value (d : Decimal) : |d.value| = d.magnitude := by
  unfold value
  split
  · rw [abs_neg, abs_of_nonneg d.magnitude_nonneg]
  · exact abs_of_nonneg d.magnitude_nonneg

namespace Binary64

/-! ### The ends of a gap -/

section Gap

/-! The ends `lo` and `hi` of the gap and the rational `a` in it, all in one unit. -/

variable {k lo hi a : ℕ} {q unit : ℚ} (hunit : 0 < unit) (hlo : magnitude k = lo * unit)
  (hhi : magnitude (k + 1) = hi * unit) (hq : q = a * unit)

include hunit hlo hhi hq

theorem around_of_lower_half (hle : lo ≤ a) (h : 2 * a ≤ lo + hi)
    (heven : 2 * a = lo + hi → k % 2 = 0) : Around k q := by
  have hmiddle : 2 * q ≤ magnitude k + magnitude (k + 1) := by
    have hcast : (2 * a : ℚ) * unit ≤ (lo + hi) * unit :=
      mul_le_mul_of_nonneg_right (by exact_mod_cast h) hunit.le
    linarith
  have hlower : magnitude k ≤ q := by
    rw [hlo, hq]
    exact mul_le_mul_of_nonneg_right (by exact_mod_cast hle) hunit.le
  have hprev : magnitude (k - 1) ≤ magnitude k := strictMono_magnitude.monotone (Nat.sub_le k 1)
  refine ⟨by linarith, hmiddle, fun hodd heq => ?_, fun hodd heq => ?_⟩
  · have hlt : magnitude (k - 1) < magnitude k := strictMono_magnitude (by omega)
    linarith
  · have hcast : (2 * a : ℚ) * unit = (lo + hi) * unit := by linarith
    have hsum : 2 * a = lo + hi := by exact_mod_cast mul_right_cancel₀ hunit.ne' hcast
    have := heven hsum
    omega

theorem around_of_upper_half (hlt : a < hi) (h : lo + hi ≤ 2 * a)
    (heven : lo + hi = 2 * a → k % 2 = 1) : Around (k + 1) q := by
  have hmiddle : magnitude k + magnitude (k + 1) ≤ 2 * q := by
    have hcast : (lo + hi : ℚ) * unit ≤ 2 * a * unit :=
      mul_le_mul_of_nonneg_right (by exact_mod_cast h) hunit.le
    linarith
  have hupper : q < magnitude (k + 1) := by
    rw [hhi, hq]
    exact mul_lt_mul_of_pos_right (by exact_mod_cast hlt) hunit
  have hnext : magnitude (k + 1) < magnitude (k + 1 + 1) := strictMono_magnitude (Nat.lt_succ_self _)
  refine ⟨hmiddle, by linarith, fun hodd heq => ?_, fun hodd heq => by linarith⟩
  have hcast : (lo + hi : ℚ) * unit = 2 * a * unit := by
    rw [Nat.add_sub_cancel] at heq
    linarith
  have hsum : lo + hi = 2 * a := by exact_mod_cast mul_right_cancel₀ hunit.ne' hcast
  have := heven hsum
  omega

end Gap

/-! ### Spacings -/

theorem div_spacing_lt (m : ℕ) : m / 2 ^ spacing m < 0x20000000000000 := by
  have hlog := @Nat.lt_log2_self m
  have hpow : 2 ^ (m.log2 + 1) ≤ 2 ^ (53 + spacing m) :=
    Nat.pow_le_pow_right two_pos (by unfold spacing; omega)
  rw [Nat.div_lt_iff_lt_mul (Nat.two_pow_pos _)]
  calc m < 2 ^ (53 + spacing m) := Nat.lt_of_lt_of_le hlog hpow
    _ = 0x20000000000000 * 2 ^ spacing m := by rw [Nat.pow_add]

theorem le_div_spacing {m : ℕ} (h : spacing m ≠ 0) : 0x10000000000000 ≤ m / 2 ^ spacing m := by
  have hm : m ≠ 0 := by
    rintro rfl
    exact h rfl
  have hlog := Nat.log2_self_le hm
  have hsum : 52 + spacing m = m.log2 := by unfold spacing at *; omega
  rw [Nat.le_div_iff_mul_le (Nat.two_pow_pos _)]
  calc 0x10000000000000 * 2 ^ spacing m = 2 ^ (52 + spacing m) := by rw [Nat.pow_add]
    _ ≤ m := by rw [hsum]; exact hlog

/-- **The division in the spacing of a quotient finds a magnitude that the quotient is around.** -/
theorem around_divHalfEven {a den : ℕ} {q : ℚ} (hden : 0 < den) (hq : q * (den * 2 ^ 1074) = a) :
    Around (divHalfEven a (den * 2 ^ spacing (a / den)) + spacing (a / den) * 0x10000000000000)
      q := by
  set t := spacing (a / den)
  set b := den * 2 ^ t with hb
  have hbpos : 0 < b := Nat.mul_pos hden (Nat.two_pow_pos t)
  have hdiv : a / b = a / den / 2 ^ t := (Nat.div_div_eq_div_mul a den _).symm
  have hf : a / b < 0x20000000000000 := hdiv ▸ div_spacing_lt _
  have hnormal : t = 0 ∨ 0x10000000000000 ≤ a / b :=
    or_iff_not_imp_left.mpr fun h => hdiv ▸ le_div_spacing h
  -- the quotient and the ends of its gap
  let unit : ℚ := 1 / (den * 2 ^ 1074)
  have hdenq : (0 : ℚ) < den := by exact_mod_cast hden
  have hscale : (0 : ℚ) < den * 2 ^ 1074 := mul_pos hdenq (pow_pos two_pos _)
  have hunit : 0 < unit := one_div_pos.mpr hscale
  have hend {f : ℕ} : ((f * 2 ^ t : ℕ) : ℚ) / 2 ^ 1074 = (f * b : ℕ) * unit := by
    simp only [unit, hb]
    push_cast
    field_simp
  have hlo : magnitude (a / b + t * 0x10000000000000) = (a / b * b : ℕ) * unit := by
    rw [magnitude, quanta_add_mul hf.le hnormal, hend]
  have hhi : magnitude (a / b + t * 0x10000000000000 + 1) = ((a / b + 1) * b : ℕ) * unit := by
    rw [magnitude, Nat.add_right_comm, quanta_add_mul (by omega) (by omega), hend]
  have hq : q = a * unit := by
    rw [← hq, mul_assoc, mul_one_div_cancel hscale.ne', mul_one]
  have hmod : a / b * b + a % b = a := Nat.div_add_mod' a b
  have hrem : a % b < b := Nat.mod_lt a hbpos
  have hnext : (a / b + 1) * b = a / b * b + b := Nat.succ_mul _ _
  have hlower := around_of_lower_half hunit hlo hhi hq (by omega)
  have hupper := around_of_upper_half hunit hlo hhi hq (by omega)
  unfold divHalfEven
  dsimp only
  split_ifs with hr hr'
  · exact hlower (by omega) (by omega)
  · rw [Nat.add_right_comm]
    exact hupper (by omega) (by omega)
  · -- in the middle the even end is taken
    rcases Nat.mod_two_eq_zero_or_one (a / b) with heven | hodd
    · rw [heven]
      exact hlower (by omega) fun _ => by omega
    · rw [hodd, Nat.add_right_comm]
      exact hupper (by omega) fun _ => by omega

/-! ### Quotients and decimals -/

theorem exists_around_eq_nearestOrdinal (num : ℕ) {den : ℕ} (hden : 0 < den) :
    ∃ o, Around o (num / den) ∧ nearestOrdinal num den = min o infinityOrdinal := by
  unfold nearestOrdinal
  refine ⟨_, around_divHalfEven hden ?_, rfl⟩
  generalize 1074 = e
  have hne : (den : ℚ) ≠ 0 := by exact_mod_cast hden.ne'
  rw [Nat.pow_eq, Nat.cast_mul, Nat.cast_pow, Nat.cast_ofNat, ← mul_assoc, div_mul_cancel₀ _ hne]

/-- **A quotient is rounded to a number that is nearest to it.** -/
theorem isNearest_ofRatio (num : ℕ) {den : ℕ} (hden : 0 < den) :
    IsNearest (num / den) (ofRatio false num den) := by
  obtain ⟨o, haround, ho⟩ := exists_around_eq_nearestOrdinal num hden
  exact haround.isNearest rfl ho

theorem ofRatio_true (num den : ℕ) : ofRatio true num den = -ofRatio false num den := rfl

/-- **A decimal is rounded to a number that is nearest to it.** -/
theorem isNearest_ofDecimal (d : Decimal) : IsNearest d.value (ofDecimal d) := by
  obtain ⟨negative, digits, exponent⟩ := d
  obtain ⟨num, den, hden, hmagnitude, hof⟩ : ∃ num den : ℕ, 0 < den ∧
      (digits : ℚ) * 10 ^ exponent = num / den ∧
      ofDecimal ⟨negative, digits, exponent⟩ = ofRatio negative num den := by
    cases exponent with
    | ofNat e =>
      refine ⟨digits * 10 ^ e, 1, one_pos, ?_, rfl⟩
      push_cast
      rw [div_one, Int.ofNat_eq_natCast, zpow_natCast]
    | negSucc e =>
      refine ⟨digits, 10 ^ (e + 1), Nat.pow_pos (by decide), ?_, rfl⟩
      push_cast
      rw [zpow_negSucc, div_eq_mul_inv]
  rw [hof]
  unfold Decimal.value Decimal.magnitude
  dsimp only
  rw [hmagnitude]
  cases negative with
  | false => exact isNearest_ofRatio num hden
  | true => exact ofRatio_true num den ▸ (isNearest_ofRatio num hden).neg

end Binary64

end Cascade
