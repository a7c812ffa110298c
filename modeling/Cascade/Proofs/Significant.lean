import Cascade.Proofs.Binary64.Rounding
import Mathlib.Data.Nat.Digits.Lemmas

/-! # Significant digits

The significant digits of a decimal are those of its numeral without the zeros after them. How many
there are depends on the value of the decimal only: `k` of them are enough exactly if the value is,
sign apart, a natural number below `10 ^ k` times a power of ten (`Decimal.significant_le_iff`). -/

namespace Cascade.Decimal

/-- The number of significant digits. Zeros in front of the other digits or after them are not
significant. -/
def significant (d : Decimal) : ℕ := ((Nat.digits 10 d.digits).dropWhile (· = 0)).length

variable {d d' : Decimal} {k m zeros : ℕ}

theorem ofDigits_dropWhile (ds : List ℕ) :
    ∃ zeros, Nat.ofDigits 10 ds = Nat.ofDigits 10 (ds.dropWhile (· = 0)) * 10 ^ zeros := by
  induction ds with
  | nil => exact ⟨0, rfl⟩
  | cons c ds ih =>
    by_cases hc : c = 0
    · obtain ⟨zeros, hzeros⟩ := ih
      refine ⟨zeros + 1, ?_⟩
      rw [List.dropWhile_cons_of_pos (by simpa using hc), Nat.ofDigits_cons, hc, hzeros, pow_succ]
      ring
    · exact ⟨0, by rw [List.dropWhile_cons_of_neg (by simpa using hc), pow_zero, mul_one]⟩

/-- The significant digits, and the zeros after them. -/
theorem exists_digits_eq (d : Decimal) :
    ∃ m zeros, m < 10 ^ d.significant ∧ d.digits = m * 10 ^ zeros := by
  obtain ⟨zeros, hzeros⟩ := ofDigits_dropWhile (Nat.digits 10 d.digits)
  rw [Nat.ofDigits_digits] at hzeros
  refine ⟨_, zeros, Nat.ofDigits_lt_base_pow_length (by decide) fun c hc => ?_, hzeros⟩
  exact Nat.digits_lt_base (by decide) ((List.dropWhile_suffix _).subset hc)

theorem significant_le_of_digits_eq (h : d.digits = m * 10 ^ zeros) (hm : m < 10 ^ k) :
    d.significant ≤ k := by
  rcases Nat.eq_zero_or_pos m with rfl | hpos
  · rw [significant, h, Nat.zero_mul, Nat.digits_zero]
    exact Nat.zero_le k
  · have hdrop : (List.replicate zeros 0 ++ Nat.digits 10 m).dropWhile (· = 0) =
        (Nat.digits 10 m).dropWhile (· = 0) :=
      List.dropWhile_append_of_pos fun c hc => by simpa using List.eq_of_mem_replicate hc
    rw [significant, h, Nat.mul_comm, Nat.digits_base_pow_mul (by decide) hpos, hdrop]
    calc ((Nat.digits 10 m).dropWhile (· = 0)).length ≤ (Nat.digits 10 m).length :=
          (List.dropWhile_suffix _).length_le
      _ ≤ k := (Nat.digits_length_le_iff (by decide) m).mpr hm

theorem significant_le_of_digits_lt (h : d.digits < 10 ^ k) : d.significant ≤ k := by
  have hdigits : d.digits = d.digits * 10 ^ 0 := by rw [pow_zero, Nat.mul_one]
  exact significant_le_of_digits_eq hdigits h

theorem ten_pow_le_digits (h : k < d.significant) : 10 ^ k ≤ d.digits :=
  not_lt.mp fun hlt => (significant_le_of_digits_lt hlt).not_gt h

/-- A point of a grid is a point of every finer grid. -/
theorem mul_ten_zpow_add (m zeros : ℕ) (e : ℤ) :
    (m : ℚ) * 10 ^ (e + zeros) = (m * 10 ^ zeros : ℕ) * 10 ^ e := by
  rw [zpow_add₀ (by norm_num), zpow_natCast]
  push_cast
  ring

/-- **A decimal has at most `k` significant digits** exactly if it is, sign apart, a natural number
below `10 ^ k` times a power of ten. -/
theorem significant_le_iff :
    d.significant ≤ k ↔ ∃ (m : ℕ) (e : ℤ), m < 10 ^ k ∧ d.magnitude = m * 10 ^ e := by
  constructor
  · intro h
    obtain ⟨m, zeros, hm, hdigits⟩ := d.exists_digits_eq
    refine ⟨m, d.exponent + zeros, hm.trans_le (Nat.pow_le_pow_right (by decide) h), ?_⟩
    rw [mul_ten_zpow_add, ← hdigits, magnitude]
  · rintro ⟨m, e, hm, hmagnitude⟩
    have hpos := ten_zpow_pos
    rcases le_total d.exponent e with hle | hle
    · obtain ⟨zeros, rfl⟩ := Int.le.dest hle
      rw [mul_ten_zpow_add, magnitude] at hmagnitude
      exact significant_le_of_digits_eq
        (by exact_mod_cast mul_right_cancel₀ (hpos d.exponent).ne' hmagnitude) hm
    · obtain ⟨zeros, hzeros⟩ := Int.le.dest hle
      rw [magnitude, ← hzeros, mul_ten_zpow_add] at hmagnitude
      have hdigits : d.digits * 10 ^ zeros = m := by
        exact_mod_cast mul_right_cancel₀ (hpos e).ne' hmagnitude
      have hle : d.digits ≤ m := hdigits ▸ Nat.le_mul_of_pos_right _ (by positivity)
      exact significant_le_of_digits_lt (hle.trans_lt hm)

example : significant ⟨true, 1200, -5⟩ = 2 := by decide

/-- Decimals of one value have as many significant digits. -/
theorem significant_congr (h : d.value = d'.value) : d.significant = d'.significant := by
  have hmagnitude : d.magnitude = d'.magnitude := by rw [← abs_value, h, abs_value]
  have hle (k : ℕ) : d.significant ≤ k ↔ d'.significant ≤ k := by
    rw [significant_le_iff, significant_le_iff, hmagnitude]
  exact le_antisymm ((hle _).mpr le_rfl) ((hle _).mp le_rfl)

end Cascade.Decimal
