import Cascade.Proofs.Binary64.Shortest

/-! # Integers

Up to `2 ^ 53` every natural number is a magnitude, so that the neighbours of such a magnitude are
at a distance of at most one from it, but for the one that comes after `2 ^ 53`. A natural number is
a point of the decimal grid of the ones, which keeps the search for the shortest decimal from going
on to fractions. What it finds is a natural number near the magnitude, and there is none but the
magnitude itself (`exists_shortest_of_natCast`).

Main statements:
- `exists_magnitude_eq_natCast`: the natural numbers among the magnitudes.
- `value_ofInt`: an integer is rounded to itself.
- `exists_shortest_of_natCast`: the shortest decimal of a natural number is the number. -/

namespace Cascade.Binary64

/-! ### Natural numbers among the magnitudes -/

theorem magnitude_of_quanta {f t n : ℕ} (hlower : 0x10000000000000 ≤ f)
    (hupper : f ≤ 0x20000000000000) (h : f * 2 ^ t = n * 2 ^ 1074) :
    magnitude (f + t * 0x10000000000000) = n := by
  rw [magnitude, quanta_add_mul hupper (.inr hlower), h]
  generalize 1074 = e
  push_cast
  exact mul_div_cancel_right₀ _ (pow_ne_zero e two_ne_zero)

/-- The binary digits of a natural number, shifted to the left until there are 53 of them. -/
theorem exists_shift {n : ℕ} (hpos : 0 < n) (h : n ≤ 0x20000000000000) :
    ∃ shift ≤ 52, 0x10000000000000 ≤ n * 2 ^ shift ∧ n * 2 ^ shift ≤ 0x20000000000000 := by
  have hlog : 2 ^ n.log2 ≤ n := Nat.log2_self_le hpos.ne'
  have hlog' : n < 2 ^ (n.log2 + 1) := Nat.lt_log2_self
  refine ⟨52 - n.log2, Nat.sub_le _ _, ?_, ?_⟩
  · calc 0x10000000000000 = 2 ^ 52 := by norm_num
      _ ≤ 2 ^ (n.log2 + (52 - n.log2)) := Nat.pow_le_pow_right two_pos (by omega)
      _ = 2 ^ n.log2 * 2 ^ (52 - n.log2) := Nat.pow_add _ _ _
      _ ≤ n * 2 ^ (52 - n.log2) := Nat.mul_le_mul_right _ hlog
  rcases Nat.lt_or_ge 52 n.log2 with hlt | hge
  · rw [Nat.sub_eq_zero_of_le hlt.le, pow_zero, Nat.mul_one]
    exact h
  · have hsum : n.log2 + 1 + (52 - n.log2) = 53 := by omega
    calc n * 2 ^ (52 - n.log2) ≤ 2 ^ (n.log2 + 1) * 2 ^ (52 - n.log2) :=
          Nat.mul_le_mul_right _ hlog'.le
      _ = 0x20000000000000 := by
          rw [← Nat.pow_add, hsum]

/-- **Every natural number up to `2 ^ 53` is a finite magnitude.** -/
theorem exists_magnitude_eq_natCast {n : ℕ} (h : n ≤ 0x20000000000000) :
    ∃ o < infinityOrdinal, magnitude o = n := by
  rcases Nat.eq_zero_or_pos n with rfl | hpos
  · exact ⟨0, by decide, by rw [magnitude_zero, Nat.cast_zero]⟩
  obtain ⟨shift, hshift, hlower, hupper⟩ := exists_shift hpos h
  refine ⟨n * 2 ^ shift + (1074 - shift) * 0x10000000000000, ?_, ?_⟩
  · unfold infinityOrdinal
    omega
  · apply magnitude_of_quanta hlower hupper
    rw [mul_assoc, ← pow_add, Nat.add_sub_cancel' (by omega)]

/-- The magnitude that comes after `2 ^ 53`. -/
theorem exists_magnitude_eq_add_two : ∃ o, magnitude o = (0x20000000000002 : ℕ) := by
  refine ⟨0x10000000000001 + (1074 + 1) * 0x10000000000000, ?_⟩
  apply magnitude_of_quanta (by decide) (by decide)
  generalize 1074 = e
  rw [pow_succ]
  omega

/-! ### Natural numbers near a magnitude -/

variable {n m o k : ℕ} {x y : Binary64} {q : ℚ}

theorem magnitude_succ_le (h : magnitude n < magnitude o) : magnitude (n + 1) ≤ magnitude o :=
  strictMono_magnitude.monotone (strictMono_magnitude.lt_iff_lt.mp h)

theorem le_magnitude_pred (h : magnitude o < magnitude n) : magnitude o ≤ magnitude (n - 1) := by
  have hlt := strictMono_magnitude.lt_iff_lt.mp h
  exact strictMono_magnitude.monotone (by omega)

theorem magnitude_succ_le_add_one (hn : magnitude n = m) (hm : m < 0x20000000000000) :
    magnitude (n + 1) ≤ m + 1 := by
  obtain ⟨o, -, ho⟩ := @exists_magnitude_eq_natCast (m + 1) hm
  have hle := @magnitude_succ_le n o (by rw [hn, ho]; exact_mod_cast Nat.lt_succ_self m)
  rw [ho] at hle
  exact_mod_cast hle

theorem magnitude_succ_le_add_two (hn : magnitude n = (0x20000000000000 : ℕ)) :
    magnitude (n + 1) ≤ (0x20000000000002 : ℕ) := by
  obtain ⟨o, ho⟩ := exists_magnitude_eq_add_two
  rw [← ho]
  apply magnitude_succ_le
  rw [hn, ho]
  norm_num

theorem sub_one_le_magnitude_pred (hn : magnitude n = m) (hm : m ≤ 0x20000000000000) :
    (m : ℚ) - 1 ≤ magnitude (n - 1) := by
  cases m with
  | zero =>
    rw [Nat.cast_zero]
    linarith [magnitude_nonneg (n - 1)]
  | succ m =>
    obtain ⟨o, -, ho⟩ := @exists_magnitude_eq_natCast m (by omega)
    have hle := @le_magnitude_pred n o (by rw [hn, ho]; exact_mod_cast Nat.lt_succ_self m)
    rw [ho] at hle
    push_cast
    linarith

/-- **The only natural number around a natural number up to `2 ^ 53` is the number itself**, but for
the one in the middle between `2 ^ 53` and the magnitude that comes after it. -/
theorem Around.natCast_eq (h : Around n k) (hn : magnitude n = m) (hm : m ≤ 0x20000000000000) :
    k = m ∨ m = 0x20000000000000 ∧ k = 0x20000000000001 := by
  have hlower : 2 * m ≤ 2 * k + 1 := by
    have hpred := sub_one_le_magnitude_pred hn hm
    have hmiddle := h.lower
    rw [hn] at hmiddle
    have : (2 : ℚ) * m ≤ 2 * k + 1 := by linarith
    exact_mod_cast this
  rcases Nat.lt_or_eq_of_le hm with hlt | rfl
  · have hsucc := magnitude_succ_le_add_one hn hlt
    have hmiddle := h.upper
    rw [hn] at hmiddle
    have hupper : (2 : ℚ) * k ≤ 2 * m + 1 := by linarith
    have hupper : 2 * k ≤ 2 * m + 1 := by exact_mod_cast hupper
    omega
  · have hsucc := magnitude_succ_le_add_two hn
    have hmiddle := h.upper
    rw [hn] at hmiddle
    have hupper : (2 : ℚ) * k ≤ (0x20000000000000 : ℕ) + (0x20000000000002 : ℕ) := by linarith
    have hupper : 2 * k ≤ 0x20000000000000 + 0x20000000000002 := by exact_mod_cast hupper
    omega

/-! ### Rounding of integers -/

theorem IsNearest.value_eq (h : IsNearest q x) (hy : y.isNaN = false) (hq : y.value = q) :
    x.value = q := by
  have hle := h.least y hy
  rw [hq, sub_self, abs_zero] at hle
  have hzero := abs_eq_zero.mp (le_antisymm hle (abs_nonneg _))
  linarith

theorem signed_natAbs (n : ℤ) :
    (if decide (n < 0) = true then -(n.natAbs : ℚ) else n.natAbs) = n := by
  rw [Nat.cast_natAbs]
  by_cases hn : n < 0
  · rw [if_pos (decide_eq_true hn), abs_of_neg hn, Int.cast_neg, neg_neg]
  · rw [if_neg (by simpa using hn), abs_of_nonneg (not_lt.mp hn)]

theorem isNearest_ofInt (n : ℤ) : IsNearest n (ofInt n) := by
  let d : Decimal := ⟨decide (n < 0), n.natAbs, (0 : ℕ)⟩
  have hof : ofDecimal d = ofInt n := by
    show ofRatio (decide (n < 0)) (n.natAbs * 1) 1 = _
    rw [Nat.mul_one, ofInt]
  have hvalue : d.value = n := by
    have hmagnitude : d.magnitude = n.natAbs := by simp [d, Decimal.magnitude]
    rw [Decimal.value, hmagnitude]
    exact signed_natAbs n
  rw [← hvalue, ← hof]
  exact isNearest_ofDecimal d

theorem isFinite_of_magnitude (h : magnitude x.ordinal = m) (hm : m ≤ 0x20000000000000) :
    x.isFinite = true := by
  obtain ⟨o, ho, hmagnitude⟩ := exists_magnitude_eq_natCast hm
  have hordinal : x.ordinal.val = o := strictMono_magnitude.injective (h.trans hmagnitude.symm)
  exact decide_eq_true (hordinal ▸ ho)

theorem magnitude_of_value_eq {n : ℤ} (h : x.value = n) : magnitude x.ordinal = n.natAbs := by
  rw [← abs_value, h, Nat.cast_natAbs, Int.cast_abs]

theorem exists_value_eq_intCast {n : ℤ} (h : n.natAbs ≤ 0x20000000000000) :
    ∃ y : Binary64, y.isNaN = false ∧ y.value = n := by
  obtain ⟨o, ho, hmagnitude⟩ := exists_magnitude_eq_natCast h
  let y : Binary64 := ⟨decide (n < 0), o, ho.trans infinityOrdinal_lt⟩
  refine ⟨y, isNaN_eq_false_iff.mpr ho.le, ?_⟩
  rw [value, hmagnitude]
  exact signed_natAbs n

/-- **An integer up to `2 ^ 53` is rounded to itself.** -/
theorem value_ofInt {n : ℤ} (h : n.natAbs ≤ 0x20000000000000) : (ofInt n).value = n := by
  obtain ⟨y, hy, hvalue⟩ := exists_value_eq_intCast h
  exact (isNearest_ofInt n).value_eq hy hvalue

/-! ### The shortest decimal of a natural number -/

theorem decimalUnits_of_magnitude (h : magnitude n = m) : decimalUnits n = m * 10 ^ 1074 := by
  rw [magnitude_eq_decimalUnits] at h
  generalize 1074 = e at h ⊢
  have hten : (10 : ℚ) ^ e ≠ 0 := pow_ne_zero e (by norm_num)
  rw [div_eq_iff hten] at h
  exact_mod_cast h

/-- The search does not go on to grids finer than one that has the magnitude on it. -/
theorem le_shortestBelow {grid : ℕ} (h : onGrid? n (grid + 1) = none)
    (hk : decimalUnits n = m * 10 ^ k) : k ≤ (shortestBelow n grid).2 := by
  by_contra hlt
  have hnone := onGrid?_eq_none_iff.mp (shortestBelow_cases h).2
  set next := (shortestBelow n grid).2 + 1
  have hpoint : m * 10 ^ (k - next) * (2 * 10 ^ next) = 2 * decimalUnits n := by
    have hpow : 10 ^ k = 10 ^ (k - next) * 10 ^ next := by
      rw [← pow_add, Nat.sub_add_cancel (by omega)]
    rw [hk, hpow]
    ring
  have hself := hnone (m * 10 ^ (k - next))
  rw [hpoint, readsBack_decimalUnits] at hself
  cases hself

/-- On a grid that has the magnitude on it, this is the point that is taken. -/
theorem onGrid?_of_decimalUnits (hk : decimalUnits n = m * 10 ^ k) : onGrid? n k = some m := by
  have hstep : 0 < 2 * 10 ^ k := by positivity
  have hpoint : 2 * decimalUnits n = m * (2 * 10 ^ k) := by
    rw [hk]
    ring
  have hdiv : 2 * decimalUnits n / (2 * 10 ^ k) = m := by rw [hpoint, Nat.mul_div_cancel _ hstep]
  have hmod : 2 * decimalUnits n % (2 * 10 ^ k) = 0 := by rw [hpoint, Nat.mul_mod_left]
  have hself : readsBack n (m * (2 * 10 ^ k)) = true := hpoint ▸ readsBack_decimalUnits n
  unfold onGrid?
  dsimp only
  rw [Nat.pow_eq, hdiv, hmod, hself, Nat.mul_zero, if_pos hstep]
  cases readsBack n ((m + 1) * (2 * 10 ^ k)) <;> rfl

/-- **The shortest decimal of a natural number up to `2 ^ 53` is the number**, with its last zeros
in the exponent. -/
theorem exists_shortest_of_natCast (hx : x.isZero = false) (h : magnitude x.ordinal = m)
    (hm : m ≤ 0x20000000000000) : ∃ digits zeros : ℕ,
      x.shortest = ⟨x.negative, digits, zeros⟩ ∧ digits * 10 ^ zeros = m := by
  obtain ⟨digits, grid, hfound, heq⟩ := x.exists_shortest_eq
  have hnone := onGrid?_coarsestGrid hx
  have hunits := decimalUnits_of_magnitude h
  have hgrid := le_shortestBelow hnone hunits
  obtain ⟨hcases, -⟩ := shortestBelow_cases hnone
  rw [hfound] at hgrid hcases
  obtain ⟨zeros, rfl⟩ := Nat.exists_eq_add_of_le hgrid
  have hexponent : ((1074 + zeros : ℕ) : ℤ) - 1074 = zeros := by omega
  rw [hexponent] at heq
  refine ⟨digits, zeros, heq, ?_⟩
  have haround := around_shortest hx
  have hmagnitude : x.shortest.magnitude = (digits * 10 ^ zeros : ℕ) := by
    rw [heq, Decimal.magnitude, zpow_natCast]
    push_cast
    rfl
  rw [hmagnitude] at haround
  rcases haround.natCast_eq h hm with hdigits | ⟨rfl, hdigits⟩
  · exact hdigits
  · -- the other number ends in a three, so that it would be found on the grid of the ones
    exfalso
    obtain rfl : zeros = 0 := by
      cases zeros with
      | zero => rfl
      | succ zeros =>
        rw [pow_succ, ← mul_assoc] at hdigits
        omega
    rcases hcases with hones | hzero
    · rw [Nat.add_zero, onGrid?_of_decimalUnits hunits] at hones
      have := Option.some.inj hones
      omega
    · have := congrArg Prod.snd hzero
      dsimp only at this
      omega

end Cascade.Binary64
