import Cascade.Proofs.LengthText
import Cascade.Proofs.Significant
import Mathlib.Algebra.Order.Field.Basic

/-! # Numbers have the fewest digits

A finite number other than zero is written as a decimal that reads back to it. No decimal with fewer
significant digits reads back to the number, and none with as many that does is nearer to it.

The search for the decimal goes from coarser grids to finer ones, which is not the same as going
from fewer digits to more: `0.9` has one digit like `1` and is on a finer grid. But a decimal on a
finer grid with as many digits is less than the least point with as many digits on the grid on which
the search ends, which is a power of ten and reads back as well. Since no coarser grid has it, there
is only one digit, and the decimal is at most nine tenths of the power of ten. Of all magnitudes
only the second one has such decimals around it, and the power of ten is nearer to it
(`ten_zpow_nearer`).

Main statements:
- `not_around_of_exponent_lt`, `abs_sub_shortest_le`: what the search leaves out.
- `significant_shortest_le`, `abs_sub_shortest_le_of_significant`: no decimal that reads back has
  fewer digits than the one that is found, and none with as many is nearer.
- `written_with_fewest_digits`: the text of a number stands for a shortest decimal. -/

namespace Cascade.Binary64

variable {x : Binary64} {q : ℚ} {n m k grid : ℕ} {d d' : Decimal}

/-! ### The grid on which the search ends -/

theorem readsBack_iff_around_grid : readsBack n (m * (2 * 10 ^ grid)) = true ↔
    Around n (m * 10 ^ ((grid : ℤ) - 1074)) := by
  rw [readsBack_iff_around, ← mul_ten_zpow_sub, Nat.cast_ofNat]

theorem abs_magnitude_sub_point (n m grid : ℕ) :
    |magnitude n - m * 10 ^ ((grid : ℤ) - 1074)| =
      gridDistance n grid m / (2 * 10 ^ 1074) := by
  have hpoint := mul_ten_zpow_sub m grid 1074
  rw [Nat.cast_ofNat] at hpoint
  rw [hpoint, magnitude_eq_decimalUnits, gridDistance, Nat.cast_natAbs, Int.cast_abs]
  generalize 1074 = e
  have hscale : (0 : ℚ) < 2 * 10 ^ e := by positivity
  have hdouble : (decimalUnits n : ℚ) / 10 ^ e = (2 * decimalUnits n : ℕ) / (2 * 10 ^ e) := by
    push_cast
    rw [mul_div_mul_left _ _ two_ne_zero]
  rw [hdouble, ← sub_div, abs_div, abs_of_pos hscale]
  push_cast
  rfl

theorem abs_sub_onGrid?_le (h : onGrid? n grid = some m)
    (hk : Around n (k * 10 ^ ((grid : ℤ) - 1074))) :
    |magnitude n - m * 10 ^ ((grid : ℤ) - 1074)| ≤ |magnitude n - k * 10 ^ ((grid : ℤ) - 1074)| := by
  have hle := gridDistance_onGrid?_le h (readsBack_iff_around_grid.mpr hk)
  rw [abs_magnitude_sub_point, abs_magnitude_sub_point]
  generalize 1074 = e
  exact div_le_div_of_nonneg_right (by exact_mod_cast hle) (by positivity)

/-- **No point of a coarser grid reads back.** -/
theorem not_around_of_exponent_lt (hx : x.isZero = false) {e : ℤ} (he : x.shortest.exponent < e)
    (m : ℕ) : ¬ Around x.ordinal (m * 10 ^ e) := by
  obtain ⟨digits, grid, hfound, heq⟩ := x.exists_shortest_eq
  have hnone := (shortestBelow_cases (onGrid?_coarsestGrid hx)).2
  rw [hfound] at hnone
  rw [heq] at he
  dsimp only at he
  obtain ⟨zeros, rfl⟩ : ∃ zeros : ℕ, e = ((grid + 1 : ℕ) : ℤ) - 1074 + zeros :=
    ⟨(e - ((grid + 1 : ℕ) - 1074)).toNat, by omega⟩
  rw [Decimal.mul_ten_zpow_add, ← readsBack_iff_around_grid, onGrid?_eq_none_iff.mp hnone]
  exact Bool.false_ne_true

/-- **No point of its grid that reads back is nearer** than the shortest decimal. -/
theorem abs_sub_shortest_le (hx : x.isZero = false)
    (h : Around x.ordinal (m * 10 ^ x.shortest.exponent)) :
    |magnitude x.ordinal - x.shortest.magnitude| ≤
      |magnitude x.ordinal - m * 10 ^ x.shortest.exponent| := by
  obtain ⟨digits, grid, hfound, heq⟩ := x.exists_shortest_eq
  have hcases := (shortestBelow_cases (onGrid?_coarsestGrid hx)).1
  rw [hfound] at hcases
  rw [heq] at h ⊢
  rcases hcases with hgrid | hexact
  · exact abs_sub_onGrid?_le hgrid h
  · -- on the finest grid it is the magnitude
    obtain ⟨hdigits, hgrid⟩ := Prod.mk.inj hexact
    have hself : |magnitude x.ordinal - digits * 10 ^ ((grid : ℤ) - 1074)| = 0 := by
      rw [abs_magnitude_sub_point, hdigits, hgrid, gridDistance, pow_zero, Nat.mul_one,
        Nat.mul_comm, sub_self, Int.natAbs_zero, Nat.cast_zero, zero_div]
    exact hself.trans_le (abs_nonneg _)

/-! ### Powers of ten among the least magnitudes -/

/-- A magnitude of few gaps is one of the least, whose gaps are quanta. -/
theorem two_mul_le_of_quanta_le (h : 2 * quanta n ≤ k * 2 ^ gap n) (hk : k < 0x20000000000000) :
    2 * n ≤ k := by
  have hpos := Nat.two_pow_pos (gap n)
  unfold quanta at h
  rw [Nat.pow_eq] at h
  split at h
  · next hexp =>
    have hgap : gap n = 0 := by rw [gap, hexp]
    rw [hgap] at h
    unfold exponentField fractionField at *
    omega
  · change 2 * ((0x10000000000000 + fractionField n) * 2 ^ gap n) ≤ k * 2 ^ gap n at h
    rw [← Nat.mul_assoc] at h
    have := Nat.le_of_mul_le_mul_right h hpos
    omega

/-- The middles of a magnitude and its neighbours in quanta. -/
theorem Around.quanta_le (h : Around n q) :
    (quanta (n - 1) + quanta n : ℚ) ≤ 2 * (q * 2 ^ 1074) ∧
      2 * (q * 2 ^ 1074) ≤ quanta n + quanta (n + 1) := by
  have hscale : (0 : ℚ) ≤ 2 ^ 1074 := (pow_pos two_pos _).le
  rw [← magnitude_mul, ← magnitude_mul, ← magnitude_mul, ← add_mul, ← add_mul, ← mul_assoc]
  exact ⟨mul_le_mul_of_nonneg_right h.lower hscale, mul_le_mul_of_nonneg_right h.upper hscale⟩

/-- Only the nine least magnitudes have a number and nine tenths of it around them. -/
theorem le_nine_of_around (hn : 0 < n) (hnine : Around n (9 * q)) (hten : Around n (10 * q)) :
    n ≤ 9 := by
  have hlower := hnine.quanta_le.1
  have hupper := hten.quanta_le.2
  rw [mul_assoc] at hlower hupper
  have hratio : 10 * (quanta (n - 1) + quanta n) ≤ 9 * (quanta n + quanta (n + 1)) := by
    generalize q * 2 ^ 1074 = r at *
    have : (10 : ℚ) * (quanta (n - 1) + quanta n) ≤ 9 * (quanta n + quanta (n + 1)) := by linarith
    exact_mod_cast this
  have hprev := quanta_succ (n - 1)
  rw [Nat.sub_add_cancel hn] at hprev
  have hnext := quanta_succ n
  have hgap : 2 ^ gap (n - 1) ≤ 2 ^ gap n := by
    refine Nat.pow_le_pow_right two_pos ?_
    unfold gap exponentField
    omega
  have := @two_mul_le_of_quanta_le n 19 (by omega) (by decide)
  omega

/-- What `10 ^ (-324)` is in quanta. -/
theorem two_pow_div_ten_pow :
    3 < 20 * ((2 : ℚ) ^ 1074 / 10 ^ 324) ∧ 19 * ((2 : ℚ) ^ 1074 / 10 ^ 324) ≤ 4 := by
  obtain ⟨hmore, hless⟩ : 3 * 10 ^ 324 < 20 * 2 ^ 1074 ∧ 19 * 2 ^ 1074 ≤ 4 * 10 ^ 324 := by
    decide +kernel
  generalize 1074 = e at *
  generalize 324 = f at *
  have hten : (0 : ℚ) < 10 ^ f := pow_pos (by norm_num) f
  constructor
  · rw [mul_div_assoc', lt_div_iff₀ hten]
    exact_mod_cast hmore
  · rw [mul_div_assoc', div_le_iff₀ hten]
    exact_mod_cast hless

/-- A power of ten between an eighteenth of a quantum and a whole one is about a fifth of it. -/
theorem ten_zpow_of_quanta {j : ℤ} (hlower : 1 ≤ 18 * ((10 : ℚ) ^ j * 2 ^ 1074))
    (hupper : (10 : ℚ) ^ j * 2 ^ 1074 < 1) :
    3 < 20 * ((10 : ℚ) ^ j * 2 ^ 1074) ∧ 19 * ((10 : ℚ) ^ j * 2 ^ 1074) ≤ 4 := by
  obtain ⟨hmore, hless⟩ := two_pow_div_ten_pow
  have hpower : (10 : ℚ) ^ j * 2 ^ 1074 = 10 ^ (j + 324) * (2 ^ 1074 / 10 ^ 324) := by
    generalize 1074 = e
    rw [zpow_add₀ (by norm_num), zpow_ofNat, mul_assoc,
      mul_div_cancel₀ _ (pow_ne_zero _ (by norm_num))]
  rw [hpower] at hlower hupper ⊢
  clear hpower
  generalize (2 : ℚ) ^ 1074 / 10 ^ 324 = fifth at *
  have hpos : 0 ≤ fifth := by linarith
  rcases lt_trichotomy (j + 324) 0 with hlt | hzero | hgt
  · have hle : (10 : ℚ) ^ (j + 324) ≤ 10 ^ (-1 : ℤ) := zpow_le_zpow_right₀ (by norm_num) (by omega)
    have hmul := mul_le_mul_of_nonneg_right hle hpos
    rw [zpow_neg_one] at hmul
    linarith
  · rw [hzero, zpow_zero, one_mul]
    exact ⟨hmore, hless⟩
  · have hle : (10 : ℚ) ^ (1 : ℤ) ≤ 10 ^ (j + 324) := zpow_le_zpow_right₀ (by norm_num) (by omega)
    have hmul := mul_le_mul_of_nonneg_right hle hpos
    rw [zpow_one] at hmul
    linarith

/-- **A power of ten is nearer to a magnitude than nine tenths of it** if both are around the
magnitude. The magnitude is the second one then. -/
theorem ten_zpow_nearer {j : ℤ} (hn : 0 < n) (hnine : Around n (9 * 10 ^ j))
    (hten : Around n (10 * 10 ^ j)) : 19 * 10 ^ j ≤ 2 * magnitude n := by
  have hle := le_nine_of_around hn hnine hten
  have hself := @quanta_of_le n (by omega)
  have hprev := @quanta_of_le (n - 1) (by omega)
  have hnext := @quanta_of_le (n + 1) (by omega)
  have hlower := hnine.quanta_le.1
  have hupper := hten.quanta_le.2
  have hpower := @ten_zpow_of_quanta j
  refine le_of_mul_le_mul_right ?_ (pow_pos two_pos 1074 : (0 : ℚ) < 2 ^ 1074)
  rw [mul_assoc, mul_assoc, magnitude_mul, hself]
  rw [hself, hprev, Nat.cast_sub hn, Nat.cast_one, mul_assoc] at hlower
  rw [hself, hnext, Nat.cast_add, Nat.cast_one, mul_assoc] at hupper
  generalize (10 : ℚ) ^ j * 2 ^ 1074 = r at *
  have hone : (1 : ℚ) ≤ n := by exact_mod_cast hn
  have hnine : (n : ℚ) ≤ 9 := by exact_mod_cast hle
  obtain ⟨hmore, hless⟩ := hpower (by linarith) (by linarith)
  have htwo : 1 < n := by
    have : (1 : ℚ) < n := by linarith
    exact_mod_cast this
  have htwo : (2 : ℚ) ≤ n := by exact_mod_cast htwo
  linarith

/-! ### Shortest decimals -/

/-- The least point with as many digits as the shortest decimal, on its grid, is a power of ten. If
this reads back as well, there is only one digit. -/
theorem eq_zero_of_le_ten_pow (hx : x.isZero = false) (hk : k < x.shortest.significant)
    (hq : Around x.ordinal q) (hle : q ≤ 10 ^ k * 10 ^ x.shortest.exponent) :
    k = 0 ∧ Around x.ordinal (10 ^ x.shortest.exponent) := by
  have hdigits : (10 : ℚ) ^ k ≤ x.shortest.digits := by
    exact_mod_cast Decimal.ten_pow_le_digits hk
  have hmagnitude : 10 ^ k * 10 ^ x.shortest.exponent ≤ x.shortest.magnitude :=
    mul_le_mul_of_nonneg_right hdigits (Decimal.ten_zpow_pos _).le
  have haround := hq.of_between (around_shortest hx) hle hmagnitude
  cases k with
  | zero => exact ⟨rfl, by rwa [pow_zero, one_mul] at haround⟩
  | succ k =>
    have hcoarser : (10 : ℚ) ^ (k + 1) * 10 ^ x.shortest.exponent =
        (10 ^ k : ℕ) * 10 ^ (x.shortest.exponent + 1) := by
      rw [pow_succ, zpow_add_one₀ (by norm_num)]
      push_cast
      ring
    rw [hcoarser] at haround
    exact absurd haround (not_around_of_exponent_lt hx (lt_add_one _) _)

/-- The significant digits and the exponent of a decimal that reads back. It is on the grid of the
shortest decimal or on a finer one. -/
theorem exists_of_around (hx : x.isZero = false) (hd : Around x.ordinal d.magnitude)
    (hk : d.significant ≤ k) : ∃ (m : ℕ) (e : ℤ), 0 < m ∧ m < 10 ^ k ∧
      d.magnitude = m * 10 ^ e ∧ e ≤ x.shortest.exponent := by
  obtain ⟨m, e, hm, hmagnitude⟩ := Decimal.significant_le_iff.mp hk
  refine ⟨m, e, ?_, hm, hmagnitude, ?_⟩
  · apply Nat.pos_of_ne_zero
    rintro rfl
    have hpos := hd.pos (ordinal_pos hx)
    rw [hmagnitude, Nat.cast_zero, zero_mul] at hpos
    exact absurd hpos (lt_irrefl 0)
  · by_contra hlt
    rw [hmagnitude] at hd
    exact not_around_of_exponent_lt hx (not_le.mp hlt) m hd

/-- **No decimal that reads back has fewer digits** than the shortest one. -/
theorem significant_shortest_le (hx : x.isZero = false) (hd : Around x.ordinal d.magnitude) :
    x.shortest.significant ≤ d.significant := by
  by_contra hlt
  obtain ⟨m, e, hpos, hm, hmagnitude, he⟩ := exists_of_around hx hd le_rfl
  have hle : d.magnitude ≤ 10 ^ d.significant * 10 ^ x.shortest.exponent := by
    rw [hmagnitude]
    exact mul_le_mul (by exact_mod_cast hm.le) (zpow_le_zpow_right₀ (by norm_num) he)
      (Decimal.ten_zpow_pos e).le (by positivity)
  obtain ⟨hzero, -⟩ := eq_zero_of_le_ten_pow hx (not_le.mp hlt) hd hle
  rw [hzero] at hm
  omega

/-- A decimal on a finer grid that reads back with as many digits is less than a power of ten, which
reads back as well and is nearer. -/
theorem abs_sub_ten_zpow_le (hx : x.isZero = false) {e : ℤ} (he : e < x.shortest.exponent)
    (hpos : 0 < m) (hm : m < 10 ^ x.shortest.significant) (h : Around x.ordinal (m * 10 ^ e)) :
    Around x.ordinal (10 ^ x.shortest.exponent) ∧
      |magnitude x.ordinal - 10 ^ x.shortest.exponent| ≤ |magnitude x.ordinal - m * 10 ^ e| := by
  obtain ⟨k, hk⟩ : ∃ k, x.shortest.significant = k + 1 := by
    refine Nat.exists_eq_succ_of_ne_zero fun hzero => ?_
    rw [hzero, pow_zero] at hm
    omega
  obtain ⟨j, hj⟩ : ∃ j, x.shortest.exponent = j + 1 := ⟨x.shortest.exponent - 1, by omega⟩
  have hjpos := Decimal.ten_zpow_pos j
  have hpower : (10 : ℚ) ^ x.shortest.exponent = 10 * 10 ^ j := by
    rw [hj, zpow_add_one₀ (by norm_num), mul_comm]
  have hmul {r : ℕ} (hr : m ≤ r) : (m : ℚ) * 10 ^ e ≤ r * 10 ^ j :=
    mul_le_mul (by exact_mod_cast hr) (zpow_le_zpow_right₀ (by norm_num) (by omega))
      (Decimal.ten_zpow_pos e).le (Nat.cast_nonneg r)
  have hle : (m : ℚ) * 10 ^ e ≤ 10 ^ k * 10 ^ x.shortest.exponent := by
    calc (m : ℚ) * 10 ^ e ≤ (10 ^ (k + 1) : ℕ) * 10 ^ j := hmul (hk ▸ hm.le)
      _ = 10 ^ k * 10 ^ x.shortest.exponent := by
          rw [hpower]
          push_cast
          ring
  obtain ⟨rfl, hten⟩ := eq_zero_of_le_ten_pow hx (by omega) h hle
  refine ⟨hten, ?_⟩
  rw [hpower] at hten ⊢
  have hdigit : (m : ℚ) * 10 ^ e ≤ (9 : ℕ) * 10 ^ j := by
    rw [hk] at hm
    exact hmul (by omega)
  rw [Nat.cast_ofNat] at hdigit
  have hnine := h.of_between hten hdigit (by linarith)
  have hnearer := ten_zpow_nearer (ordinal_pos hx) hnine hten
  exact (abs_sub_ge_abs_sub_iff (by linarith)).mpr (by linarith)

/-- **No decimal with as many digits that reads back is nearer** than the shortest one. -/
theorem abs_sub_shortest_le_of_significant (hx : x.isZero = false)
    (hd : Around x.ordinal d.magnitude) (hs : d.significant ≤ x.shortest.significant) :
    |magnitude x.ordinal - x.shortest.magnitude| ≤ |magnitude x.ordinal - d.magnitude| := by
  obtain ⟨m, e, hpos, hm, hmagnitude, he⟩ := exists_of_around hx hd hs
  rw [hmagnitude] at hd ⊢
  rcases he.lt_or_eq with hlt | rfl
  · obtain ⟨haround, hle⟩ := abs_sub_ten_zpow_le hx hlt hpos hm hd
    rw [← one_mul ((10 : ℚ) ^ _), ← Nat.cast_one] at haround hle
    exact (abs_sub_shortest_le hx haround).trans hle
  · exact abs_sub_shortest_le hx hd

/-- A decimal that reads back to a number. None with fewer significant digits does, and none with as
many that does is nearer to the number. -/
structure IsShortest (d : Decimal) (x : Binary64) : Prop where
  reads_back : IsNearest d.value x
  fewest : ∀ d' : Decimal, IsNearest d'.value x → d.significant ≤ d'.significant
  nearest : ∀ d' : Decimal, IsNearest d'.value x → d'.significant = d.significant →
    |d.value - x.value| ≤ |d'.value - x.value|

theorem IsShortest.congr (h : IsShortest d x) (hvalue : d.value = d'.value) : IsShortest d' x := by
  have hsignificant := Decimal.significant_congr hvalue
  obtain ⟨hreads, hfewest, hnearest⟩ := h
  rw [hvalue] at hreads hnearest
  rw [hsignificant] at hfewest hnearest
  exact ⟨hreads, hfewest, hnearest⟩

theorem abs_value_sub_value (h : d.negative = x.negative) :
    |d.value - x.value| = |magnitude x.ordinal - d.magnitude| := by
  unfold Decimal.value value
  rw [h]
  split
  · rw [neg_sub_neg]
  · exact abs_sub_comm _ _

/-- **The decimal that the search finds is shortest.** -/
theorem isShortest_shortest (hfinite : x.isFinite = true) (hx : x.isZero = false) :
    IsShortest x.shortest x := by
  refine ⟨isNearest_shortest hfinite hx, fun d hd => ?_, fun d hd hs => ?_⟩
  · exact significant_shortest_le hx ((isNearest_iff_around hfinite hx).mp hd).2
  · obtain ⟨hsign, haround⟩ := (isNearest_iff_around hfinite hx).mp hd
    rw [abs_value_sub_value hsign, abs_value_sub_value (negative_shortest x)]
    exact abs_sub_shortest_le_of_significant hx haround hs.le

/-- **Numbers are written with the fewest digits.** A finite number other than zero is written as a
positional decimal without superfluous zeros, and so it is in lengths. That a decimal is rounded to
the number says the same as that the number is nearest to it; this holds of the decimal that is
written, of none with fewer significant digits, and of none with as many that is nearer. -/
theorem written_with_fewest_digits (hfinite : x.isFinite = true) (hx : x.isZero = false) :
    ∃ p : Positional, p.Canonical ∧ x.text.toList = p.text ∧
      Positional.read x.text.toList = (p, []) ∧
      (∀ unit : LengthUnit, unit.hasMagnitude = true →
        Length.css ⟨x, unit⟩ = x.text ++ unit.suffix) ∧
      (∀ d : Decimal, ofDecimal d = x ↔ IsNearest d.value x) ∧ IsShortest p.decimal x := by
  have hcanonical := Decimal.canonical_positional (digits_shortest_mod_ten hx)
  have htext : x.text.toList = x.shortest.positional.text := by
    rw [text_of_isFinite hfinite hx, String.toList_ofList, Decimal.text_positional]
  have hread := @Positional.read_text_append [] _ hcanonical fun c hc => by cases hc
  rw [List.append_nil] at hread
  refine ⟨x.shortest.positional, hcanonical, htext, htext ▸ hread, fun unit hunit => ?_,
    fun d => ofDecimal_eq_iff hx, ?_⟩
  · rw [Length.css_of_hasMagnitude hunit, hx, if_neg Bool.false_ne_true]
  · exact (isShortest_shortest hfinite hx).congr (Decimal.value_positional _).symm

/-- Two numbers that narrowly have their digits. The nearest decimal with the digits of `2 ^ (-44)`
would end in a one, but the magnitudes before a power of two are too near for it to read back. The
second magnitude has another decimal of one digit, which reads back and is farther. -/
theorem written_with_fewest_digits_narrowly :
    (∃ (x : Binary64) (p : Positional), x = .ofWord 0x3d30000000000000 ∧ x.isFinite = true ∧
      x.isZero = false ∧ x.text = "0.00000000000005684341886080802" ∧ x.text.toList = p.text ∧
      p.decimal = ⟨false, 5684341886080802, -29⟩ ∧ IsShortest p.decimal x ∧
      ¬ IsNearest (Decimal.value ⟨false, 5684341886080801, -29⟩) x) ∧
    ∃ (x : Binary64) (p : Positional), x = .ofWord 2 ∧ x.isFinite = true ∧ x.isZero = false ∧
      x.text.toList = p.text ∧ p.decimal = ⟨false, 1, -323⟩ ∧ IsShortest p.decimal x ∧
      IsNearest (Decimal.value ⟨false, 9, -324⟩) x := by
  constructor
  · let x : Binary64 := .ofWord 0x3d30000000000000
    have htext : x.text = "0.00000000000005684341886080802" := by decide +kernel
    have hrounded : ofDecimal ⟨false, 5684341886080801, -29⟩ ≠ x := by decide +kernel
    obtain ⟨p, -, hp, hread, -, hreads, hshortest⟩ := @written_with_fewest_digits x rfl rfl
    rw [htext] at hread
    obtain rfl := congrArg Prod.fst hread
    exact ⟨x, _, rfl, rfl, rfl, htext, hp, rfl, hshortest, fun h => hrounded ((hreads _).mpr h)⟩
  · let x : Binary64 := .ofWord 2
    have hdigits : x.shortest = ⟨false, 1, -323⟩ := by decide +kernel
    have hdecimal : (Positional.read x.text.toList).1.decimal = ⟨false, 1, -323⟩ := by
      rw [text_of_isFinite rfl rfl, String.toList_ofList, hdigits]
      decide +kernel
    have hrounded : ofDecimal ⟨false, 9, -324⟩ = x := by decide +kernel
    obtain ⟨p, -, hp, hread, -, hreads, hshortest⟩ := @written_with_fewest_digits x rfl rfl
    rw [hread] at hdecimal
    exact ⟨x, p, rfl, rfl, rfl, hp, hdecimal, hshortest, (hreads _).mp hrounded⟩

end Cascade.Binary64
