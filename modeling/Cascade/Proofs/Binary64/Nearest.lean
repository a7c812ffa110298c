import Cascade.Binary64.Basic
import Mathlib.Algebra.Order.Field.Rat
import Mathlib.Order.Monotone.Basic
import Mathlib.Tactic.Linarith
import Mathlib.Tactic.Ring

/-! # Nearest numbers

The value of a number is a rational. The number *nearest* to a rational is the one whose value has
the least distance to it; of two at the same distance it is the one with the even ordinal. Infinite
numbers stand for `± 2 ^ 1024` here, so that a rational beyond the middle between the greatest
finite magnitude and `2 ^ 1024` is nearest to an infinite number.

Main statements:
- `strictMono_magnitude`: the magnitudes come in the order of their ordinals.
- `Around.isNearest`, `IsNearest.around`: a rational is nearest to a number exactly if it is between
  the middles of the magnitude and its two neighbours.
- `IsNearest.unique`: no two numbers of different values are nearest to one rational. -/

namespace Cascade.Binary64

/-! ### Magnitudes -/

/-- The exponent of the distance, in quanta, from the magnitude with an ordinal to the next one. -/
def gap (ordinal : ℕ) : ℕ := exponentField ordinal - 1

/-- Within a spacing of `2 ^ t` quanta the ordinals are consecutive, and so is the first one of the
next spacing. -/
theorem quanta_add_mul {f t : ℕ} (hf : f ≤ 0x20000000000000)
    (hnormal : t = 0 ∨ 0x10000000000000 ≤ f) :
    quanta (f + t * 0x10000000000000) = f * 2 ^ t := by
  unfold quanta exponentField fractionField
  rw [Nat.pow_eq]
  rcases Nat.lt_or_ge f 0x10000000000000 with hlt | hge
  · obtain rfl : t = 0 := by omega
    rw [if_pos (by omega)]
    omega
  rcases Nat.lt_or_eq_of_le hf with hlt | rfl
  · have hexp : (f + t * 0x10000000000000) / 0x10000000000000 = t + 1 := by omega
    have hfrac : 0x10000000000000 + (f + t * 0x10000000000000) % 0x10000000000000 = f := by omega
    rw [hexp, if_neg (Nat.succ_ne_zero t), hfrac, Nat.add_sub_cancel]
  · have hexp : (0x20000000000000 + t * 0x10000000000000) / 0x10000000000000 = t + 1 + 1 := by omega
    have hfrac : (0x20000000000000 + t * 0x10000000000000) % 0x10000000000000 = 0 := by omega
    rw [hexp, if_neg (Nat.succ_ne_zero _), hfrac, Nat.add_sub_cancel, pow_succ]
    ring

theorem quanta_of_le {n : ℕ} (h : n ≤ 0x20000000000000) : quanta n = n := by
  have hquanta := @quanta_add_mul n 0 h (.inl rfl)
  rwa [Nat.zero_mul, Nat.add_zero, pow_zero, Nat.mul_one] at hquanta

theorem quanta_succ (n : ℕ) : quanta (n + 1) = quanta n + 2 ^ gap n := by
  rcases Nat.eq_zero_or_pos (exponentField n) with h | h
  · have hn : n < 0x10000000000000 := by unfold exponentField at h; omega
    have hgap : gap n = 0 := by rw [gap, h]
    rw [quanta_of_le (by omega), quanta_of_le (by omega), hgap, pow_zero]
  · -- the significand of `n`, and the one of `n + 1` in the same spacing
    have hn : 0x10000000000000 + fractionField n + gap n * 0x10000000000000 = n := by
      unfold gap fractionField exponentField at *
      omega
    have hfraction : fractionField n < 0x10000000000000 := Nat.mod_lt _ (by decide)
    have hquanta := @quanta_add_mul (0x10000000000000 + fractionField n) (gap n) (by omega)
      (.inr (by omega))
    have hquanta' := @quanta_add_mul (0x10000000000000 + fractionField n + 1) (gap n) (by omega)
      (.inr (by omega))
    rw [hn] at hquanta
    rw [Nat.add_right_comm, hn] at hquanta'
    rw [hquanta, hquanta']
    ring

theorem quanta_zero : quanta 0 = 0 := rfl

theorem strictMono_quanta : StrictMono quanta :=
  strictMono_nat_of_lt_succ fun n => by
    rw [quanta_succ]
    have := Nat.two_pow_pos (gap n)
    omega

/-- The magnitude with the given ordinal. The one with infinity's ordinal is `2 ^ 1024`. -/
def magnitude (ordinal : ℕ) : ℚ := quanta ordinal / 2 ^ 1074

theorem magnitude_mul (n : ℕ) : magnitude n * 2 ^ 1074 = quanta n :=
  div_mul_cancel₀ _ (pow_ne_zero _ two_ne_zero)

theorem magnitude_zero : magnitude 0 = 0 := by
  rw [magnitude, quanta_zero, Nat.cast_zero, zero_div]

/-- **The magnitudes come in the order of their ordinals.** -/
theorem strictMono_magnitude : StrictMono magnitude := by
  intro m n h
  have hquanta : (quanta m : ℚ) < quanta n := by exact_mod_cast strictMono_quanta h
  exact div_lt_div_of_pos_right hquanta (pow_pos two_pos _)

theorem magnitude_nonneg (n : ℕ) : 0 ≤ magnitude n := by
  rw [← magnitude_zero]
  exact strictMono_magnitude.monotone (Nat.zero_le n)

/-! ### Values -/

/-- The value of a number. An infinite number stands for `± 2 ^ 1024`. -/
def value (x : Binary64) : ℚ :=
  if x.negative then -magnitude x.ordinal else magnitude x.ordinal

variable {x y : Binary64} {q : ℚ}

theorem value_neg (x : Binary64) : (-x).value = -x.value := by
  obtain ⟨_ | _, n⟩ := x
  · rfl
  · exact (neg_neg _).symm

theorem negative_neg (x : Binary64) : (-x).negative = !x.negative := rfl

theorem neg_neg_eq (x : Binary64) : - -x = x := by
  obtain ⟨_ | _, n⟩ := x <;> rfl

theorem value_of_not_negative (h : x.negative = false) : x.value = magnitude x.ordinal := by
  rw [value, h, if_neg Bool.false_ne_true]

theorem value_of_negative (h : x.negative = true) : x.value = -magnitude x.ordinal := by
  rw [value, h, if_pos rfl]

theorem isNaN_eq_false_iff : x.isNaN = false ↔ x.ordinal.val ≤ infinityOrdinal := by
  rw [isNaN, decide_eq_false_iff_not, Nat.not_lt]

theorem abs_value (x : Binary64) : |x.value| = magnitude x.ordinal := by
  unfold value
  split
  · rw [abs_neg, abs_of_nonneg (magnitude_nonneg _)]
  · exact abs_of_nonneg (magnitude_nonneg _)

theorem value_eq_zero_iff : x.value = 0 ↔ x.isZero = true := by
  rw [← abs_eq_zero, abs_value, ← magnitude_zero, strictMono_magnitude.injective.eq_iff, isZero,
    decide_eq_true_iff]

/-- **Numbers of one value are equal**, unless they are the two zeros. -/
theorem eq_of_value_eq (h : x.value = y.value) (hx : x.isZero = false) : x = y := by
  have hordinal : x.ordinal.val = y.ordinal.val := by
    apply strictMono_magnitude.injective
    rw [← abs_value, ← abs_value, h]
  have hpos : 0 < magnitude y.ordinal := by
    rw [← abs_value, ← h, abs_pos]
    intro h0
    rw [value_eq_zero_iff.mp h0] at hx
    cases hx
  have hsign : x.negative = y.negative := by
    unfold value at h
    rw [hordinal] at h
    cases hxs : x.negative <;> cases hys : y.negative
    case false.true =>
      rw [hxs, hys, if_neg Bool.false_ne_true, if_pos rfl] at h
      linarith
    case true.false =>
      rw [hxs, hys, if_neg Bool.false_ne_true, if_pos rfl] at h
      linarith
    all_goals rfl
  obtain ⟨s, n⟩ := x
  obtain ⟨t, m⟩ := y
  obtain rfl : s = t := hsign
  obtain rfl : n = m := Fin.ext hordinal
  rfl

/-! ### Nearest numbers -/

/-- No number is nearer to a rational, and none of another value is as near unless the ordinal of
this one is even. -/
structure IsNearest (q : ℚ) (x : Binary64) : Prop where
  number : x.isNaN = false
  least : ∀ y : Binary64, y.isNaN = false → |q - x.value| ≤ |q - y.value|
  even : ∀ y : Binary64, y.isNaN = false → y.value ≠ x.value → |q - x.value| = |q - y.value| →
    x.ordinal.val % 2 = 0

theorem abs_sub_le_abs_sub_iff {a b : ℚ} (h : a < b) : |q - a| ≤ |q - b| ↔ 2 * q ≤ a + b := by
  rcases abs_cases (q - a) with ⟨ha, _⟩ | ⟨ha, _⟩ <;>
    rcases abs_cases (q - b) with ⟨hb, _⟩ | ⟨hb, _⟩ <;>
    rw [ha, hb] <;> constructor <;> intro <;> linarith

theorem abs_sub_ge_abs_sub_iff {a b : ℚ} (h : a < b) : |q - b| ≤ |q - a| ↔ a + b ≤ 2 * q := by
  rcases abs_cases (q - a) with ⟨ha, _⟩ | ⟨ha, _⟩ <;>
    rcases abs_cases (q - b) with ⟨hb, _⟩ | ⟨hb, _⟩ <;>
    rw [ha, hb] <;> constructor <;> intro <;> linarith

/-- A rational between the middles of a magnitude and its neighbours, and on one of the middles
only if the ordinal is even. -/
structure Around (ordinal : ℕ) (q : ℚ) : Prop where
  lower : magnitude (ordinal - 1) + magnitude ordinal ≤ 2 * q
  upper : 2 * q ≤ magnitude ordinal + magnitude (ordinal + 1)
  lower_ne : ordinal % 2 = 1 → magnitude (ordinal - 1) + magnitude ordinal ≠ 2 * q
  upper_ne : ordinal % 2 = 1 → 2 * q ≠ magnitude ordinal + magnitude (ordinal + 1)

theorem IsNearest.neg (h : IsNearest q x) : IsNearest (-q) (-x) := by
  have hdist (y : Binary64) : |-q - y.value| = |q - (-y).value| := by
    rw [value_neg, ← abs_neg]
    ring_nf
  refine ⟨h.number, fun y hy => ?_, fun y hy hne heq => ?_⟩
  · rw [hdist, hdist, neg_neg_eq]
    exact h.least (-y) hy
  · rw [hdist, hdist, neg_neg_eq] at heq
    refine h.even (-y) hy (fun hval => hne ?_) heq
    rw [value_neg, ← hval, value_neg, neg_neg]

/-- A number is nearest to a rational that is no farther than the middle to any other number. -/
theorem isNearest_of_middles (hx : x.isNaN = false)
    (habove : ∀ y : Binary64, y.isNaN = false → x.value < y.value →
      2 * q ≤ x.value + y.value ∧ (2 * q = x.value + y.value → x.ordinal.val % 2 = 0))
    (hbelow : ∀ y : Binary64, y.isNaN = false → y.value < x.value →
      y.value + x.value ≤ 2 * q ∧ (y.value + x.value = 2 * q → x.ordinal.val % 2 = 0)) :
    IsNearest q x := by
  refine ⟨hx, fun y hy => ?_, fun y hy hne heq => ?_⟩
  · rcases lt_trichotomy x.value y.value with h | h | h
    · exact (abs_sub_le_abs_sub_iff h).mpr (habove y hy h).1
    · rw [h]
    · exact (abs_sub_ge_abs_sub_iff h).mpr (hbelow y hy h).1
  · rcases lt_or_gt_of_ne hne with h | h
    · exact (hbelow y hy h).2 (le_antisymm (hbelow y hy h).1 ((abs_sub_le_abs_sub_iff h).mp heq.ge))
    · exact (habove y hy h).2 (le_antisymm (habove y hy h).1 ((abs_sub_ge_abs_sub_iff h).mp heq.ge))

/-- **A rational between the middles of a magnitude and its neighbours is nearest to the number with
this magnitude.** A magnitude beyond the one of infinity is taken for it. -/
theorem Around.isNearest {n : ℕ} (h : Around n q) (hsign : x.negative = false)
    (hordinal : x.ordinal.val = min n infinityOrdinal) : IsNearest q x := by
  have hmono := strictMono_magnitude.monotone
  have hvalue := value_of_not_negative hsign
  have hodd : x.ordinal.val % 2 = 1 → n = x.ordinal.val := by
    have : infinityOrdinal % 2 = 0 := rfl
    omega
  have hlower : magnitude (x.ordinal.val - 1) + x.value ≤ magnitude (n - 1) + magnitude n := by
    rw [hvalue]
    exact add_le_add (hmono (by omega)) (hmono (by omega))
  refine isNearest_of_middles (isNaN_eq_false_iff.mpr (by omega)) (fun y hy hlt => ?_)
    (fun y hy hlt => ?_)
  · -- a greater number comes after the next magnitude, so that the ordinal is not cut off
    have hy' := isNaN_eq_false_iff.mp hy
    have habs : magnitude x.ordinal < magnitude y.ordinal := by
      rw [← hvalue, ← abs_value y]
      exact lt_of_lt_of_le hlt (le_abs_self _)
    have hord := strictMono_magnitude.lt_iff_lt.mp habs
    obtain rfl : n = x.ordinal.val := by omega
    have hnonneg : 0 < y.value := lt_of_le_of_lt (hvalue ▸ magnitude_nonneg _) hlt
    have hnext : magnitude (x.ordinal.val + 1) ≤ y.value := by
      rw [← abs_of_pos hnonneg, abs_value]
      exact hmono hord
    have hupper := h.upper
    rw [hvalue]
    refine ⟨by linarith, fun heq => ?_⟩
    by_contra hpar
    exact h.upper_ne (by omega) (by linarith)
  · have hprev : y.value ≤ magnitude (x.ordinal.val - 1) := by
      rcases Bool.eq_false_or_eq_true y.negative with hys | hys
      · rw [value_of_negative hys]
        linarith [magnitude_nonneg y.ordinal, magnitude_nonneg (x.ordinal.val - 1)]
      · rw [value_of_not_negative hys, hvalue] at *
        have hord := strictMono_magnitude.lt_iff_lt.mp hlt
        exact hmono (by omega)
    have hle := h.lower
    refine ⟨by linarith, fun heq => ?_⟩
    by_contra hpar
    exact h.lower_ne (by omega) (by linarith)

/-- What a positive number is nearest to lies between the middles of it and its neighbours. -/
theorem IsNearest.around (h : IsNearest q x) (hsign : x.negative = false)
    (hpos : 0 < x.ordinal.val) (hlt : x.ordinal.val < infinityOrdinal) : Around x.ordinal q := by
  have hvalue := value_of_not_negative hsign
  have hinf := infinityOrdinal_lt
  let prev : Binary64 := ⟨false, x.ordinal.val - 1, by omega⟩
  let next : Binary64 := ⟨false, x.ordinal.val + 1, by omega⟩
  have hprev : prev.isNaN = false := isNaN_eq_false_iff.mpr ((Nat.sub_le _ _).trans hlt.le)
  have hnext : next.isNaN = false := isNaN_eq_false_iff.mpr hlt
  have hbelow : prev.value < x.value := by
    rw [hvalue]
    exact strictMono_magnitude (Nat.sub_lt hpos one_pos)
  have habove : x.value < next.value := by
    rw [hvalue]
    exact strictMono_magnitude (Nat.lt_succ_self _)
  have hlower := (abs_sub_ge_abs_sub_iff hbelow).mp (h.least prev hprev)
  have hupper := (abs_sub_le_abs_sub_iff habove).mp (h.least next hnext)
  have hlower_ne (hodd : x.ordinal.val % 2 = 1) : prev.value + x.value ≠ 2 * q := by
    intro heq
    have heven := h.even prev hprev hbelow.ne
      (le_antisymm (h.least prev hprev) ((abs_sub_le_abs_sub_iff hbelow).mpr heq.ge))
    omega
  have hupper_ne (hodd : x.ordinal.val % 2 = 1) : 2 * q ≠ x.value + next.value := by
    intro heq
    have heven := h.even next hnext habove.ne'
      (le_antisymm (h.least next hnext) ((abs_sub_ge_abs_sub_iff habove).mpr heq.ge))
    omega
  rw [hvalue] at hlower hupper hlower_ne hupper_ne
  exact ⟨hlower, hupper, hlower_ne, hupper_ne⟩

theorem Around.of_between {n : ℕ} {a b c : ℚ} (ha : Around n a) (hc : Around n c) (hab : a ≤ b)
    (hbc : b ≤ c) : Around n b := by
  have hlower := ha.lower
  have hupper := hc.upper
  refine ⟨by linarith, by linarith, fun hodd heq => ?_, fun hodd heq => ?_⟩
  · exact ha.lower_ne hodd (by linarith)
  · exact hc.upper_ne hodd (by linarith)

theorem Around.pos {n : ℕ} (h : Around n q) (hn : 0 < n) : 0 < q := by
  have hlower := h.lower
  have hprev := magnitude_nonneg (n - 1)
  have hself : magnitude 0 < magnitude n := strictMono_magnitude hn
  rw [magnitude_zero] at hself
  linarith

/-- Between two numbers with even ordinals there is another one. -/
theorem exists_value_between (hx : x.isNaN = false) (hy : y.isNaN = false)
    (hxe : x.ordinal.val % 2 = 0) (hye : y.ordinal.val % 2 = 0) (h : x.value < y.value) :
    ∃ z : Binary64, z.isNaN = false ∧ x.value < z.value ∧ z.value < y.value := by
  have hmono := strictMono_magnitude
  have hx' := isNaN_eq_false_iff.mp hx
  have hy' := isNaN_eq_false_iff.mp hy
  have hinf := infinityOrdinal_lt
  by_cases hpos : 0 < y.value
  · -- the number before `y`
    have hys : y.negative = false := by
      by_contra hys
      rw [value_of_negative (eq_true_of_ne_false hys)] at hpos
      linarith [magnitude_nonneg y.ordinal]
    rw [value_of_not_negative hys] at h hpos ⊢
    have hord : 0 < y.ordinal.val := hmono.lt_iff_lt.mp (magnitude_zero.symm ▸ hpos)
    let z : Binary64 := ⟨false, y.ordinal.val - 1, by omega⟩
    have hz : z.value = magnitude (y.ordinal.val - 1) := rfl
    refine ⟨z, isNaN_eq_false_iff.mpr (Nat.le_trans (Nat.sub_le _ _) hy'), ?_, ?_⟩
    · rw [hz]
      rcases Bool.eq_false_or_eq_true x.negative with hxs | hxs
      · have hzpos : 0 < magnitude (y.ordinal.val - 1) := magnitude_zero ▸ hmono (by omega)
        rw [value_of_negative hxs]
        linarith [magnitude_nonneg x.ordinal]
      · rw [value_of_not_negative hxs] at h ⊢
        have := hmono.lt_iff_lt.mp h
        exact hmono (by omega)
    · rw [hz]
      exact hmono (by omega)
  · -- the number after `x`
    have hneg : x.value < 0 := lt_of_lt_of_le h (not_lt.mp hpos)
    have hxs : x.negative = true := by
      by_contra hxs
      rw [value_of_not_negative (eq_false_of_ne_true hxs)] at hneg
      linarith [magnitude_nonneg x.ordinal]
    have habs : |y.value| < |x.value| := by
      rw [abs_of_nonpos (not_lt.mp hpos), abs_of_neg hneg]
      linarith
    rw [abs_value, abs_value] at habs
    have hord := hmono.lt_iff_lt.mp habs
    let z : Binary64 := ⟨true, x.ordinal.val - 1, by omega⟩
    have hz : z.value = -magnitude (x.ordinal.val - 1) := rfl
    refine ⟨z, isNaN_eq_false_iff.mpr (Nat.le_trans (Nat.sub_le _ _) hx'), ?_, ?_⟩
    · rw [hz, value_of_negative hxs, neg_lt_neg_iff]
      exact hmono (by omega)
    · have hlt : magnitude y.ordinal < magnitude (x.ordinal.val - 1) := hmono (by omega)
      rw [hz, neg_lt, ← abs_of_nonpos (not_lt.mp hpos), abs_value]
      exact hlt

/-- **No two numbers of different values are nearest to one rational.** -/
theorem IsNearest.unique (h : IsNearest q x) (h' : IsNearest q y) : x.value = y.value := by
  have hdist : |q - x.value| = |q - y.value| :=
    le_antisymm (h.least y h'.number) (h'.least x h.number)
  have hnot {x y : Binary64} (h : IsNearest q x) (h' : IsNearest q y)
      (hdist : |q - x.value| = |q - y.value|) : ¬ x.value < y.value := by
    intro hlt
    obtain ⟨z, hz, hxz, hzy⟩ := exists_value_between h.number h'.number
      (h.even y h'.number hlt.ne' hdist) (h'.even x h.number hlt.ne hdist.symm) hlt
    have hlower := (abs_sub_ge_abs_sub_iff hlt).mp hdist.ge
    have hupper := (abs_sub_le_abs_sub_iff hxz).mp (h.least z hz)
    linarith
  exact le_antisymm (not_lt.mp (hnot h' h hdist.symm)) (not_lt.mp (hnot h h' hdist))

/-- A rational is nearest to at most one number other than zero. -/
theorem IsNearest.eq (h : IsNearest q x) (h' : IsNearest q y) (hx : x.isZero = false) : x = y :=
  eq_of_value_eq (h.unique h') hx

end Cascade.Binary64
