import Cascade.Binary64.Shortest
import Cascade.Proofs.Binary64.Rounding

/-! # Shortest decimals read back

The points that `readsBack` accepts are those that a magnitude is nearest to. They form an interval
around the magnitude, so that on any grid one of the two neighbours of the magnitude is accepted if
any point is (`onGrid?_eq_none_iff`). The search over the grids ends on the coarsest one that has an
accepted point.

Main statements:
- `readsBack_iff_around`: the accepted points are those around the magnitude.
- `gridDistance_onGrid?_le`: on a grid, the nearest one of them is taken.
- `shortestBelow_cases`: the grid on which the search ends, and the next one.
- `isNearest_iff_around`: the decimals that a number is nearest to.
- `digits_shortest_mod_ten`, `isNearest_shortest`, `ofDecimal_shortest`: the shortest decimal of a
  number does not end in a zero and is rounded to the number. -/

namespace Cascade.Binary64

/-! ### The accepted points -/

theorem magnitude_eq_decimalUnits (n : ℕ) : magnitude n = decimalUnits n / 10 ^ 1074 := by
  unfold magnitude decimalUnits
  generalize 1074 = e
  have hten : (10 : ℚ) ^ e = 2 ^ e * 5 ^ e := by rw [← mul_pow]; norm_num
  rw [Nat.pow_eq, Nat.cast_mul, Nat.cast_pow, Nat.cast_ofNat, hten,
    mul_div_mul_right _ _ (pow_ne_zero e (by norm_num : (5 : ℚ) ≠ 0))]

theorem strictMono_decimalUnits : StrictMono decimalUnits := by
  intro m n h
  unfold decimalUnits
  generalize 1074 = e
  exact Nat.mul_lt_mul_of_pos_right (strictMono_quanta h) (Nat.pow_pos (by decide))

variable {n p grid m k : ℕ}

theorem readsBack_iff : readsBack n p = true ↔ lowerMiddle n ≤ p ∧ p ≤ upperMiddle n ∧
    (n % 2 = 1 → lowerMiddle n ≠ p ∧ p ≠ upperMiddle n) := by
  unfold readsBack
  split <;> simp only [Bool.and_eq_true, decide_eq_true_eq] <;> omega

/-- **The accepted points are those around the magnitude.** -/
theorem readsBack_iff_around : readsBack n p = true ↔ Around n (p / (2 * 10 ^ 1074)) := by
  have hlower : magnitude (n - 1) + magnitude n = lowerMiddle n / 10 ^ 1074 := by
    rw [magnitude_eq_decimalUnits, magnitude_eq_decimalUnits, lowerMiddle, Nat.cast_add, add_div]
  have hupper : magnitude n + magnitude (n + 1) = upperMiddle n / 10 ^ 1074 := by
    rw [magnitude_eq_decimalUnits, magnitude_eq_decimalUnits, upperMiddle, Nat.cast_add, add_div]
  have hdouble : 2 * ((p : ℚ) / (2 * 10 ^ 1074)) = p / 10 ^ 1074 := by
    rw [← div_div, mul_div_assoc', mul_div_cancel₀ _ two_ne_zero]
  have hscale : (0 : ℚ) < 10 ^ 1074 := pow_pos (by norm_num) _
  have hle {a b : ℕ} : (a : ℚ) / 10 ^ 1074 ≤ b / 10 ^ 1074 ↔ a ≤ b := by
    rw [div_le_div_iff_of_pos_right hscale, Nat.cast_le]
  have heq {a b : ℕ} : (a : ℚ) / 10 ^ 1074 = b / 10 ^ 1074 ↔ a = b := by
    rw [div_left_inj' hscale.ne', Nat.cast_inj]
  rw [readsBack_iff]
  constructor
  · rintro ⟨h, h', hne⟩
    refine ⟨?_, ?_, fun hodd => ?_, fun hodd => ?_⟩
    · rw [hlower, hdouble, hle]
      exact h
    · rw [hupper, hdouble, hle]
      exact h'
    · rw [hlower, hdouble, Ne, heq]
      exact (hne hodd).1
    · rw [hupper, hdouble, Ne, heq]
      exact (hne hodd).2
  · rintro ⟨h, h', hne, hne'⟩
    rw [hlower, hdouble] at h hne
    rw [hupper, hdouble] at h' hne'
    rw [hle] at h h'
    rw [Ne, heq] at hne hne'
    exact ⟨h, h', fun hodd => ⟨hne hodd, hne' hodd⟩⟩

theorem readsBack_of_between {a b c : ℕ} (ha : readsBack n a = true) (hc : readsBack n c = true)
    (hab : a ≤ b) (hbc : b ≤ c) : readsBack n b = true := by
  rw [readsBack_iff] at *
  omega

/-- The magnitude itself is accepted. -/
theorem readsBack_decimalUnits (n : ℕ) : readsBack n (2 * decimalUnits n) = true := by
  have hprev : n % 2 = 1 → decimalUnits (n - 1) < decimalUnits n :=
    fun hodd => strictMono_decimalUnits (by omega)
  have hle : decimalUnits (n - 1) ≤ decimalUnits n :=
    strictMono_decimalUnits.monotone (Nat.sub_le n 1)
  have hnext : decimalUnits n < decimalUnits (n + 1) := strictMono_decimalUnits (Nat.lt_succ_self n)
  rw [readsBack_iff, lowerMiddle, upperMiddle]
  omega

theorem readsBack_zero (hn : 0 < n) : readsBack n 0 = false := by
  have hpos : decimalUnits (n - 1) < decimalUnits n := strictMono_decimalUnits (by omega)
  rw [← Bool.not_eq_true, readsBack_iff, lowerMiddle]
  omega

/-! ### The grids -/

theorem readsBack_of_onGrid? (h : onGrid? n grid = some m) :
    readsBack n (m * (2 * 10 ^ grid)) = true := by
  unfold onGrid? at h
  dsimp only at h
  rw [Nat.pow_eq] at h
  split at h
  · next hbelow habove =>
    obtain rfl := Option.some.inj h
    split_ifs
    · exact hbelow
    · exact habove
  · next hbelow _ =>
    obtain rfl := Option.some.inj h
    exact hbelow
  · next _ habove =>
    obtain rfl := Option.some.inj h
    exact habove
  · cases h

/-- **No point of a grid is accepted if none of the two neighbours of the magnitude is.** -/
theorem onGrid?_eq_none_iff :
    onGrid? n grid = none ↔ ∀ m, readsBack n (m * (2 * 10 ^ grid)) = false := by
  constructor
  · intro h m
    by_contra hm
    have hm := eq_true_of_ne_false hm
    unfold onGrid? at h
    dsimp only at h
    rw [Nat.pow_eq] at h
    set step := 2 * 10 ^ grid with hstep
    have hpos : 0 < step := by positivity
    have hself := readsBack_decimalUnits n
    split at h
    case h_4 hbelow habove =>
      -- the accepted point is on one side of the magnitude, and so the neighbour there is accepted
      rcases Nat.le_total (m * step) (2 * decimalUnits n) with hle | hle
      · have hquot : m ≤ 2 * decimalUnits n / step := (Nat.le_div_iff_mul_le hpos).mpr hle
        have := readsBack_of_between hm hself (Nat.mul_le_mul_right step hquot)
          (Nat.div_mul_le_self _ _)
        rw [hbelow] at this
        cases this
      · rcases Nat.eq_or_lt_of_le hle with heq | hlt
        · rw [heq, Nat.mul_div_cancel _ hpos, hm] at hbelow
          cases hbelow
        · have hquot : 2 * decimalUnits n / step < m := (Nat.div_lt_iff_lt_mul hpos).mpr hlt
          have := readsBack_of_between hself hm (Nat.lt_mul_of_div_lt (Nat.lt_succ_self _) hpos).le
            (Nat.mul_le_mul_right step hquot)
          rw [habove] at this
          cases this
    all_goals cases h
  · intro h
    cases hgrid : onGrid? n grid with
    | none => rfl
    | some m =>
      have := readsBack_of_onGrid? hgrid
      rw [h m] at this
      cases this

/-- The distance of a magnitude from a point of a grid, in half units. -/
def gridDistance (ordinal grid m : ℕ) : ℕ :=
  (((2 * decimalUnits ordinal : ℕ) : ℤ) - (m * (2 * 10 ^ grid) : ℕ)).natAbs

/-- Of the two neighbours of the magnitude, the nearer one of those that are accepted is taken. -/
theorem gridDistance_onGrid?_le_neighbor (h : onGrid? n grid = some m)
    (hk : readsBack n (k * (2 * 10 ^ grid)) = true)
    (hneighbor : k = 2 * decimalUnits n / (2 * 10 ^ grid) ∨
      k = 2 * decimalUnits n / (2 * 10 ^ grid) + 1) :
    gridDistance n grid m ≤ gridDistance n grid k := by
  unfold onGrid? at h
  dsimp only at h
  rw [Nat.pow_eq] at h
  unfold gridDistance
  set step := 2 * 10 ^ grid
  set value := 2 * decimalUnits n
  have hmod : value / step * step + value % step = value := Nat.div_add_mod' _ _
  have hrem : value % step < step := Nat.mod_lt _ (by positivity)
  have hnext : (value / step + 1) * step = value / step * step + step := Nat.succ_mul _ _
  split at h
  · obtain rfl := Option.some.inj h
    split <;> rcases hneighbor with rfl | rfl <;> omega
  · next _ habove =>
    obtain rfl := Option.some.inj h
    rcases hneighbor with rfl | rfl
    · exact le_rfl
    · rw [habove] at hk
      cases hk
  · next hbelow _ =>
    obtain rfl := Option.some.inj h
    rcases hneighbor with rfl | rfl
    · rw [hbelow] at hk
      cases hk
    · exact le_rfl
  · cases h

/-- **The point that is taken on a grid** is the nearest one of those that are accepted. -/
theorem gridDistance_onGrid?_le (h : onGrid? n grid = some m)
    (hk : readsBack n (k * (2 * 10 ^ grid)) = true) :
    gridDistance n grid m ≤ gridDistance n grid k := by
  have hself := readsBack_decimalUnits n
  have hneighbor := fun i => gridDistance_onGrid?_le_neighbor (k := i) h
  unfold gridDistance at *
  set step := 2 * 10 ^ grid
  set value := 2 * decimalUnits n
  have hmod : value / step * step + value % step = value := Nat.div_add_mod' _ _
  have hrem : value % step < step := Nat.mod_lt _ (by positivity)
  have hnext : (value / step + 1) * step = value / step * step + step := Nat.succ_mul _ _
  -- the neighbour on the side of the point is accepted as well, and at most as far
  rcases Nat.lt_or_ge (value / step) k with hlt | hge
  · have hpoint : (value / step + 1) * step ≤ k * step := Nat.mul_le_mul_right step hlt
    have habove := readsBack_of_between hself hk (by omega) hpoint
    exact (hneighbor _ habove (.inr rfl)).trans (by omega)
  · have hpoint : k * step ≤ value / step * step := Nat.mul_le_mul_right step hge
    have hbelow := readsBack_of_between hk hself hpoint (by omega)
    exact (hneighbor _ hbelow (.inl rfl)).trans (by omega)

/-! ### The search -/

/-- **The search ends on a grid with an accepted point, and the next coarser grid has none.** -/
theorem shortestBelow_cases (h : onGrid? n (grid + 1) = none) :
    (onGrid? n (shortestBelow n grid).2 = some (shortestBelow n grid).1 ∨
      shortestBelow n grid = (decimalUnits n, 0)) ∧
    onGrid? n ((shortestBelow n grid).2 + 1) = none := by
  induction grid with
  | zero => exact ⟨.inr rfl, h⟩
  | succ grid ih =>
    unfold shortestBelow
    split
    · next digits hdigits => exact ⟨.inl hdigits, h⟩
    · next hnone => exact ih hnone

theorem readsBack_shortestBelow (h : onGrid? n (grid + 1) = none) :
    readsBack n ((shortestBelow n grid).1 * (2 * 10 ^ (shortestBelow n grid).2)) = true := by
  rcases (shortestBelow_cases h).1 with hgrid | heq
  · exact readsBack_of_onGrid? hgrid
  · rw [heq, pow_zero, Nat.mul_one, Nat.mul_comm]
    exact readsBack_decimalUnits n

/-- The digits that are found do not end in a zero, since their point would be on a coarser grid. -/
theorem shortestBelow_mod_ten (h : onGrid? n (grid + 1) = none) :
    (shortestBelow n grid).1 % 10 ≠ 0 := by
  intro hmod
  obtain ⟨k, hk⟩ := Nat.dvd_of_mod_eq_zero hmod
  have hreads := readsBack_shortestBelow h
  have hcoarser := onGrid?_eq_none_iff.mp (shortestBelow_cases h).2 k
  have hpoint : k * (2 * 10 ^ ((shortestBelow n grid).2 + 1)) =
      (shortestBelow n grid).1 * (2 * 10 ^ (shortestBelow n grid).2) := by
    rw [hk, pow_succ]
    ring
  rw [hpoint, hreads] at hcoarser
  cases hcoarser

theorem lt_ten_pow_coarsestGrid (n : ℕ) : upperMiddle n < 10 ^ coarsestGrid n := by
  set places := (upperMiddle n).log2 / 13 + 1 with hplaces
  have hlog := @Nat.lt_log2_self (upperMiddle n)
  calc upperMiddle n < 2 ^ ((upperMiddle n).log2 + 1) := hlog
    _ ≤ 2 ^ (13 * places) := Nat.pow_le_pow_right two_pos (by omega)
    _ = (2 ^ 13) ^ places := Nat.pow_mul _ _ _
    _ ≤ (10 ^ 4) ^ places := Nat.pow_le_pow_left (by decide) _
    _ = 10 ^ coarsestGrid n := (Nat.pow_mul _ _ _).symm

theorem onGrid?_eq_none_of_coarsestGrid_le (hn : 0 < n) (hgrid : coarsestGrid n ≤ grid) :
    onGrid? n grid = none := by
  rw [onGrid?_eq_none_iff]
  intro m
  rcases Nat.eq_zero_or_pos m with rfl | hm
  · rw [Nat.zero_mul]
    exact readsBack_zero hn
  · have hpow : 10 ^ coarsestGrid n ≤ 10 ^ grid := Nat.pow_le_pow_right (by decide) hgrid
    have hlt := lt_ten_pow_coarsestGrid n
    have hpoint : 2 * 10 ^ grid ≤ m * (2 * 10 ^ grid) := Nat.le_mul_of_pos_left _ hm
    rw [← Bool.not_eq_true, readsBack_iff]
    omega

/-! ### Decimals that read back -/

variable {x : Binary64} {d : Decimal}

theorem ordinal_pos (hx : x.isZero = false) : 0 < x.ordinal.val :=
  Nat.pos_of_ne_zero (of_decide_eq_false hx)

/-- A finite number is nearest to a decimal that has its sign and is around its magnitude. -/
theorem Around.isNearest_decimal (h : Around x.ordinal d.magnitude) (hd : d.negative = x.negative)
    (hfinite : x.isFinite = true) : IsNearest d.value x := by
  have hordinal : x.ordinal.val = min x.ordinal.val infinityOrdinal :=
    (Nat.min_eq_left (of_decide_eq_true hfinite).le).symm
  unfold Decimal.value
  rw [hd]
  cases hsign : x.negative with
  | false =>
    rw [if_neg Bool.false_ne_true]
    exact h.isNearest hsign hordinal
  | true =>
    have hneg : (-x).negative = false := by rw [negative_neg, hsign, Bool.not_true]
    have hnearest := (h.isNearest hneg hordinal).neg
    rw [neg_neg_eq] at hnearest
    rw [if_pos rfl]
    exact hnearest

/-- A signed rational around a positive magnitude has no minus sign. -/
theorem Around.eq_false_of_signed {r : ℚ} {negative : Bool} (hr : 0 ≤ r) (hn : 0 < n)
    (h : Around n (if negative then -r else r)) : negative = false ∧ Around n r := by
  cases negative with
  | false => exact ⟨rfl, h⟩
  | true =>
    have hpos := h.pos hn
    rw [if_pos rfl] at hpos
    linarith

/-- **The decimals that a number is nearest to** have its sign, and lie between the middles of its
magnitude and the neighbouring ones. -/
theorem isNearest_iff_around (hfinite : x.isFinite = true) (hx : x.isZero = false) :
    IsNearest d.value x ↔ d.negative = x.negative ∧ Around x.ordinal d.magnitude := by
  refine ⟨fun h => ?_, fun h => h.2.isNearest_decimal h.1 hfinite⟩
  have hpos := ordinal_pos hx
  have hlt : x.ordinal.val < infinityOrdinal := of_decide_eq_true hfinite
  cases hsign : x.negative with
  | false => exact (h.around hsign hpos hlt).eq_false_of_signed d.magnitude_nonneg hpos
  | true =>
    have hneg : (-x).negative = false := by rw [negative_neg, hsign, Bool.not_true]
    have hvalue : -d.value = if !d.negative then -d.magnitude else d.magnitude := by
      unfold Decimal.value
      cases d.negative <;> simp
    have haround := h.neg.around hneg hpos hlt
    rw [hvalue] at haround
    obtain ⟨hd, haround⟩ := haround.eq_false_of_signed d.magnitude_nonneg hpos
    exact ⟨by simpa using hd, haround⟩

/-- They are the decimals that are rounded to the number. -/
theorem ofDecimal_eq_iff (hx : x.isZero = false) : ofDecimal d = x ↔ IsNearest d.value x := by
  constructor
  · rintro rfl
    exact isNearest_ofDecimal d
  · intro h
    exact (h.eq (isNearest_ofDecimal d) hx).symm

/-! ### The shortest decimal -/

theorem shortest_eq (x : Binary64) : x.shortest =
    ⟨x.negative, (shortestBelow x.ordinal (coarsestGrid x.ordinal)).1,
      (shortestBelow x.ordinal (coarsestGrid x.ordinal)).2 - 1074⟩ := by
  -- the functions are compared, since to compare their results would run the search
  suffices h : shortest = fun x =>
      ⟨x.negative, (shortestBelow x.ordinal (coarsestGrid x.ordinal)).1,
        (shortestBelow x.ordinal (coarsestGrid x.ordinal)).2 - 1074⟩ from congrFun h x
  delta shortest
  funext x
  generalize shortestBelow x.ordinal.val (coarsestGrid x.ordinal.val) = found
  obtain ⟨digits, grid⟩ := found
  rfl

theorem exists_shortest_eq (x : Binary64) : ∃ digits grid : ℕ,
    shortestBelow x.ordinal (coarsestGrid x.ordinal) = (digits, grid) ∧
      x.shortest = ⟨x.negative, digits, grid - 1074⟩ :=
  ⟨_, _, Prod.mk.eta.symm, shortest_eq x⟩

theorem onGrid?_coarsestGrid (hx : x.isZero = false) :
    onGrid? x.ordinal (coarsestGrid x.ordinal + 1) = none :=
  onGrid?_eq_none_of_coarsestGrid_le (ordinal_pos hx) (Nat.le_succ _)

theorem negative_shortest (x : Binary64) : x.shortest.negative = x.negative := by
  obtain ⟨digits, grid, -, heq⟩ := x.exists_shortest_eq
  rw [heq]

/-- **The digits of a shortest decimal do not end in a zero.** -/
theorem digits_shortest_mod_ten (hx : x.isZero = false) : x.shortest.digits % 10 ≠ 0 := by
  obtain ⟨digits, grid, hfound, heq⟩ := x.exists_shortest_eq
  have hmod := shortestBelow_mod_ten (onGrid?_coarsestGrid hx)
  rw [hfound] at hmod
  rw [heq]
  exact hmod

theorem mul_ten_zpow_sub (m grid e : ℕ) : (m : ℚ) * 10 ^ ((grid : ℤ) - e) =
    (m * (2 * 10 ^ grid) : ℕ) / (2 * 10 ^ e) := by
  have hten : (10 : ℚ) ≠ 0 := by norm_num
  rw [zpow_sub₀ hten, zpow_natCast, zpow_natCast]
  push_cast
  field_simp

theorem around_shortest (hx : x.isZero = false) :
    Around x.ordinal x.shortest.magnitude := by
  obtain ⟨digits, grid, hfound, heq⟩ := x.exists_shortest_eq
  have hreads := readsBack_shortestBelow (onGrid?_coarsestGrid hx)
  rw [hfound, readsBack_iff_around, ← mul_ten_zpow_sub, Nat.cast_ofNat] at hreads
  rw [heq]
  exact hreads

/-- **A finite number is nearest to its shortest decimal.** -/
theorem isNearest_shortest (hfinite : x.isFinite = true) (hx : x.isZero = false) :
    IsNearest x.shortest.value x :=
  (around_shortest hx).isNearest_decimal (negative_shortest x) hfinite

/-- **The shortest decimal of a finite number is rounded to the number.** -/
theorem ofDecimal_shortest (hfinite : x.isFinite = true) (hx : x.isZero = false) :
    ofDecimal x.shortest = x :=
  (ofDecimal_eq_iff hx).mpr (isNearest_shortest hfinite hx)

/-- A finite number other than zero is written as its shortest decimal. -/
theorem text_of_isFinite (hfinite : x.isFinite = true) (hx : x.isZero = false) :
    x.text = String.ofList x.shortest.text := by
  unfold text
  rw [nonFinite?_eq_none_iff.mpr hfinite, hx]
  exact if_neg Bool.false_ne_true

end Cascade.Binary64
