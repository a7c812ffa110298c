/-! # Double-precision numbers

A number of the IEEE 754 binary64 format, as its sign and its *ordinal*: the exponent and fraction
fields read as one natural number. The ordinals of finite magnitudes come in the order of the
magnitudes and without gaps, then comes infinity, then the NaNs.

The magnitude of a finite number is a whole number of *quanta* of `2 ^ -1074`, the least positive
magnitude. There are `2 ^ 63` ordinals, which is `0x8000000000000000`, and `2 ^ 52` fractions, which
is `0x10000000000000`. -/

namespace Cascade

/-- A double-precision number. -/
structure Binary64 where
  negative : Bool
  ordinal : Fin 0x8000000000000000
  deriving DecidableEq, Repr

/-- What a number can be that is not finite. -/
inductive NonFinite where
  | nan
  | infinite (negative : Bool)
  deriving DecidableEq, Repr

/-- The text of a number that is not finite. -/
def NonFinite.text : NonFinite → String
  | nan => "NaN"
  | infinite false => "inf"
  | infinite true => "-inf"

namespace Binary64

/-- The ordinal of infinity. -/
def infinityOrdinal : Nat := 0x7ff0000000000000

theorem infinityOrdinal_lt : infinityOrdinal < 0x8000000000000000 := by decide

/-! ### Words -/

/-- The number that a 64-bit word stands for. -/
def ofWord (w : UInt64) : Binary64 where
  negative := decide (0x8000000000000000 ≤ w.toNat)
  ordinal := Fin.ofNat _ w.toNat

/-- The 64-bit word of a number. -/
def toWord (x : Binary64) : UInt64 :=
  UInt64.ofNat ((if x.negative then 0x8000000000000000 else 0) + x.ordinal.val)

theorem toNat_toWord (x : Binary64) :
    x.toWord.toNat = (if x.negative then 0x8000000000000000 else 0) + x.ordinal.val := by
  have hlt := x.ordinal.isLt
  rw [toWord, UInt64.toNat_ofNat', Nat.mod_eq_of_lt]
  split <;> omega

theorem ofWord_toWord (x : Binary64) : ofWord x.toWord = x := by
  have hword := toNat_toWord x
  have hlt := x.ordinal.isLt
  have hneg : decide (0x8000000000000000 ≤ x.toWord.toNat) = x.negative := by
    rw [hword]
    cases x.negative with
    | false =>
      rw [if_neg Bool.false_ne_true]
      exact decide_eq_false (by omega)
    | true =>
      rw [if_pos rfl]
      exact decide_eq_true (by omega)
  have hord : Fin.ofNat _ x.toWord.toNat = x.ordinal := by
    apply Fin.ext
    change x.toWord.toNat % 0x8000000000000000 = _
    rw [hword]
    split <;> omega
  rw [ofWord, hneg, hord]

theorem toWord_ofWord (w : UInt64) : (ofWord w).toWord = w := by
  have hlt := w.toNat_lt
  rw [← UInt64.toNat_inj, toNat_toWord]
  change (if decide (0x8000000000000000 ≤ w.toNat) then 0x8000000000000000 else 0) +
    w.toNat % 0x8000000000000000 = w.toNat
  by_cases h : 0x8000000000000000 ≤ w.toNat
  · rw [if_pos (decide_eq_true h)]
    omega
  · rw [if_neg (by simpa using h)]
    omega

/-! ### Classes of numbers -/

/-- The defect of a number that is not finite. -/
def nonFinite? (x : Binary64) : Option NonFinite :=
  if x.ordinal.val < infinityOrdinal then none
  else if x.ordinal.val = infinityOrdinal then some (.infinite x.negative)
  else some .nan

/-- A number that is neither infinite nor NaN. -/
def isFinite (x : Binary64) : Bool :=
  decide (x.ordinal.val < infinityOrdinal)

/-- A number that is NaN. -/
def isNaN (x : Binary64) : Bool :=
  decide (infinityOrdinal < x.ordinal.val)

/-- One of the two zeros. -/
def isZero (x : Binary64) : Bool :=
  decide (x.ordinal.val = 0)

/-- The number with the other sign. -/
def neg (x : Binary64) : Binary64 := { x with negative := !x.negative }

instance : Neg Binary64 := ⟨neg⟩

/-- Equality of numbers: NaN differs from everything, and the two zeros are equal. -/
def numEq (x y : Binary64) : Bool :=
  !x.isNaN && !y.isNaN && (x.isZero && y.isZero || decide (x = y))

instance : BEq Binary64 := ⟨numEq⟩

theorem nonFinite?_eq_none_iff {x : Binary64} : x.nonFinite? = none ↔ x.isFinite = true := by
  unfold nonFinite? isFinite
  by_cases h : x.ordinal.val < infinityOrdinal
  · simp [h]
  · by_cases h' : x.ordinal.val = infinityOrdinal <;> simp [h']

/-! ### Magnitudes -/

/-- The exponent field. -/
def exponentField (ordinal : Nat) : Nat := ordinal / 0x10000000000000

/-- The fraction field. -/
def fractionField (ordinal : Nat) : Nat := ordinal % 0x10000000000000

/-- The magnitude with the given ordinal, in units of `2 ^ -1074`. Infinity's ordinal stands here
for `2 ^ 1024`, the magnitude that would come after the greatest finite one. -/
def quanta (ordinal : Nat) : Nat :=
  if exponentField ordinal = 0 then fractionField ordinal
  else (0x10000000000000 + fractionField ordinal) * Nat.pow 2 (exponentField ordinal - 1)

end Binary64

end Cascade
