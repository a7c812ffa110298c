import Cascade.Binary64.Basic
import Cascade.Decimal

/-! # Rounding to double precision

The double-precision number nearest to a quotient of natural numbers, and to a decimal. A quotient
half-way between two numbers goes to the one with the even ordinal; one that is at or beyond the
middle between the greatest finite magnitude and `2 ^ 1024` goes to infinity. -/

namespace Cascade.Binary64

/-- The natural number nearest to `a / b`, a half going to the even neighbour. -/
def divHalfEven (a b : Nat) : Nat :=
  let q := a / b
  let r := a % b
  if 2 * r < b then q
  else if b < 2 * r then q + 1
  else q + q % 2

/-- The exponent of the spacing, in quanta, of the magnitudes around `n` quanta. -/
def spacing (n : Nat) : Nat := n.log2 - 52

/-- The ordinal of the magnitude nearest to `num / den`. Within one spacing the ordinals are
consecutive, and a magnitude rounded up past the last of them is the first of the next spacing. -/
def nearestOrdinal (num den : Nat) : Nat :=
  let n := num * Nat.pow 2 1074
  let t := spacing (n / den)
  min (divHalfEven n (den * Nat.pow 2 t) + t * 0x10000000000000) infinityOrdinal

theorem nearestOrdinal_le (num den : Nat) : nearestOrdinal num den ≤ infinityOrdinal :=
  Nat.min_le_right _ _

theorem nearestOrdinal_lt (num den : Nat) : nearestOrdinal num den < 0x8000000000000000 :=
  Nat.lt_of_le_of_lt (nearestOrdinal_le num den) infinityOrdinal_lt

/-- The number nearest to `± num / den`. -/
def ofRatio (negative : Bool) (num den : Nat) : Binary64 :=
  ⟨negative, ⟨nearestOrdinal num den, nearestOrdinal_lt num den⟩⟩

/-- The number nearest to a decimal. -/
def ofDecimal (d : Decimal) : Binary64 :=
  match d.exponent with
  | .ofNat e => ofRatio d.negative (d.digits * Nat.pow 10 e) 1
  | .negSucc e => ofRatio d.negative d.digits (Nat.pow 10 (e + 1))

/-- The number nearest to an integer. -/
def ofInt (n : Int) : Binary64 :=
  ofRatio (decide (n < 0)) n.natAbs 1

instance : OfScientific Binary64 where
  ofScientific digits negativeExponent exponent :=
    ofDecimal ⟨false, digits, if negativeExponent then -exponent else exponent⟩

instance (n : Nat) : OfNat Binary64 n where
  ofNat := ofInt n

end Cascade.Binary64
