import Cascade.Binary64.Rounding

/-! # Shortest decimals

The text of a double-precision number is the decimal with the fewest significant digits that reads
back to the number, and among those the one nearest to it; of two equally near, the greater. It is
looked for on coarser decimal grids before finer ones, in exact arithmetic.

All quantities are natural numbers of *half units* of `10 ^ -1074`: the magnitudes, the middles
between neighbouring magnitudes and the points of the decimal grids are whole numbers of them. -/

namespace Cascade.Binary64

/-- The magnitude with the given ordinal, in units of `10 ^ -1074`. -/
def decimalUnits (ordinal : Nat) : Nat := quanta ordinal * Nat.pow 5 1074

/-- The middle between a magnitude and the one before it, in half units. -/
def lowerMiddle (ordinal : Nat) : Nat := decimalUnits (ordinal - 1) + decimalUnits ordinal

/-- The middle between a magnitude and the one after it, in half units. -/
def upperMiddle (ordinal : Nat) : Nat := decimalUnits ordinal + decimalUnits (ordinal + 1)

/-- The points, in half units, that read back to a magnitude: those nearer to it than to its
neighbours, and the two middles if its ordinal is even. -/
def readsBack (ordinal point : Nat) : Bool :=
  if ordinal % 2 = 0 then lowerMiddle ordinal ≤ point && point ≤ upperMiddle ordinal
  else lowerMiddle ordinal < point && point < upperMiddle ordinal

/-- The multiplier of the point nearest to a magnitude that reads back to it, among the multiples
of `10 ^ grid` units. -/
def onGrid? (ordinal grid : Nat) : Option Nat :=
  let step := 2 * Nat.pow 10 grid
  let value := 2 * decimalUnits ordinal
  let below := value / step
  match readsBack ordinal (below * step), readsBack ordinal ((below + 1) * step) with
  | true, true => some (if 2 * (value % step) < step then below else below + 1)
  | true, false => some below
  | false, true => some (below + 1)
  | false, false => none

/-- The digits and the grid of the shortest decimal on the grids up to the given one. The finest
grid holds the magnitude itself. -/
def shortestBelow (ordinal : Nat) : Nat → Nat × Nat
  | 0 => (decimalUnits ordinal, 0)
  | grid + 1 =>
    match onGrid? ordinal (grid + 1) with
    | some digits => (digits, grid + 1)
    | none => shortestBelow ordinal grid

/-- A grid too coarse to have a point, zero apart, that reads back to the magnitude. It is four
places for every thirteen bits, as `2 ^ 13 ≤ 10 ^ 4`. -/
def coarsestGrid (ordinal : Nat) : Nat := 4 * ((upperMiddle ordinal).log2 / 13 + 1)

/-- The shortest decimal that reads back to a finite number other than zero. -/
def shortest (x : Binary64) : Decimal :=
  let (digits, grid) := shortestBelow x.ordinal.val (coarsestGrid x.ordinal.val)
  ⟨x.negative, digits, (grid : Int) - 1074⟩

/-- The text of a number: its shortest decimal, and `0` for both zeros. -/
def text (x : Binary64) : String :=
  match x.nonFinite? with
  | some defect => defect.text
  | none => if x.isZero then "0" else String.ofList x.shortest.text

end Cascade.Binary64
