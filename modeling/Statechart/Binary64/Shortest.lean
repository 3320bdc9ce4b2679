/-
`Binary64/Shortest.lean` -- the fewest decimal digits that identify a double.

The reals that round to a double reach from halfway to its lower neighbour to halfway to its upper
one, ends included exactly when the rank is even. For one digit, two digits and so on, the double's
two neighbours on the grid of that many digits are tested against this interval. The first grid
with a hit gives the digits; of two hits the nearer one is taken, and of two equally near ones the
even one. Seventeen digits always suffice.
-/
import Statechart.Binary64.Basic

set_option autoImplicit false

namespace Statechart.Binary64

/-- A positive decimal fraction `0.d₁d₂… * 10 ^ point`. -/
structure Digits where
  digits : List Char
  point : Int

/-- The `point` of a positive rank: the least `p` with magnitude below `10 ^ p`. The magnitude is
scaled by `10 ^ 324` first, which makes it at least one for every positive rank. -/
def decimalPoint (rank : Nat) : Int :=
  let scaled := units rank * Nat.pow 10 324 / Nat.pow 2 1074
  ((Nat.toDigits 10 scaled).length : Int) - 324

/-- The multiple of `10 ^ grid` nearest to the rank that still identifies it, as a factor. The
comparison is done in half units of the rank, cleared of the grid's denominator. -/
def onGrid? (rank : Nat) (grid : Int) : Option Nat :=
  let step := Nat.pow 10 grid.toNat * Nat.pow 2 1075
  let clear := Nat.pow 10 (-grid).toNat
  let value := 2 * units rank * clear
  let low := (units (rank - 1) + units rank) * clear
  let high := (units rank + units (rank + 1)) * clear
  let inside (factor : Nat) : Bool :=
    if rank % 2 = 0 then low ≤ factor * step && factor * step ≤ high
    else low < factor * step && factor * step < high
  let below := value / step
  let above := below + 1
  match inside below, inside above with
  | true, true =>
      match compare (2 * value) ((below + above) * step) with
      | .lt => some below
      | .gt => some above
      | .eq => some (if below % 2 = 0 then below else above)
  | true, false => some below
  | false, true => some above
  | false, false => none

/-- The digits on the grid of `count` digits, without trailing zeros. -/
def withDigits? (rank count : Nat) : Option Digits :=
  let grid := decimalPoint rank - count
  (onGrid? rank grid).map fun factor =>
    let digits := Nat.toDigits 10 factor
    ⟨(digits.reverse.dropWhile (· == '0')).reverse, (digits.length : Int) + grid⟩

/-- The fewest digits that identify a positive rank. -/
def shortest (rank : Nat) : Digits :=
  ((List.range 17).findSome? fun n => withDigits? rank (n + 1)).getD ⟨[], 0⟩

end Statechart.Binary64
