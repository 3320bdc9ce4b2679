/-
`Binary64/Decimal.lean` -- reading `significand * 10 ^ exponent` as a double.

The reading takes two roundings and not one: the significand is rounded to a double, and that
double is multiplied or divided by the double nearest to the power of ten. Powers up to `10 ^ 308`
are doubles; a smaller exponent divides by `10 ^ 308` as often as it needs to.
-/
import Statechart.Binary64.Basic

set_option autoImplicit false

namespace Statechart.Binary64

/-- The greatest exponent of a power of ten that has a double. -/
def maxPower : Nat := 308

/-- The rank nearest to `10 ^ k`, for `k` up to `maxPower`. -/
def powerRank (k : Nat) : Nat := nearestRank (Nat.pow 10 k) 1

/-- Divide a rank by `10 ^ k`, `10 ^ maxPower` at a time. -/
def divPower (rank k : Nat) : Nat :=
  if k ≤ maxPower then divRank rank (powerRank k)
  else if rank = 0 then 0
  else divPower (divRank rank (powerRank maxPower)) (k - maxPower)
termination_by k
decreasing_by simp only [maxPower] at *; omega

/-- The double that `significand * 10 ^ exponent` is read as, or `none` when it is too large. -/
def ofDecimal? (negative : Bool) (significand : Nat) (exponent : Int) : Option Binary64 :=
  let start := nearestRank significand 1
  match exponent with
  | .ofNat k =>
      if k ≤ maxPower then ofRank? negative (mulRank start (powerRank k))
      else if start = 0 then ofRank? negative 0
      else none
  | .negSucc k => ofRank? negative (divPower start (k + 1))

end Statechart.Binary64
