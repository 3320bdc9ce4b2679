/-
`Binary64/Basic.lean` -- finite binary64 numbers as ranks, and rounding a quotient to the nearest.

The nonnegative finite doubles are `0` and its successors in increasing order, so a double is a
sign and a *rank*: rank `0` is zero, rank `1` the least positive double. In units of `2 ^ -1074`,
the distance between the smallest of them, every rank is a natural number (`units`), and all
arithmetic below is exact arithmetic on naturals followed by one rounding. Powers are written
`Nat.pow`, so that they are those of the naturals beside any algebra.
-/

set_option autoImplicit false

namespace Statechart

/-- A finite binary64 number: its sign and its rank among the nonnegative ones. -/
structure Binary64 where
  negative : Bool
  rank : Nat
  /-- The ranks from this bound on would be the infinity and what lies beyond it. -/
  finite : rank < 2047 * Nat.pow 2 52
  deriving DecidableEq

namespace Binary64

/-- The magnitude of a rank in units of `2 ^ -1074`. The first `2 ^ 52` ranks are one unit apart;
after that the spacing doubles every `2 ^ 52` ranks. -/
def units (rank : Nat) : Nat :=
  let step := Nat.pow 2 52
  if rank < step then rank else (step + rank % step) * Nat.pow 2 (rank / step - 1)

/-- `num / den` rounded to the nearest natural number, a half to the even one. -/
def roundQuotient (num den : Nat) : Nat :=
  let quotient := num / den
  let rest := 2 * (num % den)
  if rest < den ∨ (rest = den ∧ quotient % 2 = 0) then quotient else quotient + 1

/-- The rank nearest to `num / den`, ties to the even rank; `den` is positive.

With `s` the least shift that brings the quotient below `2 ^ 53` last places, the rank is
`s * 2 ^ 52` plus the quotient rounded to `2 ^ s` units. A quotient that rounds up to `2 ^ 53`
lands on the first rank of the next spacing by itself. -/
def nearestRank (num den : Nat) : Nat :=
  let scaled := num * Nat.pow 2 1074
  -- the two logarithms fix the shift up to one
  let estimate := scaled.log2 - den.log2 - 53
  let shift := if scaled < den * Nat.pow 2 (estimate + 53) then estimate else estimate + 1
  shift * Nat.pow 2 52 + roundQuotient scaled (den * Nat.pow 2 shift)

/-- The rank of the product of two ranks. -/
def mulRank (a b : Nat) : Nat :=
  nearestRank (units a * units b) (Nat.pow 2 1074 * Nat.pow 2 1074)

/-- The rank of the quotient of two ranks, the second of them positive. -/
def divRank (a b : Nat) : Nat := nearestRank (units a) (units b)

/-- The double of a sign and a rank, unless the rank is past the finite ones. -/
def ofRank? (negative : Bool) (rank : Nat) : Option Binary64 :=
  if h : rank < 2047 * Nat.pow 2 52 then some ⟨negative, rank, h⟩ else none

/-- Equality of values: the two zeros are equal. -/
def same (a b : Binary64) : Bool :=
  a.rank == b.rank && (a.rank == 0 || a.negative == b.negative)

end Binary64

end Statechart
