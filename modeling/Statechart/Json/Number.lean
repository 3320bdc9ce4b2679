/-
`Json/Number.lean` -- the numbers of a JSON document and their text.

A number is an integer or a binary64 value, and the two are never equal: `1` and `1.0` are
different values with different texts.
-/
import Statechart.Binary64.Decimal
import Statechart.Binary64.Shortest

set_option autoImplicit false

namespace Statechart

/-- A JSON number: an integer of at most 64 bits, or a binary64 value. -/
inductive Number where
  | int (value : Int)
  | float (value : Binary64)
  deriving DecidableEq

namespace Number

/-- Equality of values, within a kind. -/
def same : Number → Number → Bool
  | .int a, .int b => a == b
  | .float a, .float b => a.same b
  | _, _ => false

/-! ## The layout of a binary64 value

Positional from `0.00001` up to below `10 ^ 16` and always with a point, otherwise with a signed
exponent and no point after a single digit. -/

/-- The points `p` of the values written positionally: `plainFrom ≤ p ≤ plainTo`. -/
def plainFrom : Int := -4

/-- See `plainFrom`. -/
def plainTo : Int := 16

/-- The text of a positive decimal fraction. -/
def layout (value : Binary64.Digits) : List Char :=
  let digits := value.digits
  let point := value.point
  if plainFrom ≤ point ∧ point ≤ plainTo then
    if point ≤ 0 then
      '0' :: '.' :: (List.replicate (-point).toNat '0' ++ digits)
    else
      let whole := digits.take point.toNat
      let fraction := digits.drop point.toNat
      whole ++ List.replicate (point.toNat - whole.length) '0'
        ++ '.' :: (if fraction.isEmpty then ['0'] else fraction)
  else
    let exponent := point - 1
    let fraction := digits.drop 1
    digits.take 1 ++ (if fraction.isEmpty then [] else '.' :: fraction)
      ++ 'e' :: (if exponent < 0 then '-' else '+') :: Nat.toDigits 10 exponent.natAbs

/-- The text of a binary64 value: the fewest digits that identify it. -/
def renderFloat (value : Binary64) : String :=
  let magnitude :=
    if value.rank = 0 then ['0', '.', '0'] else layout (Binary64.shortest value.rank)
  String.ofList (if value.negative then '-' :: magnitude else magnitude)

/-- The text of a number. -/
def render : Number → String
  | .int value => toString value
  | .float value => renderFloat value

/-! ## Reading a literal -/

/-- The parts of a number literal, as written: digits are values below ten. -/
structure Literal where
  negative : Bool
  whole : List Nat
  fraction : Option (List Nat)
  /-- The sign, `true` for a minus, and the digits of the exponent. -/
  exponent : Option (Bool × List Nat)

/-- The number that a run of digits spells. -/
def ofDigits (digits : List Nat) : Nat := digits.foldl (fun n d => 10 * n + d) 0

/-- Append digits to a significand as long as it stays below `2 ^ 64`; also gives the number of
digits left over. -/
def absorb (significand : Nat) : List Nat → Nat × Nat
  | [] => (significand, 0)
  | d :: rest =>
      if 10 * significand + d < Nat.pow 2 64 then absorb (10 * significand + d) rest
      else (significand, rest.length + 1)

namespace Literal

/-- The binary64 reading: the digits are cut where the significand would reach `2 ^ 64`. Whole
digits that were cut count as a factor of ten each; those of the fraction count for nothing. -/
def float? (literal : Literal) : Option Binary64 :=
  let (whole, cut) := absorb 0 literal.whole
  let fraction := literal.fraction.getD []
  -- digits of the fraction may still fit where those of the whole number no longer did
  let (significand, unread) := absorb whole fraction
  let shift : Int := (cut : Int) - (fraction.length - unread : Nat)
  let exponent : Int := match literal.exponent with
    | none => 0
    | some (negative, digits) => if negative then -(ofDigits digits : Int) else ofDigits digits
  Binary64.ofDecimal? literal.negative significand (shift + exponent)

/-- The number a literal stands for, or `none` when it is too large. A literal without fraction
and exponent is an integer if 64 bits hold it; the literal `-0` is the negative zero. -/
def number? (literal : Literal) : Option Number :=
  let value := ofDigits literal.whole
  let integral := literal.fraction.isNone && literal.exponent.isNone
  if integral && !literal.negative && value < Nat.pow 2 64 then some (.int value)
  else if integral && literal.negative && 0 < value && value ≤ Nat.pow 2 63 then
    some (.int (-(value : Int)))
  else literal.float?.map .float

end Literal

end Number

end Statechart
