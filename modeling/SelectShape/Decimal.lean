import SelectShape.Digits

/-!
# Decimal numbers and doubles

Which numbers written in decimals lie within the range of doubles, the binary floating-point numbers of
64 bits. One rule rounds the number itself. The other rounds twice on the way, its leading digits and a
power of ten before their product, so that the two differ next to the end of the range.
-/
namespace SelectShape

/-- The parts of a number in decimals. -/
structure Decimal where
  -- The digits before the point.
  whole : List Char
  -- The digits after the point.
  fraction : List Char
  negativeExponent : Bool
  -- The digits of the exponent.
  exponent : List Char
  deriving DecidableEq, Repr

namespace Decimal

/-- The parts of a number, which may have a minus sign, a fraction and an exponent. -/
def ofChars (spelling : List Char) : Decimal :=
  let unsigned := spelling.dropWhile (· == '-')
  let rest := unsigned.dropWhile Char.isDigit
  let fraction := (rest.dropWhile (· == '.')).takeWhile Char.isDigit
  let exponent := (rest.dropWhile fun c => c == '.' || c.isDigit).drop 1
  { whole := unsigned.takeWhile Char.isDigit
    fraction
    negativeExponent := exponent.head? == some '-'
    exponent := exponent.dropWhile fun c => c == '-' || c == '+' }

/-- The power of ten that the exponent stands for. -/
def power (number : Decimal) : Int :=
  if number.negativeExponent then -(Digits.value number.exponent : Int)
  else Digits.value number.exponent

/-- The least number that rounds to no finite double. -/
def doubleLimit : Nat := Nat.pow 2 1024 - Nat.pow 2 970

/-- The number, without its sign, rounds to a finite double. The count of digits before the point
settles all but numbers close to the limit, for which powers of ten are compared. -/
def rounds (number : Decimal) : Bool :=
  let digits := (number.whole ++ number.fraction).dropWhile (· == '0')
  let scale : Int := number.power - number.fraction.length
  let magnitude : Int := digits.length + scale
  if digits.isEmpty || magnitude ≤ 308 then true
  else if 310 < magnitude then false
  else if 0 ≤ scale then decide (Digits.value digits * Nat.pow 10 scale.toNat < doubleLimit)
  else decide (Digits.value digits < doubleLimit * Nat.pow 10 (-scale).toNat)

/-- The nearest number with at most 53 significant bits; of two nearest ones, that with an even
significand. -/
def nearest (n : Nat) : Nat :=
  let unit := Nat.pow 2 (n.log2 - 52)
  let below := n / unit
  let rest := n % unit
  if 2 * rest < unit || (2 * rest == unit && below % 2 == 0) then below * unit
  else (below + 1) * unit

/-- Append digits to a number as long as it remains a 64-bit word; the number and the digits left. -/
def extend (n : Nat) : List Char → Nat × List Char
  | [] => (n, [])
  | c :: rest =>
    let next := 10 * n + Digits.value [c]
    if next < Digits.wordLimit then extend next rest else (n, c :: rest)

/-- The greatest exponent that is counted out. -/
def exponentLimit : Nat := 2147483647

/-- The number, without its sign, is finite when its leading digits, as many as a 64-bit word holds,
are rounded to a double, a power of ten is, and then their product is. Digits of the fraction follow the
leading ones also where digits before the point were left out. -/
def roundsByParts (number : Decimal) : Bool :=
  let (leading, left) := extend 0 number.whole
  let (leading, ignored) := extend leading number.fraction
  let scale : Int :=
    number.power + left.length - (number.fraction.length - ignored.length : Nat)
  if leading = 0 then true
  else if exponentLimit < Digits.value number.exponent then number.negativeExponent
  else if scale ≤ 0 then true
  else if 308 < scale then false
  else decide (nearest leading * nearest (Nat.pow 10 scale.toNat) < doubleLimit)

end Decimal

end SelectShape
