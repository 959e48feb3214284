/-!
# Decimal digits

Natural numbers in ASCII digits, as environment variables, option values and documents write them.
-/
namespace SelectShape

namespace Digits

/-- The number that a run of decimal digits denotes, most significant first. -/
def value (digits : List Char) : Nat :=
  digits.foldl (fun total c => 10 * total + (c.toNat - '0'.toNat)) 0

/-- One more than the greatest 64-bit word. -/
def wordLimit : Nat := Nat.pow 2 64

/-- Digits that denote a 64-bit word: at least one, any number of leading zeros. -/
def word? (digits : List Char) : Option Nat :=
  if digits.isEmpty || !digits.all Char.isDigit then none
  else if value digits < wordLimit then some (value digits) else none

/-- A 64-bit word with an optional `+` in front. -/
def signedWord? : List Char → Option Nat
  | '+' :: digits => word? digits
  | digits => word? digits

end Digits

end SelectShape
