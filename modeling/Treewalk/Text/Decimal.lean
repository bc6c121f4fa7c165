/-!
Decimal numerals. A number is written with its fewest digits and, if it is
negative, a leading minus sign; a run of digits is read with any number of
leading zeros.
-/

namespace Treewalk
namespace Text
namespace Decimal

def ofNat (n : Nat) : String :=
  String.ofList (Nat.toDigits 10 n)

def ofInt : Int → String
  | .ofNat n => ofNat n
  | .negSucc n => "-" ++ ofNat (n + 1)

/-- The number that a run of digits stands for. -/
def valueOfDigits (digits : List Char) : Nat :=
  Nat.ofDigitChars 10 digits 0

/-- The number that a word stands for, if it is made of digits alone. -/
def toNat? (text : String) : Option Nat :=
  let digits := text.toList
  if !digits.isEmpty && digits.all Char.isDigit then some (valueOfDigits digits) else none

theorem valueOfDigits_toDigits (n : Nat) : valueOfDigits (Nat.toDigits 10 n) = n := by
  simp [valueOfDigits]

end Decimal
end Text
end Treewalk
