/-! Natural numbers in decimal. Leading zeros are read and never written. -/

namespace HackVM.Decimal

def text (n : Nat) : String :=
  String.ofList (Nat.toDigits 10 n)

/-- The number that a run of digits stands for, if it is at most `bound`. -/
def read? (bound : Nat) (text : String) : Option Nat :=
  let digits := text.toList
  let value := Nat.ofDigitChars 10 digits 0
  if digits ≠ [] ∧ digits.all Char.isDigit ∧ value ≤ bound then some value else none

end HackVM.Decimal
