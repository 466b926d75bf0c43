/-!
Digits and the numbers they spell. A digit string is read from the left in a given base.
-/
namespace LuaSyntax

def isHexDigit (c : Char) : Bool :=
  c.isDigit || ('a' ≤ c && c ≤ 'f') || ('A' ≤ c && c ≤ 'F')

/-- The value of a decimal or hexadecimal digit, of either case. -/
def digitValue (c : Char) : Nat :=
  if c.isDigit then c.toNat - '0'.toNat
  else if 'a' ≤ c then c.toNat - 'a'.toNat + 10
  else c.toNat - 'A'.toNat + 10

def readDigits (base : Nat) (digits : List Char) : Nat :=
  digits.foldl (fun n c => base * n + digitValue c) 0

/-- The decimal digits of a number, without leading zeros. -/
def decimalDigits (n : Nat) : List Char := Nat.toDigits 10 n

end LuaSyntax
