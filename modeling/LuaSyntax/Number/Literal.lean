import LuaSyntax.Number.Digits
import LuaSyntax.Number.Binary64

/-!
Number literals. A literal is found at the front of a text as the longest spelling there; its value
is a whole number below `2 ^ 63` where the spelling allows one, and a double otherwise.
-/
namespace LuaSyntax

inductive Numeral
  | int (value : Int)
  | float (value : Binary64)
deriving DecidableEq

namespace Numeral

def toBinary64 : Numeral → Binary64
  | int v => .ofInt v
  | float x => x

/-- Whole numbers and doubles are never equal. -/
def same : Numeral → Numeral → Bool
  | int v, int w => v = w
  | float x, float y => x.same y
  | _, _ => false

end Numeral

/-- The exponent part of a literal: the letter, the sign if one is written, and the digits. -/
structure ExponentPart where
  letter : Char
  sign : Option Char
  digits : List Char
deriving DecidableEq

namespace ExponentPart

def text (e : ExponentPart) : List Char := e.letter :: e.sign.toList ++ e.digits

def value (e : ExponentPart) : Int :=
  let n : Int := readDigits 10 e.digits
  if e.sign = some '-' then -n else n

def splitSign : List Char → Option Char × List Char
  | '+' :: s => (some '+', s)
  | '-' :: s => (some '-', s)
  | s => (none, s)

/-- A letter with no digit after it is no exponent. -/
def scan? : List Char → Option ExponentPart
  | [] => none
  | c :: s =>
    let (sign, s) := splitSign s
    let digits := s.takeWhile Char.isDigit
    if (c = 'e' || c = 'E') && !digits.isEmpty then some ⟨c, sign, digits⟩ else none

end ExponentPart

inductive NumberLiteral
  | hexadecimal (digits : List Char)
  | decimal (whole fraction : List Char) (exponent : Option ExponentPart)
deriving DecidableEq

namespace NumberLiteral

def text : NumberLiteral → List Char
  | hexadecimal digits => '0' :: 'x' :: digits
  | decimal whole fraction exponent =>
    whole ++ (if fraction.isEmpty then [] else '.' :: fraction) ++
      (exponent.map ExponentPart.text).getD []

/-- The digits after a point. A point with no digit after it is not part of the number. -/
def scanFraction : List Char → List Char
  | '.' :: s => s.takeWhile Char.isDigit
  | _ => []

def scanDecimal (s : List Char) : NumberLiteral :=
  let whole := s.takeWhile Char.isDigit
  let afterWhole := s.drop whole.length
  let fraction := scanFraction afterWhole
  let afterFraction := if fraction.isEmpty then afterWhole else afterWhole.drop (fraction.length + 1)
  .decimal whole fraction (ExponentPart.scan? afterFraction)

/-- The literal at the front of a text that starts with a digit. -/
def scan : List Char → NumberLiteral
  | '0' :: 'x' :: s =>
    let digits := s.takeWhile isHexDigit
    if digits.isEmpty then scanDecimal ('0' :: 'x' :: s) else .hexadecimal digits
  | s => scanDecimal s

/-- Hexadecimal digits as a double. Every product and every sum on the way is rounded. -/
def foldHexadecimal (digits : List Char) : Magnitude :=
  digits.foldl (fun x c => (x.mul (.ofNat 16)).add (.ofNat (digitValue c))) .zero

def value : NumberLiteral → Numeral
  | hexadecimal digits =>
    let n := readDigits 16 digits
    if n < Nat.pow 2 63 then .int n else .float (.ofMagnitude (foldHexadecimal digits))
  | decimal whole fraction exponent =>
    let n := readDigits 10 (whole ++ fraction)
    if n < Nat.pow 2 63 && fraction.isEmpty && exponent.isNone then .int n
    else .float (.ofMagnitude (.ofScientific n ((exponent.map ExponentPart.value).getD 0 - fraction.length)))

end NumberLiteral

end LuaSyntax
