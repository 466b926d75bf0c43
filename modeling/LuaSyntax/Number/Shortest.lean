import LuaSyntax.Number.Digits
import LuaSyntax.Number.Binary64

/-!
Shortest decimal text of a double: of the decimals that read back as the given magnitude, one on the
coarsest grid of powers of ten, and there the nearest.
-/
namespace LuaSyntax

/-- The number `digits * 10 ^ exponent`. -/
structure Decimal where
  digits : Nat
  exponent : Int
deriving DecidableEq

namespace Decimal

def magnitude (d : Decimal) : Magnitude := .ofScientific d.digits d.exponent

/-- The two points of the grid `10 ^ e` around a magnitude, the nearer one first. When both are
equally near the upper one is first. -/
def around (x : Magnitude) (e : Int) : List Decimal :=
  let n := x.units * Nat.pow 10 (-e).toNat
  let d := Magnitude.unitsPerOne * Nat.pow 10 e.toNat
  let below : Decimal := ⟨n / d, e⟩
  let above : Decimal := ⟨n / d + 1, e⟩
  if 2 * (n % d) < d then [below, above] else [above, below]

/-- An exponent of ten above that of a magnitude: 0.30103 is the decimal logarithm of two. -/
def topExponent (x : Magnitude) : Int :=
  ((x.units.log2 : Int) - 1074) * 30103 / 100000 + 1

/-- Seventeen digits always read back, so some grid among those tried has a point. -/
def shortest (x : Magnitude) : Decimal :=
  if x.code = 0 then ⟨0, 0⟩
  else
    ((List.range 20).findSome? fun (i : Nat) =>
      (around x (topExponent x - i)).find? fun d => d.magnitude = x).getD ⟨0, 0⟩

/-- The exponent of the first digit. -/
def leading (d : Decimal) : Int := (decimalDigits d.digits).length - 1 + d.exponent

def positional (d : Decimal) : List Char :=
  let ds := decimalDigits d.digits
  let places := (-d.exponent).toNat
  if 0 ≤ d.exponent then ds ++ List.replicate d.exponent.toNat '0'
  else if places < ds.length then
    ds.take (ds.length - places) ++ '.' :: ds.drop (ds.length - places)
  else '0' :: '.' :: List.replicate (places - ds.length) '0' ++ ds

def scientific (d : Decimal) : List Char :=
  let point : List Char → List Char
    | [] => []
    | [c] => [c]
    | c :: cs => c :: '.' :: cs
  point (decimalDigits d.digits) ++ 'e' :: (toString d.leading).toList

end Decimal

end LuaSyntax
