/-!
Doubles as exact numbers. A magnitude is its place among the representable ones, so its code is also
its bit pattern; its value is a whole number of units, the unit being the least positive double.
-/
namespace LuaSyntax

def infinityCode : Nat := 2047 * Nat.pow 2 52

structure Magnitude where
  code : Nat
  code_le : code ≤ infinityCode
deriving DecidableEq

/-- The quotient rounded to the nearest whole number, a half to the even neighbour. -/
def roundHalfEven (n d : Nat) : Nat :=
  let q := n / d
  let r := n % d
  if 2 * r < d then q
  else if d < 2 * r then q + 1
  else q + q % 2

namespace Magnitude

def zero : Magnitude := ⟨0, Nat.zero_le _⟩

def infinity : Magnitude := ⟨infinityCode, Nat.le_refl _⟩

/-- The least positive double is two to the minus this power. -/
def unitExponent : Nat := 1074

/-- How often one is the least positive double. -/
def unitsPerOne : Nat := Nat.pow 2 unitExponent

def scale (x : Magnitude) : Nat := x.code / Nat.pow 2 52 - 1

def significand (x : Magnitude) : Nat := x.code - x.scale * Nat.pow 2 52

/-- The value in units. Infinity counts as the power of two that follows the last finite value. -/
def units (x : Magnitude) : Nat := x.significand * Nat.pow 2 x.scale

/-- The magnitude nearest to `n / d` units, ties to even, infinity past the range. -/
def ofUnits (n d : Nat) : Magnitude :=
  let scale := (n / d).log2 - 52
  ⟨min (scale * Nat.pow 2 52 + roundHalfEven n (d * Nat.pow 2 scale)) infinityCode,
    Nat.min_le_right _ _⟩

def ofNat (n : Nat) : Magnitude := ofUnits (n * unitsPerOne) 1

def add (x y : Magnitude) : Magnitude := ofUnits (x.units + y.units) 1

/-- The product with infinity is infinity: no factor is zero where the other one is infinite. -/
def mul (x y : Magnitude) : Magnitude := ofUnits (x.units * y.units) unitsPerOne

/-- The magnitude nearest to `n * 10 ^ e`. Past the bounds put on `e` the answer is zero or infinity
all the same. -/
def ofScientific (n : Nat) (e : Int) : Magnitude :=
  ofUnits (n * Nat.pow 10 (min e.toNat 400) * unitsPerOne)
    (Nat.pow 10 (min (-e).toNat (n.log2 + 400)))

end Magnitude

inductive Binary64
  | nan
  | signed (negative : Bool) (magnitude : Magnitude)
deriving DecidableEq

namespace Binary64

def ofMagnitude (x : Magnitude) : Binary64 := .signed false x

def one : Binary64 := .ofMagnitude (.ofNat 1)

def ofInt (v : Int) : Binary64 := .signed (v < 0) (.ofNat v.natAbs)

def neg : Binary64 → Binary64
  | nan => nan
  | signed negative x => signed (!negative) x

def isNaN : Binary64 → Bool
  | nan => true
  | signed _ _ => false

/-- Equality of numbers: the two zeros are equal and NaN equals nothing. -/
def same : Binary64 → Binary64 → Bool
  | signed s x, signed t y => x.code = y.code && (s = t || x.code = 0)
  | _, _ => false

/-- The number with the given bit pattern. All patterns of NaN are one value. -/
def ofBits (bits : Nat) : Binary64 :=
  let code := bits % Nat.pow 2 63
  if h : code ≤ infinityCode then .signed (Nat.pow 2 63 ≤ bits) ⟨code, h⟩ else .nan

def bits? : Binary64 → Option Nat
  | nan => none
  | signed negative x => some (negative.toNat * Nat.pow 2 63 + x.code)

end Binary64

end LuaSyntax
