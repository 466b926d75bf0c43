import LuaSyntax.Number.Shortest

/-!
How a double is laid out as text, apart from its digits.
-/
namespace LuaSyntax

/-- What a whole number ends in, and the exponents that are written positionally, if not all are. -/
structure NumberLayout where
  wholeEnding : String
  positionalExponents : Option (Int × Int)

namespace NumberLayout

/-- Only digits, sign and point. -/
def plain : NumberLayout := ⟨"", none⟩

/-- A number can be told from an integer: it has a point or an exponent. -/
def marked : NumberLayout := ⟨".0", some (-4, 15)⟩

def isPositional (layout : NumberLayout) (e : Int) : Bool :=
  match layout.positionalExponents with
  | none => true
  | some (low, high) => low ≤ e && e ≤ high

def decimal (layout : NumberLayout) (d : Decimal) : String :=
  if layout.isPositional d.leading then
    String.ofList d.positional ++ if 0 ≤ d.exponent then layout.wholeEnding else ""
  else String.ofList d.scientific

/-- NaN has no sign, zero and infinity have one. -/
def text (layout : NumberLayout) : Binary64 → String
  | .nan => "NaN"
  | .signed negative x =>
    let sign := if negative then "-" else ""
    if x = .infinity then sign ++ "inf" else sign ++ layout.decimal (.shortest x)

end NumberLayout

end LuaSyntax
