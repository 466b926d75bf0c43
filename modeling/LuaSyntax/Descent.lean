import LuaSyntax.Descent.Statements

/-!
The parser from the top down: the script of each procedure, and how scripts are run. A call that
is made while others are open counts against the calls that may be open at a time.
-/
namespace LuaSyntax.Descent

def Loop.round {σ : Type} : Loop σ → σ → Script (Round σ)
  | .statements, ss => statementRound ss
  | .operators limit, e => operatorRound limit e
  | .suffixes, c => suffixRound c
  | .entries, es => entryRound es
  | .values, es => commaRound (call .expr) es
  | .targets, xs => commaRound target xs
  | .names, ns => commaRound expectName ns
  | .segments, path => segmentRound path

def loop {σ : Type} (l : Loop σ) (s : σ) : Script σ := do
  match ← l.round s with
  | .again s => call (.loop l s)
  | .done s => return s

def Procedure.body {α : Type} : Procedure α → Script α
  | .program => Descent.program
  | .statements => call (.loop .statements [])
  | .returnStatement => Descent.returnStatement
  | .ifStatement => Descent.ifStatement
  | .ifArm => Descent.ifArm
  | .whileStatement => Descent.whileStatement
  | .repeatStatement => Descent.repeatStatement
  | .doStatement => Descent.doStatement
  | .localStatement => Descent.localStatement
  | .forStatement => Descent.forStatement
  | .numericFor name => Descent.numericFor name
  | .genericFor name => Descent.genericFor name
  | .functionStatement => Descent.functionStatement
  | .function => Descent.function
  | .functionPath => Descent.functionPath
  | .functionBody => Descent.functionBody
  | .parameters => Descent.parameters
  | .assignOrCall => Descent.assignOrCall
  | .assignment first line => Descent.assignment first line
  | .values => Descent.values
  | .expr => call (.subexpr 0)
  | .subexpr limit => Descent.subexpr limit
  | .simpleExpr => Descent.simpleExpr
  | .chain => Descent.chain
  | .suffixes c => call (.loop .suffixes c)
  | .table => Descent.table
  | .entry => Descent.entry
  | .arguments => Descent.arguments
  | .loop l s => Descent.loop l s

/-- How reading ends, and the tokens that are left, after an error too. -/
abbrev Outcome (α : Type) := Parsing α × List Token

/-- Whoever answers calls may have no answer to some. -/
abbrev Callee := ∀ ⦃α : Type⦄, Procedure α → List Token → Option (Outcome α)

/-- The end of a script, if all its calls are answered. -/
def Script.run (answer : Callee) {α : Type} : Script α → List Token → Option (Outcome α)
  | done a, ts => some (.ok a, ts)
  | fail e, ts => some (.error e, ts)
  | look k, ts => (k ts.head?).run answer ts
  | take k, ts => (k ts.head?).run answer ts.tail
  | invoke p k, ts =>
    match answer p ts with
    | some (.ok b, us) => (k b).run answer us
    | some (.error e, us) => some (.error e, us)
    | none => none

/-- The end of a procedure in which at most this many calls are open at a time. -/
def within : Nat → ∀ ⦃α : Type⦄, Procedure α → List Token → Option (Outcome α)
  | 0, _, _, _ => none
  | n + 1, _, p, ts => p.body.run (within n) ts

end LuaSyntax.Descent
