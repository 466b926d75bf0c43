import LuaSyntax.Descent.Script

/-!
Expressions from the top down: operators by their priorities, chains, tables and lists of values.
-/
namespace LuaSyntax.Descent

/-- An operator joins the expression before it if it binds tighter than the limit. -/
def operatorRound (limit : Nat) (e : Expr) : Script (Round Expr) := do
  match (← peekKind).bind BinaryOp.ofToken? with
  | none => return .done e
  | some op =>
    if op.leftPriority ≤ limit then return .done e
    else
      skip
      let right ← call (.subexpr op.rightPriority)
      return .again (.binary e op right)

def operand : Script Expr := do
  match ← peekKind with
  | some (.symbol .minus) =>
    skip
    return UnaryOp.minus.apply (← call (.subexpr UnaryOp.priority))
  | some (.keyword .not) =>
    skip
    return UnaryOp.not.apply (← call (.subexpr UnaryOp.priority))
  | _ => call .simpleExpr

def subexpr (limit : Nat) : Script Expr := do
  let e ← operand
  call (.loop (.operators limit) e)

def simpleExpr : Script Expr := do
  match ← peekKind with
  | some .name | some (.symbol .openParen) => return (← call .chain).expr
  | _ =>
    let t ← nextToken
    match t.kind with
    | .keyword .nil => return .nil
    | .keyword .true => return .boolean true
    | .keyword .false => return .boolean false
    | .number n => return .number n.toBinary64
    | .string => return .string (StringLiteral.value t.text)
    | .keyword .function =>
      let f ← call .functionBody
      return .function f.params f.body
    | .symbol .openBrace => call .table
    | _ => unexpected t

def chain : Script Chain := do
  let t ← nextToken
  match t.kind with
  | .name => call (.suffixes (.place (.name t.text)))
  | .symbol .openParen =>
    let e ← call .expr
    let _ ← expect (.symbol .closeParen)
    call (.suffixes (.parens e))
  | _ => unexpected t

def suffixRound (c : Chain) : Script (Round Chain) := do
  match ← peekKind with
  | some (.symbol .dot) =>
    skip
    return .again (c.member (← expectName))
  | some (.symbol .openBracket) =>
    skip
    let key ← call .expr
    let _ ← expect (.symbol .closeBracket)
    return .again (.place (.index c.expr key))
  | some (.symbol .openParen) =>
    skip
    return .again (.call c.expr (← call .arguments))
  | some (.symbol .openBrace) =>
    skip
    return .again (.call c.expr [← call .table])
  | _ => return .done c

/-- A comma goes on with the table, whether an entry follows it or the brace. -/
def entryRound (entries : List Entry) : Script (Round (List Entry)) := do
  if (← peekKind) = some (.symbol .closeBrace) then return .done entries
  else
    let entry ← call .entry
    match ← tryPop (.symbol .comma) with
    | some _ => return .again (entries ++ [entry])
    | none => return .done (entries ++ [entry])

def table : Script Expr := do
  let entries ← call (.loop .entries [])
  let _ ← expect (.symbol .closeBrace)
  return .table entries

def entryKey : Script Expr := do
  let t ← nextToken
  match t.kind with
  | .name => return .name t.text
  | .symbol .openBracket =>
    let key ← call .expr
    let _ ← expect (.symbol .closeBracket)
    return key
  | _ => unexpected t

def entry : Script Entry := do
  let key ← entryKey
  let _ ← expect (.symbol .assign)
  return .entry key (← call .expr)

/-- One piece more for each comma. -/
def commaRound {α : Type} (piece : Script α) (pieces : List α) : Script (Round (List α)) := do
  match ← tryPop (.symbol .comma) with
  | some _ => return .again (pieces ++ [← piece])
  | none => return .done pieces

def values : Script (List Expr) := do
  let e ← call .expr
  call (.loop .values [e])

def arguments : Script (List Expr) := do
  match ← tryPop (.symbol .closeParen) with
  | some _ => return []
  | none =>
    let es ← call .values
    let _ ← expect (.symbol .closeParen)
    return es

end LuaSyntax.Descent
